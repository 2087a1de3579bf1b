import ProxyPP.Http.Peer

/-!
# ProxyPP.Http.Forward — `ForwardExactly` and `ForwardUntilEof`

The two unframed forwarding loops, one `whileLoop` each.  Specification of both: on `true` and
while suspended every octet is accounted for (`Moved`), on `false` the target has a prefix of what
was there to send (`Cut`); `ForwardExactly` has moved `content_length` octets when it returns
`true`, and never more.
-/

namespace ProxyPP.Http

open ProxyPP ProxyPP.Lib

/-! ## Definitions -/

/-- `WriteToPeer`, reduced to whether it succeeded. -/
def writeAll (bytesToWrite : ℕ) : EStateM Stop Link Bool := do
  let bytesWritten ← writeToPeer bytesToWrite
  pure bytesWritten.isSome

/-- `if(read_buffer.size() == 0) ReadSomeFromPeer`, reduced to whether the loop may go on. -/
def refill : EStateM Stop Link Bool := do
  let l ← get
  if l.readBuffer.length = 0 then do
    let bytesRead ← readSomeFromPeer
    pure bytesRead.isSome
  else pure true

/-- One iteration of the loop of `ForwardExactly`. -/
def forwardExactlyStep (contentLength bytesSent : UInt64) : EStateM Stop Link (UInt64 ⊕ Bool) :=
  if bytesSent < contentLength then do
    let bytesRemaining := contentLength - bytesSent
    if ← refill then do
      let l ← get
      let bytesToWrite := min bytesRemaining.toNat l.readBuffer.length
      match ← writeToPeer bytesToWrite with
      | none => pure (.inr false)
      | some bytesWritten => pure (.inl (bytesSent + UInt64.ofNat bytesWritten))
    else pure (.inr false)
  else pure (.inr true)

def forwardExactly (fuel : ℕ) (contentLength : UInt64) : EStateM Stop Link Bool :=
  whileLoop .outOfFuel (forwardExactlyStep contentLength) fuel 0

/-- One iteration of the loop of `ForwardUntilEof`. -/
def forwardUntilEofStep (_ : Unit) : EStateM Stop Link (Unit ⊕ Bool) := do
  match ← readSomeFromPeer with
  | none => pure (.inr false)
  | some readResult => do
    let written ← if readResult.bytesRead > 0 then writeAll readResult.bytesRead else pure true
    if written then
      if readResult.eof then pure (.inr true) else pure (.inl ())
    else pure (.inr false)

def forwardUntilEof (fuel : ℕ) : EStateM Stop Link Bool := do
  let l ← get
  let drained ← if l.readBuffer.length > 0 then writeAll l.readBuffer.length else pure true
  if drained then whileLoop .outOfFuel forwardUntilEofStep fuel () else pure false

/-! ## Specification -/

/-- A forwarding function that returned: on `true` all octets are accounted for and `P` holds of
what was sent, on `false` the target has a prefix of what there was, with `F`. -/
def Forwarded (l : Link) (P : List Octet → Link → Prop) (F : List Octet → Prop) (ok : Bool)
    (l' : Link) : Prop :=
  ∃ tx rx, if ok then Moved l l' tx rx ∧ P tx l' else Cut l l' tx rx ∧ F tx

/-- A forwarding function that did not return: suspended, with all octets accounted for. -/
def Suspended (l : Link) (F : List Octet → Prop) (e : Stop) (l' : Link) : Prop :=
  (e = .blocked ∨ e = .outOfFuel) ∧ ∃ tx rx, Moved l l' tx rx ∧ F tx

section Outcomes

variable {l l' : Link} {tx rx : List Octet} {P : List Octet → Link → Prop} {F : List Octet → Prop}

theorem Moved.suspended (h : Moved l l' tx rx) (hF : F tx) {e : Stop}
    (he : e = .blocked ∨ e = .outOfFuel) : Suspended l F e l' := ⟨he, tx, rx, h, hF⟩

theorem Forwarded.failed (h : Cut l l' tx rx) (hF : F tx) : Forwarded l P F false l' :=
  ⟨tx, rx, h, hF⟩

theorem Forwarded.done (h : Moved l l' tx rx) (hP : P tx l') : Forwarded l P F true l' :=
  ⟨tx, rx, h, hP⟩

/-- Whatever a forwarding function returned, the target has a prefix of what there was. -/
theorem Forwarded.cut {ok : Bool} (h : Forwarded l P F ok l') (hPF : ∀ tx l', P tx l' → F tx) :
    ∃ tx rx, Cut l l' tx rx ∧ F tx := by
  obtain ⟨tx, rx, h⟩ := h
  cases ok with
  | false => exact ⟨tx, rx, h⟩
  | true => exact ⟨tx, rx, h.1.cut, hPF tx l' h.2⟩

theorem Suspended.cut {e : Stop} (h : Suspended l F e l') : ∃ tx rx, Cut l l' tx rx ∧ F tx := by
  obtain ⟨-, tx, rx, hm, hF⟩ := h
  exact ⟨tx, rx, hm.cut, hF⟩

end Outcomes

/-- What any of the functions on a link does at most. -/
def Transferred (l l' : Link) : Prop := ∃ tx rx, Transfer l l' tx rx

instance : IsPreorder Link Transferred where
  refl l := ⟨[], [], Transfer.refl l⟩
  trans _ _ _ := fun ⟨_, _, h⟩ ⟨_, _, h'⟩ => ⟨_, _, h.trans h'⟩

theorem Forwarded.transferred {l l' : Link} {P : List Octet → Link → Prop} {F : List Octet → Prop}
    {ok : Bool} (h : Forwarded l P F ok l') : Transferred l l' := by
  obtain ⟨tx, rx, h⟩ := h
  cases ok with
  | false => exact ⟨tx, rx, h.1.toTransfer⟩
  | true => exact ⟨tx, rx, h.1.toTransfer⟩

theorem Suspended.transferred {l l' : Link} {F : List Octet → Prop} {e : Stop}
    (h : Suspended l F e l') : Transferred l l' := by
  obtain ⟨-, tx, rx, hm, -⟩ := h
  exact ⟨tx, rx, hm.toTransfer⟩

theorem within_of_forwarded {m : EStateM Stop Link Bool} {P : List Octet → Link → Prop}
    {F : List Octet → Prop} (h : ∀ l, Ends m l (Forwarded l P F) (Suspended l F)) :
    Within Transferred m := fun l =>
  (h l).mono (fun _ _ h => h.transferred) fun _ _ h => h.transferred

theorem within_readSomeFromPeer : Within Transferred readSomeFromPeer := fun l =>
  (readSomeFromPeer_ends l).mono (fun _ _ ⟨rx, hm, _⟩ => ⟨[], rx, hm.toTransfer⟩)
    (fun _ _ ⟨_, h⟩ => ⟨[], [], h ▸ Transfer.refl l⟩)

theorem within_writeToPeer (n : ℕ) : Within Transferred (writeToPeer n) := fun l => by
  refine (writeToPeer_ends l n fun _ _ => False).mono ?_ fun _ _ h => h.elim
  rintro (_ | k) l' h
  · obtain ⟨tx, hc, -⟩ := h
    exact ⟨tx, [], hc.toTransfer⟩
  · exact ⟨_, [], h.2.2.2.toTransfer⟩

/-- A read continuing a transfer. -/
theorem Moved.read {l l₁ : Link} {tx rx : List Octet} (h : Moved l l₁ tx rx)
    {F : List Octet → Prop} (hF : F tx) : Ends readSomeFromPeer l₁
      (fun r l₂ => ∃ rx', Moved l l₂ tx (rx ++ rx') ∧ l₂.readBuffer = l₁.readBuffer ++ rx' ∧
        ∀ res ∈ r, res.bytesRead = rx'.length ∧ (res.eof = false → 0 < rx'.length))
      (Suspended l F) := by
  refine (readSomeFromPeer_ends l₁).mono ?_ ?_
  · rintro r l₂ ⟨rx', hm, hr⟩
    refine ⟨rx', ?_, hm.buffer, hr⟩
    have := h.trans hm
    rwa [List.append_nil] at this
  · rintro e l₂ ⟨rfl, rfl⟩
    exact h.suspended hF (Or.inl rfl)

/-- A write continuing a transfer. -/
theorem Moved.write {l l₁ : Link} {tx rx : List Octet} (h : Moved l l₁ tx rx) (n : ℕ)
    (E : Stop → Link → Prop) : Ends (writeToPeer n) l₁
      (fun r l₂ => match r with
        | some k => k = n ∧ n ≤ l₁.readBuffer.length ∧ l₂.readBuffer = l₁.readBuffer.drop n ∧
            Moved l l₂ (tx ++ l₁.readBuffer.take n) rx
        | none => ∃ tx', Cut l l₂ (tx ++ tx') rx ∧ tx' <+: l₁.readBuffer.take n) E := by
  refine (writeToPeer_ends l₁ n E).mono ?_ fun _ _ he => he
  rintro (_ | k) l₂ hr
  · obtain ⟨tx', hc, htx'⟩ := hr
    refine ⟨tx', ?_, htx'⟩
    have := h.trans_cut hc
    rwa [List.append_nil] at this
  · obtain ⟨hk, hn, hbuf, hm⟩ := hr
    refine ⟨hk, hn, hbuf, ?_⟩
    have := h.trans hm
    rwa [List.append_nil] at this

theorem Moved.writeAll {l l₁ : Link} {tx rx : List Octet} (h : Moved l l₁ tx rx) (n : ℕ)
    (E : Stop → Link → Prop) : Ends (writeAll n) l₁
      (fun ok l₂ => if ok then n ≤ l₁.readBuffer.length ∧ l₂.readBuffer = l₁.readBuffer.drop n ∧
            Moved l l₂ (tx ++ l₁.readBuffer.take n) rx
        else ∃ tx', Cut l l₂ tx' rx) E := by
  refine (h.write n E).bind ?_
  rintro (_ | k) l₂ hr
  · obtain ⟨tx', hc, -⟩ := hr
    exact ends_pure ⟨_, hc⟩
  · exact ends_pure ⟨hr.2.1, hr.2.2.1, hr.2.2.2⟩

theorem Moved.refill {l l₁ : Link} {tx rx : List Octet} (h : Moved l l₁ tx rx)
    {F : List Octet → Prop} (hF : F tx) :
    Ends refill l₁ (fun _ l₂ => ∃ rx', Moved l l₂ tx (rx ++ rx')) (Suspended l F) := by
  unfold Http.refill
  refine ends_bind (ends_get ?_)
  refine ends_ite (fun _ => ?_) (fun _ => ?_)
  · refine (h.read hF).bind ?_
    rintro r l₂ ⟨rx', hm, -⟩
    exact ends_pure ⟨rx', hm⟩
  · exact ends_pure ⟨[], by rwa [List.append_nil]⟩

/-- The `size_t` sum does not wrap while it stays below `2^64`. -/
theorem toNat_add_ofNat {a : UInt64} {k : ℕ} (h : a.toNat + k < 2 ^ 64) :
    (a + UInt64.ofNat k).toNat = a.toNat + k := by
  rw [UInt64.toNat_add, UInt64.toNat_ofNat', Nat.mod_eq_of_lt (a := k) (by omega),
    Nat.mod_eq_of_lt h]

/-- The head of an iteration of `ForwardExactly`: `bytesSent` octets were moved, at most
`contentLength`. -/
def Counted (contentLength : UInt64) (l : Link) (bytesSent : UInt64) (l' : Link) : Prop :=
  ∃ tx rx, Moved l l' tx rx ∧ tx.length = bytesSent.toNat ∧
    bytesSent.toNat ≤ contentLength.toNat

/-- One iteration of `ForwardExactly`: the remaining count does not wrap. -/
theorem forwardExactlyStep_ends {contentLength bytesSent : UInt64} {l l₁ : Link}
    (h : Counted contentLength l bytesSent l₁) :
    Ends (forwardExactlyStep contentLength bytesSent) l₁
      (fun r t => Sum.elim (fun b => Counted contentLength l b t)
        (fun ok => Forwarded l (fun tx _ => tx.length = contentLength.toNat)
          (fun tx => tx.length ≤ contentLength.toNat) ok t) r)
      (Suspended l fun tx => tx.length ≤ contentLength.toNat) := by
  obtain ⟨tx, rx, hm, hlen, hle⟩ := h
  have hF : tx.length ≤ contentLength.toNat := by omega
  refine ends_ite (fun hlt => ?_) (fun hge => ?_)
  · refine (hm.refill hF).bind ?_
    rintro (_ | _) l₂ ⟨rx', hm₂⟩
    · exact ends_leave (Forwarded.failed hm₂.cut hF)
    · have hrem : (contentLength - bytesSent).toNat = contentLength.toNat - bytesSent.toNat :=
        UInt64.toNat_sub_of_le _ _ (UInt64.le_of_lt hlt)
      refine ends_bind (ends_get ?_)
      refine (hm₂.write _ _).bind ?_
      rintro (_ | k) l₃ hr
      · obtain ⟨tx', hc, hpre⟩ := hr
        refine ends_leave (Forwarded.failed hc ?_)
        have hlen' := hpre.length_le
        rw [List.length_take] at hlen'
        rw [List.length_append]
        omega
      · obtain ⟨rfl, -, -, hm₃⟩ := hr
        have hbound := contentLength.toNat_lt
        have hsum : (bytesSent + UInt64.ofNat (min (contentLength - bytesSent).toNat
            l₂.readBuffer.length)).toNat
            = bytesSent.toNat + min (contentLength - bytesSent).toNat l₂.readBuffer.length :=
          toNat_add_ofNat (by omega)
        refine ends_continue ⟨_, _, hm₃, ?_, ?_⟩
        · rw [List.length_append, List.length_take, hsum, hlen]
          omega
        · rw [hsum]
          omega
  · have hge' : contentLength.toNat ≤ bytesSent.toNat :=
      UInt64.le_iff_toNat_le.mp (UInt64.not_lt.mp hge)
    exact ends_leave (Forwarded.done hm (by omega))

theorem counted_start (contentLength : UInt64) (l : Link) : Counted contentLength l 0 l :=
  ⟨[], [], Moved.refl l, rfl, Nat.zero_le _⟩

/-- **`ForwardExactly`.**  Never more than `contentLength` octets go to the target, and on `true`
exactly that many. -/
theorem forwardExactly_ends (fuel : ℕ) (contentLength : UInt64) (l : Link) :
    Ends (forwardExactly fuel contentLength) l
      (Forwarded l (fun tx _ => tx.length = contentLength.toNat)
        fun tx => tx.length ≤ contentLength.toNat)
      (Suspended l fun tx => tx.length ≤ contentLength.toNat) := by
  refine ends_whileLoop (Counted contentLength l) (fun _ _ h => forwardExactlyStep_ends h) ?_ fuel
    0 l (counted_start contentLength l)
  rintro bytesSent l₁ ⟨tx, rx, hm, hlen, hle⟩
  exact hm.suspended (by omega) (Or.inr rfl)

/-- **`ForwardUntilEof`.**  On `true` the read buffer is empty: all that was buffered and all that
the source delivered went to the target. -/
theorem forwardUntilEof_ends (fuel : ℕ) (l : Link) : Ends (forwardUntilEof fuel) l
    (Forwarded l (fun _ l' => l'.readBuffer = []) fun _ => True) (Suspended l fun _ => True) := by
  have hloop : ∀ l₁ tx rx, Moved l l₁ tx rx → l₁.readBuffer = [] →
      Ends (whileLoop .outOfFuel forwardUntilEofStep fuel ()) l₁
        (Forwarded l (fun _ l' => l'.readBuffer = []) fun _ => True)
        (Suspended l fun _ => True) := by
    intro l₁ tx rx hm hbuf
    -- at the loop head the buffer is empty, so the bytes just read are all it holds
    refine ends_whileLoop (fun (_ : Unit) l' => l'.readBuffer = [] ∧ ∃ tx rx, Moved l l' tx rx)
      ?_ ?_ fuel () l₁ ⟨hbuf, tx, rx, hm⟩
    · rintro - l₂ ⟨hbuf₂, tx, rx, hm₂⟩
      refine (hm₂.read trivial).bind ?_
      rintro (_ | res) l₃ ⟨rx', hm₃, hbuf₃, hres⟩
      · exact ends_leave (Forwarded.failed hm₃.cut trivial)
      · have hn : res.bytesRead = rx'.length := (hres res rfl).1
        rw [hbuf₂, List.nil_append] at hbuf₃
        have hcont : ∀ l₄ tx', l₄.readBuffer = [] → Moved l l₄ tx' (rx ++ rx') →
            Ends (if res.eof = true then pure (Sum.inr true) else pure (Sum.inl ()) :
              EStateM Stop Link (Unit ⊕ Bool)) l₄
              (fun r t => Sum.elim (fun _ => t.readBuffer = [] ∧ ∃ tx rx, Moved l t tx rx)
                (fun a => Forwarded l (fun _ l' => l'.readBuffer = []) (fun _ => True) a t) r)
              (Suspended l fun _ => True) := by
          intro l₄ tx' hbuf₄ hm₄
          refine ends_ite (fun _ => ?_) (fun _ => ?_)
          · exact ends_leave (Forwarded.done hm₄ hbuf₄)
          · exact ends_continue ⟨hbuf₄, _, _, hm₄⟩
        by_cases hpos : res.bytesRead > 0
        · simp only [if_pos hpos]
          refine (hm₃.writeAll res.bytesRead _).bind ?_
          rintro (_ | _) l₄ hr
          · obtain ⟨tx', hc⟩ := hr
            exact ends_leave (Forwarded.failed hc trivial)
          · obtain ⟨-, hbuf₄, hm₄⟩ := hr
            refine hcont l₄ _ ?_ hm₄
            rw [hbuf₄, hbuf₃, hn, List.drop_length]
        · simp only [if_neg hpos]
          have hnil : rx' = [] := List.length_eq_zero_iff.mp (by omega)
          exact hcont l₃ tx (by rw [hbuf₃, hnil]) hm₃
    · rintro - l₂ ⟨-, tx, rx, hm₂⟩
      exact hm₂.suspended trivial (Or.inr rfl)
  refine ends_bind (ends_get ?_)
  by_cases hpos : l.readBuffer.length > 0
  · simp only [if_pos hpos]
    refine ((Moved.refl l).writeAll _ _).bind ?_
    rintro (_ | _) l₁ hr
    · obtain ⟨tx', hc⟩ := hr
      exact ends_pure (Forwarded.failed hc trivial)
    · obtain ⟨-, hbuf₁, hm₁⟩ := hr
      exact hloop l₁ _ _ hm₁ (by rw [hbuf₁, List.drop_length])
  · simp only [if_neg hpos]
    exact hloop l _ _ (Moved.refl l) (List.length_eq_zero_iff.mp (by omega))

end ProxyPP.Http
