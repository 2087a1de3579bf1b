import ProxyPP.Http.Chunked

/-!
# ProxyPP.Http.Conservation — the moments of a forwarding run

`ForwardExactly`, `ForwardChunked` and `ForwardUntilEof` have one shape: a prologue, and a loop
whose iterations begin with at most one read and go on with at most one write (`Forwarder`).  The
moments of a run are the links between two operations: those it passes (`Forwarder.Passes`) and the
one it ends in (`Forwarder.EndsIn`).

At every moment but the one behind a failed write, what the target accepted and what is buffered is
what was buffered at first and what was read (`Conserved`).  A failed write is the last operation of
its run, so even then the target has a prefix of what there was (`forwarding_conserves`).
-/

namespace ProxyPP.Http

open ProxyPP ProxyPP.Lib ProxyPP.Http.Details

/-! ## Forwarding functions -/

/-- A forwarding function: `prologue` in front of the loop, `body` an iteration of it, and `first`
the part of the iteration up to its write. -/
structure Forwarder where
  Var : Type
  prologue : EStateM Stop Link Bool
  start : Var
  first : Var → EStateM Stop Link Unit
  body : Var → EStateM Stop Link (Var ⊕ Bool)

def Forwarder.run (f : Forwarder) (fuel : ℕ) : EStateM Stop Link Bool := do
  if ← f.prologue then whileLoop .outOfFuel f.body fuel f.start else pure false

/-- `ForwardExactly` -/
def Forwarder.exactly (contentLength : UInt64) : Forwarder where
  Var := UInt64
  prologue := pure true
  start := 0
  first bytesSent := if bytesSent < contentLength then discard refill else pure ()
  body := forwardExactlyStep contentLength

/-- `ForwardChunked`: an iteration is one operation at most. -/
def Forwarder.chunked : Forwarder where
  Var := ChunkedVars
  prologue := pure true
  start := ⟨.readChunkSizeLine, 0, 0, 0⟩
  first _ := pure ()
  body := forwardChunkedStep

/-- What `ForwardUntilEof` does in front of its loop. -/
def drain : EStateM Stop Link Bool := do
  let l ← get
  if l.readBuffer.length > 0 then writeAll l.readBuffer.length else pure true

/-- `ForwardUntilEof` -/
def Forwarder.untilEof : Forwarder where
  Var := Unit
  prologue := drain
  start := ()
  first _ := discard readSomeFromPeer
  body := forwardUntilEofStep

theorem exactly_run (contentLength : UInt64) (fuel : ℕ) :
    (Forwarder.exactly contentLength).run fuel = forwardExactly fuel contentLength := rfl

theorem chunked_run (fuel : ℕ) : Forwarder.chunked.run fuel = forwardChunked fuel := rfl

theorem untilEof_run (fuel : ℕ) : Forwarder.untilEof.run fuel = forwardUntilEof fuel := by
  funext l
  show (drain >>= fun drained => if drained then
    whileLoop .outOfFuel forwardUntilEofStep fuel () else pure false) l = _
  rw [forwardUntilEof, bind_ok (get_run l), bind_run, drain, bind_ok (get_run l)]
  by_cases hpos : l.readBuffer.length > 0
  · rw [if_pos hpos, if_pos hpos]
    rfl
  · rw [if_neg hpos, if_neg hpos]
    rfl

/-! ## Moments -/

namespace Forwarder

variable (f : Forwarder) (l : Link)

/-- The links a run passes: where it starts, the heads of its iterations, and the moments in them
behind the read. -/
inductive Passes : Link → Prop
  | start : Passes l
  | head {l₁ s : Link} {v : f.Var} : f.prologue l = .ok true l₁ → Reaches f.body f.start l₁ v s →
      Passes s
  | inside {l₁ s t : Link} {v : f.Var} : f.prologue l = .ok true l₁ →
      Reaches f.body f.start l₁ v s → f.first v s = .ok () t → Passes t

/-- The links a run ends in, with what it returns there, if it returns. -/
inductive EndsIn : Option Bool → Link → Prop
  | refused {t : Link} : f.prologue l = .ok false t → EndsIn (some false) t
  | left {l₁ s t : Link} {v : f.Var} {ok : Bool} : f.prologue l = .ok true l₁ →
      Reaches f.body f.start l₁ v s → f.body v s = .ok (.inr ok) t → EndsIn (some ok) t
  | suspended {l₁ s t : Link} {v : f.Var} {e : Stop} : f.prologue l = .ok true l₁ →
      Reaches f.body f.start l₁ v s → f.body v s = .error e t → EndsIn none t

end Forwarder

/-- What the target accepted, followed by what is buffered, is what was buffered followed by what
was read. -/
def Conserved (l t : Link) : Prop :=
  ∃ accepted read : Bytes, text t.targetPeer.sentOctets = text l.targetPeer.sentOctets ++ accepted ∧
    l.fromPeer.stream = read ++ t.fromPeer.stream ∧
    accepted ++ text t.readBuffer = text l.readBuffer ++ read

/-- What the target accepted is a prefix of what was buffered followed by what the source sends. -/
def SentPrefix (l t : Link) : Prop :=
  ∃ accepted : Bytes, text t.targetPeer.sentOctets = text l.targetPeer.sentOctets ++ accepted ∧
    accepted <+: text l.readBuffer ++ l.fromPeer.stream

/-- A run of `f` from `l` conserves the bytes at every moment, up to a failed write that ends it. -/
structure Forwarder.Conserves (f : Forwarder) (l : Link) : Prop where
  moments : ∀ fuel, Ends (f.run fuel) l (fun ok t => f.EndsIn l (some ok) t)
    fun _ t => f.EndsIn l none t ∨ f.Passes l t
  passes : ∀ t, f.Passes l t → Conserved l t
  ends : ∀ r t, f.EndsIn l r t → Conserved l t ∨
    r = some false ∧ ∃ u n, f.Passes l u ∧ writeToPeer n u = .ok none t
  sent : ∀ t, (f.Passes l t ∨ ∃ r, f.EndsIn l r t) → SentPrefix l t

/-! ### One iteration -/

/-- From `l` to `t` the buffer accounts for every octet. -/
def MovedOn (l t : Link) : Prop := ∃ tx rx, Moved l t tx rx

theorem MovedOn.refl (l : Link) : MovedOn l l := ⟨[], [], Moved.refl l⟩

theorem MovedOn.trans {l s t : Link} (h : MovedOn l s) (h' : MovedOn s t) : MovedOn l t := by
  obtain ⟨tx, rx, hm⟩ := h
  obtain ⟨tx', rx', hm'⟩ := h'
  exact ⟨_, _, hm.trans hm'⟩

theorem MovedOn.conserved {l t : Link} (h : MovedOn l t) : Conserved l t := by
  obtain ⟨tx, rx, hm⟩ := h
  refine ⟨text tx, text rx, ?_, hm.stream, ?_⟩
  · rw [hm.sentOctets, text_append]
  · rw [← text_append, hm.buffer, text_append]

theorem Cut.sentPrefix {l t : Link} {tx rx : List Octet} (h : Cut l t tx rx) : SentPrefix l t := by
  refine ⟨text tx, ?_, h.ahead⟩
  rw [h.sentOctets, text_append]

theorem MovedOn.sentPrefix {l t : Link} (h : MovedOn l t) : SentPrefix l t := by
  obtain ⟨tx, rx, hm⟩ := h
  exact hm.cut.sentPrefix

theorem MovedOn.failed_write {l u t : Link} {n : ℕ} (h : MovedOn l u)
    (hw : writeToPeer n u = .ok none t) : SentPrefix l t := by
  obtain ⟨tx, rx, hm⟩ := h
  obtain ⟨tx', hc, -⟩ := (writeToPeer_ends u n fun _ _ => True).ok hw
  exact (hm.trans_cut hc).sentPrefix

theorem readSomeFromPeer_movedOn (l : Link) :
    Ends readSomeFromPeer l (fun _ t => MovedOn l t) fun _ t => MovedOn l t := by
  refine (readSomeFromPeer_ends l).mono ?_ ?_
  · rintro r t ⟨rx, hm, -⟩
    exact ⟨[], rx, hm⟩
  · rintro e t ⟨-, rfl⟩
    exact MovedOn.refl _

theorem refill_movedOn (l : Link) :
    Ends refill l (fun _ t => MovedOn l t) fun _ t => MovedOn l t := by
  refine ends_bind (ends_get (ends_ite (fun _ => ?_) fun _ => ?_))
  · refine (readSomeFromPeer_movedOn l).bind ?_
    exact fun r t h => ends_pure h
  · exact ends_pure (MovedOn.refl l)

/-- A write goes through, or it fails. -/
theorem writeToPeer_movedOn (l : Link) (n : ℕ) (E : Stop → Link → Prop) : Ends (writeToPeer n) l
    (fun r t => match r with
      | some _ => MovedOn l t
      | none => writeToPeer n l = .ok none t) E := by
  unfold Ends
  cases hr : writeToPeer n l with
  | ok r t =>
    have hspec := (writeToPeer_ends l n fun _ _ => True).ok hr
    cases r with
    | none => rfl
    | some k => exact ⟨_, _, hspec.2.2.2⟩
  | error e t =>
    exact ((writeToPeer_ends l n fun _ _ => False).error hr).elim

/-- An iteration of `f`: a read at most, and then a write at most, which it does not survive if it
fails. -/
def Forwarder.OneWrite (f : Forwarder) (v : f.Var) (s : Link) (r : f.Var ⊕ Bool) (t : Link) :
    Prop :=
  MovedOn s t ∨ r = .inr false ∧
    ∃ u n, (u = s ∨ f.first v s = .ok () u) ∧ writeToPeer n u = .ok none t

/-- The parts of a forwarding function do what they should. -/
structure Forwarder.Lawful (f : Forwarder) : Prop where
  prologue : ∀ l, Ends f.prologue l
    (fun ok t => MovedOn l t ∨ ok = false ∧ ∃ n, writeToPeer n l = .ok none t) fun _ _ => False
  first : ∀ v s, Ends (f.first v) s (fun _ t => MovedOn s t) fun _ _ => True
  body : ∀ v s, Ends (f.body v) s (f.OneWrite v s) fun _ t => MovedOn s t

section Lawful

variable {f : Forwarder} {l : Link}

theorem Forwarder.Lawful.loop (h : f.Lawful) {l₁ : Link} (hpro : f.prologue l = .ok true l₁) :
    MovedOn l l₁ := by
  rcases (h.prologue l).ok hpro with hm | ⟨hf, -⟩
  · exact hm
  · cases hf

theorem Forwarder.Lawful.head (h : f.Lawful) {l₁ s : Link} {v : f.Var}
    (hpro : f.prologue l = .ok true l₁) (hs : Reaches f.body f.start l₁ v s) : MovedOn l s := by
  refine hs.invariant (fun _ s => MovedOn l s) ?_ (h.loop hpro)
  intro v s v' t hm hr
  rcases (h.body v s).ok hr with hm' | ⟨hr', -⟩
  · exact hm.trans hm'
  · cases hr'

theorem Forwarder.Lawful.passes (h : f.Lawful) {t : Link} (ht : f.Passes l t) : MovedOn l t := by
  cases ht with
  | start => exact MovedOn.refl l
  | head hpro hs => exact h.head hpro hs
  | inside hpro hs hr => exact (h.head hpro hs).trans ((h.first _ _).ok hr)

theorem Forwarder.Lawful.ends (h : f.Lawful) {r : Option Bool} {t : Link} (ht : f.EndsIn l r t) :
    MovedOn l t ∨ r = some false ∧ ∃ u n, f.Passes l u ∧ writeToPeer n u = .ok none t := by
  cases ht with
  | refused hpro =>
    rcases (h.prologue l).ok hpro with hm | ⟨-, n, hw⟩
    · exact Or.inl hm
    · exact Or.inr ⟨rfl, l, n, .start, hw⟩
  | left hpro hs hr =>
    rcases (h.body _ _).ok hr with hm | ⟨hf, u, n, rfl | hu, hw⟩
    · exact Or.inl ((h.head hpro hs).trans hm)
    · cases hf
      exact Or.inr ⟨rfl, u, n, .head hpro hs, hw⟩
    · cases hf
      exact Or.inr ⟨rfl, u, n, .inside hpro hs hu, hw⟩
  | suspended hpro hs hr => exact Or.inl ((h.head hpro hs).trans ((h.body _ _).error hr))

theorem Forwarder.Lawful.run (h : f.Lawful) (fuel : ℕ) : Ends (f.run fuel) l
    (fun ok t => f.EndsIn l (some ok) t) fun _ t => f.EndsIn l none t ∨ f.Passes l t := by
  unfold Forwarder.run
  cases hpro : f.prologue l with
  | error e t => exact ((h.prologue l).error hpro).elim
  | ok going l₁ =>
    refine ends_bind (Ends.of_ok hpro ?_)
    cases going with
    | false => exact ends_pure (.refused hpro)
    | true =>
      refine (whileLoop_reaches fuel f.start l₁).mono ?_ ?_
      · rintro ok t ⟨v, s, hs, hr⟩
        exact .left hpro hs hr
      · rintro e t ⟨v, s, hs, hr | ⟨-, rfl⟩⟩
        · exact Or.inl (.suspended hpro hs hr)
        · exact Or.inr (.head hpro hs)

/-- **Conservation**, for any forwarding function of this shape. -/
theorem Forwarder.Lawful.conserves (h : f.Lawful) (l : Link) : f.Conserves l where
  moments := h.run
  passes _ ht := (h.passes ht).conserved
  ends _ _ ht := (h.ends ht).imp_left MovedOn.conserved
  sent := by
    rintro t (ht | ⟨r, ht⟩)
    · exact (h.passes ht).sentPrefix
    · rcases h.ends ht with hm | ⟨-, u, n, hu, hw⟩
      · exact hm.sentPrefix
      · exact (h.passes hu).failed_write hw

end Lawful

/-! ### The three functions -/

theorem exactly_first (contentLength bytesSent : UInt64) (s : Link) :
    Ends ((Forwarder.exactly contentLength).first bytesSent) s (fun _ t => MovedOn s t)
      fun _ _ => True := by
  refine ends_ite (c := bytesSent < contentLength) (fun _ => ?_) fun _ => ends_pure (MovedOn.refl s)
  exact ((refill_movedOn s).mono (fun _ _ h => h) fun _ _ _ => trivial).bind
    fun _ t h => ends_pure h

theorem exactly_body (contentLength bytesSent : UInt64) (s : Link) :
    Ends (forwardExactlyStep contentLength bytesSent) s
      ((Forwarder.exactly contentLength).OneWrite bytesSent s) fun _ t => MovedOn s t := by
  refine ends_ite (fun hlt => ?_) fun _ => ends_pure (Or.inl (MovedOn.refl s))
  refine (refill_movedOn s).bind_run ?_
  intro filled u hr hm
  cases filled with
  | false => exact ends_pure (Or.inl hm)
  | true =>
    refine ends_bind (ends_get ?_)
    refine (writeToPeer_movedOn u _ _).bind ?_
    rintro (_ | k) t hw
    · refine ends_pure (Or.inr ⟨rfl, u, _, Or.inr ?_, hw⟩)
      show (if bytesSent < contentLength then discard refill else pure ()) s = _
      rw [if_pos hlt]
      exact bind_ok hr
    · exact ends_pure (Or.inl (hm.trans hw))

theorem exactly_lawful (contentLength : UInt64) : (Forwarder.exactly contentLength).Lawful where
  prologue l := ends_pure (Or.inl (MovedOn.refl l))
  first bytesSent s := exactly_first contentLength bytesSent s
  body bytesSent s := exactly_body contentLength bytesSent s

section Chunked

variable {v : ChunkedVars} {s : Link}

/-- An iteration that reads. -/
theorem chunked_read {m : Option ReadSomeResult → EStateM Stop Link (ChunkedVars ⊕ Bool)}
    (hm : ∀ r, ∃ w, m r = pure w) : Ends (readSomeFromPeer >>= m) s
      (Forwarder.chunked.OneWrite v s) fun _ t => MovedOn s t := by
  refine (readSomeFromPeer_movedOn s).bind ?_
  intro r t h
  obtain ⟨w, hw⟩ := hm r
  rw [hw]
  exact ends_pure (Or.inl h)

/-- An iteration that writes. -/
theorem chunked_write {n : ℕ} {m : Option ℕ → EStateM Stop Link (ChunkedVars ⊕ Bool)}
    (hnone : m none = pure (.inr false)) (hsome : ∀ k, ∃ w, m (some k) = pure w) :
    Ends (writeToPeer n >>= m) s (Forwarder.chunked.OneWrite v s) fun _ t => MovedOn s t := by
  refine (writeToPeer_movedOn s n _).bind ?_
  rintro (_ | k) t hw
  · rw [hnone]
    exact ends_pure (Or.inr ⟨rfl, s, n, Or.inl rfl, hw⟩)
  · obtain ⟨w, hk⟩ := hsome k
    rw [hk]
    exact ends_pure (Or.inl hw)

end Chunked

theorem chunked_lawful : Forwarder.chunked.Lawful where
  prologue l := ends_pure (Or.inl (MovedOn.refl l))
  first v s := ends_pure (MovedOn.refl s)
  body v s := by
    rcases v with ⟨state, len, size, rem⟩
    cases state with
    | readChunkSizeLine =>
      refine ends_bind (ends_get ?_)
      cases findCrlf (text s.readBuffer) with
      | some k => exact ends_pure (Or.inl (MovedOn.refl s))
      | none =>
        refine chunked_read ?_
        rintro (_ | res)
        · exact ⟨_, rfl⟩
        · by_cases h0 : res.bytesRead = 0
          · exact ⟨_, if_pos h0⟩
          · exact ⟨_, if_neg h0⟩
    | parseChunkSizeLine =>
      refine ends_bind (ends_get ?_)
      dsimp only
      cases parseChunkSizeLine (bufferPrefixToString (text s.readBuffer) len) with
      | some n => exact ends_pure (Or.inl (MovedOn.refl s))
      | none => exact ends_pure (Or.inl (MovedOn.refl s))
    | forwardChunkSizeLine =>
      refine chunked_write rfl fun k => ?_
      by_cases h0 : size = 0
      · exact ⟨_, if_pos h0⟩
      by_cases hmax : size > sizeMax - 2
      · exact ⟨.inr false, by simp only [if_neg h0, if_pos hmax]⟩
      · exact ⟨.inl _, by simp only [if_neg h0, if_neg hmax]; rfl⟩
    | forwardChunkDataWithCrlf =>
      refine ends_bind (ends_get (ends_ite (fun _ => ?_) fun _ => ?_))
      · refine chunked_read ?_
        rintro (_ | res)
        · exact ⟨_, rfl⟩
        · exact ⟨_, rfl⟩
      · exact chunked_write rfl fun k => ⟨_, rfl⟩
    | forwardTrailers =>
      refine ends_bind (ends_get ?_)
      cases findCrlf (text s.readBuffer) with
      | none =>
        refine chunked_read ?_
        rintro (_ | res)
        · exact ⟨_, rfl⟩
        · exact ⟨_, rfl⟩
      | some k => exact chunked_write rfl fun n => ⟨_, rfl⟩
    | completed => exact ends_pure (Or.inl (MovedOn.refl s))

theorem writeAll_movedOn (l : Link) (n : ℕ) (E : Stop → Link → Prop) : Ends (writeAll n) l
    (fun ok t => if ok then MovedOn l t else writeToPeer n l = .ok none t) E := by
  refine (writeToPeer_movedOn l n E).bind ?_
  rintro (_ | k) t h
  · exact ends_pure h
  · exact ends_pure h

theorem untilEof_lawful : Forwarder.untilEof.Lawful where
  prologue l := by
    refine ends_bind (ends_get (ends_ite (fun _ => ?_) fun _ => ?_))
    · refine (writeAll_movedOn l _ _).mono ?_ fun _ _ h => h
      rintro (_ | _) t h
      · exact Or.inr ⟨rfl, _, h⟩
      · exact Or.inl h
    · exact ends_pure (Or.inl (MovedOn.refl l))
  first _ s := ((readSomeFromPeer_movedOn s).mono (fun _ _ h => h) fun _ _ _ => trivial).bind
    fun _ t h => ends_pure h
  body v s := by
    refine (readSomeFromPeer_movedOn s).bind_run ?_
    rintro (_ | res) u hr hm
    · exact ends_pure (Or.inl hm)
    have hend : ∀ t, MovedOn s t → Ends (if res.eof = true then pure (Sum.inr true)
        else pure (Sum.inl ()) : EStateM Stop Link (Unit ⊕ Bool)) t
        (Forwarder.untilEof.OneWrite v s) fun _ t => MovedOn s t := fun t ht =>
      ends_ite (fun _ => ends_pure (Or.inl ht)) fun _ => ends_pure (Or.inl ht)
    by_cases hpos : res.bytesRead > 0
    · simp only [if_pos hpos]
      refine (writeAll_movedOn u _ _).bind ?_
      rintro (_ | _) t h
      · exact ends_pure (Or.inr ⟨rfl, u, _, Or.inr (bind_ok hr), h⟩)
      · exact hend t (hm.trans h)
    · simp only [if_neg hpos]
      exact hend u hm

/-! ### Up to the end of the source -/

/-- The bytes that a script of read outcomes delivers up to its first EOF. -/
def upToEof : List ReadOutcome → Bytes
  | [] => []
  | r :: rest => if r.ec = some .eof then r.bytes else r.delivered ++ upToEof rest

/-- What a read that has a result takes off the bytes up to the EOF: all of them at EOF. -/
theorem readSomeFromPeer_upToEof (l : Link) : Ends readSomeFromPeer l
    (fun r t => ∀ res ∈ r, ∃ bytes : Bytes, res.bytesRead = bytes.length ∧
      t.readBuffer = l.readBuffer ++ received l.fromPeer.connection bytes ∧
      t.targetPeer = l.targetPeer ∧ upToEof l.fromPeer.incoming
        = bytes ++ if res.eof then [] else upToEof t.fromPeer.incoming)
    fun _ _ => True := by
  by_cases hnil : l.fromPeer.isOpen = true → l.fromPeer.incoming = []
  · have hr := readSomeFromPeer_nil hnil
    split_ifs at hr with hopen heof
    · refine Ends.of_ok hr ?_
      rintro res ⟨⟩
      refine ⟨[], rfl, (List.append_nil _).symm, rfl, ?_⟩
      rw [hnil hopen]
      rfl
    · exact Ends.of_error hr trivial
    · exact Ends.of_ok hr (by simp)
  · obtain ⟨hopen, hne⟩ := Classical.not_imp.mp hnil
    obtain ⟨r, rest, hin⟩ := List.exists_cons_of_ne_nil hne
    have hr := readSomeFromPeer_cons hopen hin
    rw [hin]
    rcases hec : r.ec with _ | _ | _ | _
    · rw [hec] at hr
      by_cases hb : r.bytes.length = 0
      · simp only [if_pos hb] at hr
        exact Ends.of_ok hr (by simp)
      · simp only [if_neg hb] at hr
        refine Ends.of_ok hr ?_
        rintro res ⟨⟩
        refine ⟨r.bytes, rfl, rfl, rfl, ?_⟩
        have hd : r.delivered = r.bytes := if_neg (by simp [hec])
        rw [upToEof, if_neg (by simp [hec]), hd]
        rfl
    · rw [hec] at hr
      refine Ends.of_ok hr ?_
      rintro res ⟨⟩
      refine ⟨r.bytes, rfl, rfl, rfl, ?_⟩
      rw [upToEof, if_pos hec]
      exact (List.append_nil _).symm
    · rw [hec] at hr
      exact Ends.of_ok hr (by simp)
    · rw [hec] at hr
      exact Ends.of_ok hr (by simp)

/-- The head of an iteration of `ForwardUntilEof`: the buffer is empty, and what the target accepted
is followed in the stream by what comes up to the EOF. -/
def Drained (l t : Link) : Prop :=
  t.readBuffer = [] ∧ text t.targetPeer.sentOctets ++ upToEof t.fromPeer.incoming
    = text l.targetPeer.sentOctets ++ text l.readBuffer ++ upToEof l.fromPeer.incoming

/-- All of the buffer and of the source up to its EOF is with the target. -/
def SentToEof (l t : Link) : Prop := text t.targetPeer.sentOctets
  = text l.targetPeer.sentOctets ++ text l.readBuffer ++ upToEof l.fromPeer.incoming

/-- No more than that is with the target. -/
def SentWithinEof (l t : Link) : Prop := text t.targetPeer.sentOctets
  <+: text l.targetPeer.sentOctets ++ text l.readBuffer ++ upToEof l.fromPeer.incoming

theorem SentToEof.within {l t : Link} (h : SentToEof l t) : SentWithinEof l t := by
  unfold SentWithinEof
  rw [h]

theorem Drained.within {l t : Link} (h : Drained l t) : SentWithinEof l t := ⟨_, h.2⟩

theorem writeToPeer_fromPeer (l : Link) (n : ℕ) (E : Stop → Link → Prop) :
    Ends (writeToPeer n) l (fun _ t => t.fromPeer = l.fromPeer) E := by
  refine ends_bind (ends_get (ends_bind (ends_zoom ?_)))
  refine (asyncWrite_ends (l.readBuffer.take n) l.targetPeer _).mono ?_ fun _ _ h => h
  rintro ⟨failed, k⟩ s -
  refine ends_ite (fun _ => ends_pure rfl) fun _ => ?_
  exact ends_ite (fun _ => ends_pure rfl) fun _ => ends_bind (ends_modify (ends_pure rfl))

/-- A write of the whole buffer. -/
theorem writeAll_buffer {l t : Link} (h : writeAll l.readBuffer.length l = .ok true t) :
    t.readBuffer = [] ∧ t.fromPeer = l.fromPeer ∧
      text t.targetPeer.sentOctets = text l.targetPeer.sentOctets ++ text l.readBuffer := by
  obtain ⟨r, u, hr, h⟩ := bind_eq_ok.mp h
  rcases r with _ | k
  · cases h
  · cases h
    obtain ⟨-, -, hbuf, hm⟩ := (writeToPeer_ends l _ fun _ _ => True).ok hr
    rw [List.take_length] at hm
    rw [List.drop_length] at hbuf
    refine ⟨hbuf, (writeToPeer_fromPeer l _ fun _ _ => True).ok hr, ?_⟩
    rw [hm.sentOctets, text_append]

/-- However a write ends, no more than the buffer was written. -/
theorem writeAll_within (l : Link) (n : ℕ) (E : Stop → Link → Prop) : Ends (writeAll n) l
    (fun _ t => text t.targetPeer.sentOctets
      <+: text l.targetPeer.sentOctets ++ text l.readBuffer) E := by
  have hfront : ∀ {t : Link} {tx rx}, Transfer l t tx rx → tx <+: l.readBuffer →
      text t.targetPeer.sentOctets <+: text l.targetPeer.sentOctets ++ text l.readBuffer := by
    intro t tx rx h htx
    rw [h.sentOctets, text_append, List.prefix_append_right_inj]
    exact htx.map Octet.val
  refine (writeToPeer_ends l n E).bind ?_
  rintro (_ | k) t h
  · obtain ⟨tx, hc, htx⟩ := h
    exact ends_pure (hfront hc.toTransfer (htx.trans (List.take_prefix _ _)))
  · obtain ⟨-, -, -, hm⟩ := h
    exact ends_pure (hfront hm.toTransfer (List.take_prefix _ _))

/-- What `ForwardUntilEof` has sent to the target when it returns. -/
def ToEof (l : Link) (ok : Bool) (t : Link) : Prop :=
  (ok = true → SentToEof l t) ∧ SentWithinEof l t

theorem SentToEof.toEof {l t : Link} (h : SentToEof l t) (ok : Bool) : ToEof l ok t :=
  ⟨fun _ => h, h.within⟩

theorem SentWithinEof.toEof {l t : Link} (h : SentWithinEof l t) : ToEof l false t :=
  ⟨by simp, h⟩

theorem forwardUntilEofStep_drained {l s : Link} (h : Drained l s) :
    Ends (forwardUntilEofStep ()) s
      (fun r t => Sum.elim (fun _ => Drained l t) (fun ok => ToEof l ok t) r)
      fun _ t => SentWithinEof l t := by
  have hstart := h.within
  obtain ⟨hbuf, hsent⟩ := h
  have hread := (readSomeFromPeer_upToEof s).and (readSomeFromPeer_ends s)
  refine (hread.mono (fun _ _ h => h) ?_).bind ?_
  · rintro e t ⟨-, -, rfl⟩
    exact hstart
  rintro (_ | res) u ⟨hu, rx, hm, -⟩
  · refine ends_leave (I := fun _ t => Drained l t) (SentWithinEof.toEof ?_)
    unfold SentWithinEof
    rw [hm.sentOctets, List.append_nil]
    exact hstart
  obtain ⟨bytes, hn, hbuf', htgt, hup⟩ := hu res rfl
  rw [hbuf, List.nil_append] at hbuf'
  have hlen : res.bytesRead = u.readBuffer.length := by
    rw [hbuf', hn, ← length_text, text_received]
  have hbytes : text u.readBuffer = bytes := by rw [hbuf', text_received]
  rw [hup, ← List.append_assoc, ← htgt, ← hbytes] at hsent
  -- behind the write
  have hend : ∀ t, t.readBuffer = [] → t.fromPeer = u.fromPeer →
      text t.targetPeer.sentOctets = text u.targetPeer.sentOctets ++ text u.readBuffer →
      Ends (if res.eof = true then pure (Sum.inr true)
        else pure (Sum.inl ()) : EStateM Stop Link (Unit ⊕ Bool)) t
        (fun r t => Sum.elim (fun _ => Drained l t) (fun ok => ToEof l ok t) r)
        fun _ t => SentWithinEof l t := by
    intro t hnil hfrom ht
    rw [← ht] at hsent
    refine ends_ite (fun heof => ?_) fun hmore => ?_
    · rw [if_pos heof, List.append_nil] at hsent
      exact ends_leave (I := fun _ t => Drained l t) (SentToEof.toEof hsent true)
    · rw [if_neg hmore, ← hfrom] at hsent
      exact ends_continue ⟨hnil, hsent⟩
  by_cases hpos : res.bytesRead > 0
  · simp only [if_pos hpos]
    rw [hlen]
    refine ((writeAll_within u _ _).mono (fun _ _ h => h) fun _ _ h => h).bind_run ?_
    rintro (_ | _) t hr hwithin
    · refine ends_leave (I := fun _ t => Drained l t) (SentWithinEof.toEof ?_)
      exact hwithin.trans ⟨_, hsent⟩
    · obtain ⟨hnil, hfrom, ht⟩ := writeAll_buffer hr
      exact hend t hnil hfrom ht
  · simp only [if_neg hpos]
    have hnil : u.readBuffer = [] := List.length_eq_zero_iff.mp (by omega)
    refine hend u hnil rfl ?_
    rw [hnil, text_nil, List.append_nil]

/-- `ForwardUntilEof` returns `true` only when it is complete, and never goes beyond the EOF. -/
theorem forwardUntilEof_complete (fuel : ℕ) (l : Link) :
    Ends (forwardUntilEof fuel) l (ToEof l) fun _ t => SentWithinEof l t := by
  have hloop : ∀ s, Drained l s → Ends (whileLoop .outOfFuel forwardUntilEofStep fuel ()) s
      (ToEof l) fun _ t => SentWithinEof l t := fun s hs =>
    ends_whileLoop (fun _ => Drained l) (fun _ _ h => forwardUntilEofStep_drained h)
      (fun _ _ h => h.within) fuel () s hs
  refine ends_bind (ends_get ?_)
  by_cases hpos : l.readBuffer.length > 0
  · simp only [if_pos hpos]
    refine ((writeAll_within l _ _).mono (fun _ _ h => h) fun _ _ h => h).bind_run ?_
    rintro (_ | _) t hr hwithin
    · exact ends_pure (SentWithinEof.toEof (hwithin.trans (List.prefix_append _ _)))
    · obtain ⟨hnil, hfrom, ht⟩ := writeAll_buffer hr
      refine hloop t ⟨hnil, ?_⟩
      rw [ht, hfrom]
  · simp only [if_neg hpos]
    have hnil : l.readBuffer = [] := List.length_eq_zero_iff.mp (by omega)
    refine hloop l ⟨hnil, ?_⟩
    rw [hnil, text_nil, List.append_nil]

/-- **Conservation of bytes under I/O failure.** -/
theorem forwarding_conserves (l : Link) :
    (∀ contentLength, (∀ fuel, (Forwarder.exactly contentLength).run fuel
        = forwardExactly fuel contentLength) ∧ (Forwarder.exactly contentLength).Conserves l) ∧
    ((∀ fuel, Forwarder.chunked.run fuel = forwardChunked fuel) ∧ Forwarder.chunked.Conserves l) ∧
    ((∀ fuel, Forwarder.untilEof.run fuel = forwardUntilEof fuel) ∧
      Forwarder.untilEof.Conserves l) ∧
    ∀ fuel t, forwardUntilEof fuel l = .ok true t → SentToEof l t :=
  ⟨fun n => ⟨exactly_run n, (exactly_lawful n).conserves l⟩,
    ⟨chunked_run, chunked_lawful.conserves l⟩, ⟨untilEof_run, untilEof_lawful.conserves l⟩,
    fun fuel _ hr => ((forwardUntilEof_complete fuel l).ok hr).1 rfl⟩

end ProxyPP.Http
