import ProxyPP.Http.Invariants
import ProxyPP.Http.Runs

/-!
# ProxyPP.Http.Buffering — how much a session holds back

The read buffers have no size of their own; what bounds them is when the session reads.  It reads
more while a head is not complete, while a chunk size line or a trailer line has no end yet, and
else only into an empty buffer.  So a buffer never holds more than the header limit of the parser
and one read, but for a line of a chunked body that has no end (`buffers_bounded`); and such a line
is held back whatever its length.
-/

namespace ProxyPP.Http

open ProxyPP ProxyPP.Lib ProxyPP.Rules ProxyPP.Http.Details

/-! ## One buffer -/

/-- All but the last read of what is held back was looked at, and is no more than `H` bytes or has
no end of a line in it. -/
def Held (H K : ℕ) (buffer : List Octet) : Prop :=
  ∃ q r, buffer = q ++ r ∧ r.length ≤ K ∧ (q.length ≤ H ∨ findCrlf (text q) = none)

theorem held_nil (H K : ℕ) : Held H K [] :=
  ⟨[], [], rfl, Nat.zero_le K, .inl (Nat.zero_le H)⟩

/-- One more read into a buffer that was looked at. -/
theorem Held.read {H K : ℕ} {buffer rx : List Octet}
    (h : buffer.length ≤ H ∨ findCrlf (text buffer) = none) (hrx : rx.length ≤ K) :
    Held H K (buffer ++ rx) := ⟨buffer, rx, rfl, hrx, h⟩

theorem Held.drop {H K : ℕ} {buffer : List Octet} (h : Held H K buffer) (n : ℕ) :
    Held H K (buffer.drop n) := by
  obtain ⟨q, r, rfl, hr, hq⟩ := h
  refine ⟨q.drop n, r.drop (n - q.length), List.drop_append, ?_, ?_⟩
  · rw [List.length_drop]
    omega
  · refine hq.imp (fun hlen => ?_) fun hnone => ?_
    · rw [List.length_drop]
      omega
    · -- what is behind some bytes has no end of a line if the whole has none
      rw [text, List.map_drop]
      refine findPair_of_append (l := (text q).take n) ?_
      rw [text, List.take_append_drop]
      exact hnone

/-- The reads a socket will answer bring at most `K` bytes each; the session prepares 64 KiB. -/
def Socket.ReadsAtMost (K : ℕ) (s : Socket) : Prop := ∀ r ∈ s.incoming, r.bytes.length ≤ K

/-- What a link does to the buffer it reads into: the bound is kept. -/
structure Holds (H K : ℕ) (l l' : Link) : Prop where
  target : l'.targetPeer.incoming = l.targetPeer.incoming
  bounded : l.fromPeer.ReadsAtMost K → Held H K l.readBuffer →
    l'.fromPeer.ReadsAtMost K ∧ Held H K l'.readBuffer

section Link

variable {H K : ℕ}

instance : IsPreorder Link (Holds H K) where
  refl _ := ⟨rfl, fun hr hh => ⟨hr, hh⟩⟩
  trans _ _ _ h h' := ⟨h'.target.trans h.target, fun hr hh =>
    h'.bounded (h.bounded hr hh).1 (h.bounded hr hh).2⟩

/-- A read that came into the buffer. -/
structure ReadOnce (l : Link) (rx : List Octet) (l' : Link) : Prop where
  target : l'.targetPeer = l.targetPeer
  buffer : l'.readBuffer = l.readBuffer ++ rx
  incoming : ∀ r ∈ l'.fromPeer.incoming, r ∈ l.fromPeer.incoming
  length : rx = [] ∨ ∃ r ∈ l.fromPeer.incoming, rx.length ≤ r.bytes.length

theorem ReadOnce.holds {l l' : Link} {rx : List Octet} (h : ReadOnce l rx l')
    (hl : l.readBuffer.length ≤ H ∨ findCrlf (text l.readBuffer) = none) : Holds H K l l' := by
  refine ⟨by rw [h.target], fun hreads _ => ⟨fun r hr => hreads r (h.incoming r hr), ?_⟩⟩
  rw [h.buffer]
  refine Held.read hl ?_
  rcases h.length with hnil | ⟨r, hr, hlen⟩
  · rw [hnil]
    exact Nat.zero_le K
  · exact hlen.trans (hreads r hr)

theorem asyncReadSome_once (s : Socket) : Ends asyncReadSome s
    (fun r s' => (∀ o ∈ s'.incoming, o ∈ s.incoming) ∧ (r.bytes = [] ∨ r ∈ s.incoming))
    (fun _ s' => s' = s) := by
  unfold Ends asyncReadSome
  by_cases hopen : s.isOpen = true
  · rw [if_pos hopen]
    cases hin : s.incoming with
    | nil =>
      by_cases heof : s.atEof = true
      · rw [if_pos heof]
        exact ⟨fun o ho => by rw [hin] at ho; exact ho, .inl rfl⟩
      · rw [if_neg heof]
    | cons r rest => exact ⟨fun o ho => List.mem_cons_of_mem _ ho, .inr List.mem_cons_self⟩
  · rw [if_neg hopen]
    exact ⟨fun o ho => ho, .inl rfl⟩

theorem readOnce_commit {l : Link} {r : ReadOutcome} {s : Socket} {bytes : Bytes}
    (hin : ∀ o ∈ s.incoming, o ∈ l.fromPeer.incoming)
    (hr : r.bytes = [] ∨ r ∈ l.fromPeer.incoming) (hlen : bytes.length ≤ r.bytes.length) :
    ReadOnce l (received s.connection bytes) { l with
      readBuffer := l.readBuffer ++ received s.connection bytes, fromPeer := s } := by
  refine ⟨rfl, rfl, hin, ?_⟩
  rcases hr with hr | hr
  · left
    rw [hr, List.length_nil, Nat.le_zero, List.length_eq_zero_iff] at hlen
    rw [hlen]
    rfl
  · right
    exact ⟨r, hr, by rw [received, List.length_map]; exact hlen⟩

theorem readSomeFromPeer_once (l : Link) : Ends readSomeFromPeer l
    (fun r l' => ∃ rx, ReadOnce l rx l' ∧ ∀ res ∈ r, res.bytesRead = rx.length)
    (fun _ l' => l' = l) := by
  refine Ends.bind (ends_zoom ((asyncReadSome_once l.fromPeer).mono (fun r s h => ?_)
    fun e s h => ?_)) ?_ (P := fun r l' => ∃ s, l' = { l with fromPeer := s } ∧
      (∀ o ∈ s.incoming, o ∈ l.fromPeer.incoming) ∧ (r.bytes = [] ∨ r ∈ l.fromPeer.incoming))
  · exact ⟨s, rfl, h⟩
  · rw [h]
  rintro ⟨ec, bytes⟩ _ ⟨s, rfl, hin, hr⟩
  have hall := readOnce_commit hin hr (le_refl _)
  have hnone : ReadOnce l [] { l with fromPeer := s } :=
    ⟨rfl, (List.append_nil _).symm, hin, .inl rfl⟩
  have hlength : bytes.length = (received s.connection bytes).length := by
    rw [received, List.length_map]
  cases ec with
  | none =>
    refine ends_ite (fun _ => ends_pure ⟨[], hnone, by simp⟩) fun _ => ?_
    refine ends_bind (ends_modify (ends_pure ⟨_, hall, ?_⟩))
    rintro res ⟨⟩
    exact hlength
  | some e =>
    cases e with
    | eof =>
      refine ends_bind (ends_modify (ends_pure ⟨_, hall, ?_⟩))
      rintro res ⟨⟩
      exact hlength
    | operationAborted => exact ends_bind (ends_modify (ends_pure ⟨_, hall, by simp⟩))
    | other => exact ends_pure ⟨[], hnone, by simp⟩

theorem readSomeFromPeer_holds {l : Link}
    (hl : l.readBuffer.length ≤ H ∨ findCrlf (text l.readBuffer) = none) :
    Ends readSomeFromPeer l (fun _ l' => Holds H K l l') (fun _ l' => Holds H K l l') := by
  refine (readSomeFromPeer_once l).mono ?_ ?_
  · rintro r l' ⟨rx, h, -⟩
    exact h.holds hl
  · rintro e l' rfl
    exact Std.Refl.refl _

/-- A write takes its bytes off the buffer, all of them or none. -/
theorem writeToPeer_takes (l : Link) (n : ℕ) (E : Stop → Link → Prop) : Ends (writeToPeer n) l
    (fun r l' => l'.fromPeer = l.fromPeer ∧ l'.targetPeer.incoming = l.targetPeer.incoming ∧
      (r = some n ∧ l'.readBuffer = l.readBuffer.drop n ∨
        r = none ∧ l'.readBuffer = l.readBuffer)) E := by
  refine ends_bind (ends_get ?_)
  have hwrite : Ends (zoom Link.targetPeer (fun s l => { l with targetPeer := s })
      (asyncWrite (l.readBuffer.take n))) l (fun _ l' => l'.fromPeer = l.fromPeer ∧
        l'.targetPeer.incoming = l.targetPeer.incoming ∧ l'.readBuffer = l.readBuffer) E := by
    refine ends_zoom ((asyncWrite_ends (l.readBuffer.take n) l.targetPeer fun _ _ => False).mono
      ?_ fun _ _ h => h.elim)
    rintro r s ⟨ds, hs, -⟩
    exact ⟨rfl, by rw [hs], rfl⟩
  refine hwrite.bind ?_
  rintro ⟨ec, written⟩ l' ⟨hfrom, htarget, hbuffer⟩
  refine ends_ite (fun _ => ends_pure ⟨hfrom, htarget, .inr ⟨rfl, hbuffer⟩⟩) fun _ => ?_
  refine ends_ite (fun _ => ends_pure ⟨hfrom, htarget, .inr ⟨rfl, hbuffer⟩⟩) fun hn => ?_
  rw [not_not] at hn
  refine ends_bind (ends_modify (ends_pure ⟨hfrom, htarget, .inl ⟨by rw [hn], ?_⟩⟩))
  show l'.readBuffer.drop written = _
  rw [hbuffer, hn]

theorem within_writeToPeer_holds (n : ℕ) : Within (Holds H K) (writeToPeer n) := by
  intro l
  refine (writeToPeer_takes l n fun _ _ => False).mono ?_ fun _ _ h => h.elim
  rintro r l' ⟨hfrom, htarget, hbuffer⟩
  refine ⟨htarget, fun hreads hheld => ⟨by rw [hfrom]; exact hreads, ?_⟩⟩
  rcases hbuffer with ⟨-, hbuffer⟩ | ⟨-, hbuffer⟩
  · rw [hbuffer]
    exact hheld.drop n
  · rw [hbuffer]
    exact hheld

/-! ### The functions on a link -/

theorem within_refill_holds : Within (Holds H K) refill := by
  intro l
  refine ends_bind (ends_get ?_)
  refine ends_ite (fun hempty => ?_) fun _ => ends_pure (Std.Refl.refl l)
  exact Ends.bind (readSomeFromPeer_holds (.inl (by omega))) fun _ _ h => ends_pure h

theorem within_forwardExactly_holds (fuel : ℕ) (contentLength : UInt64) :
    Within (Holds H K) (forwardExactly fuel contentLength) := by
  refine within_whileLoop (fun bytesSent => ?_) fuel 0
  refine within_ite (fun _ => ?_) fun _ => within_pure _
  refine Within.bind within_refill_holds fun ok => within_ite (fun _ => ?_) fun _ => within_pure _
  refine Within.bind within_get fun l => Within.bind (within_writeToPeer_holds _) fun r => ?_
  cases r with
  | none => exact within_pure _
  | some bytesWritten => exact within_pure _

theorem within_forwardChunked_holds (fuel : ℕ) : Within (Holds H K) (forwardChunked fuel) := by
  refine within_whileLoop (fun v => ?_) fuel _
  intro l
  unfold forwardChunkedStep
  -- the three reads: a size line or a trailer line without its end, or an empty buffer
  cases v.state with
  | readChunkSizeLine =>
    refine ends_bind (ends_get ?_)
    cases hcrlf : findCrlf (text l.readBuffer) with
    | some crlfPos => exact ends_pure (Std.Refl.refl l)
    | none =>
      refine Ends.bind (readSomeFromPeer_holds (.inr hcrlf)) ?_
      rintro (_ | r) l' h
      · exact ends_pure h
      · exact ends_ite (fun _ => ends_pure h) fun _ => ends_pure h
  | parseChunkSizeLine =>
    refine ends_bind (ends_get ?_)
    dsimp only
    cases parseChunkSizeLine (bufferPrefixToString (text l.readBuffer) v.chunkSizeLineLength) with
    | some size => exact ends_pure (Std.Refl.refl l)
    | none => exact ends_pure (Std.Refl.refl l)
  | forwardChunkSizeLine =>
    refine Ends.bind (within_writeToPeer_holds _ l) ?_
    rintro (_ | r) l' h
    · exact ends_pure h
    · refine ends_ite (fun _ => ends_pure h) fun _ => ?_
      exact ends_ite (fun _ => ends_pure h) fun _ => ends_pure h
  | forwardChunkDataWithCrlf =>
    refine ends_bind (ends_get ?_)
    refine ends_ite (fun hempty => ?_) fun _ => ?_
    · refine Ends.bind (readSomeFromPeer_holds (.inl (by omega))) ?_
      rintro (_ | r) l' h
      · exact ends_pure h
      · exact ends_pure h
    · refine Ends.bind (within_writeToPeer_holds _ l) ?_
      rintro (_ | r) l' h
      · exact ends_pure h
      · exact ends_pure h
  | forwardTrailers =>
    refine ends_bind (ends_get ?_)
    cases hcrlf : findCrlf (text l.readBuffer) with
    | none =>
      refine Ends.bind (readSomeFromPeer_holds (.inr hcrlf)) ?_
      rintro (_ | r) l' h
      · exact ends_pure h
      · exact ends_pure h
    | some length =>
      refine Ends.bind (within_writeToPeer_holds _ l) ?_
      rintro (_ | r) l' h
      · exact ends_pure h
      · exact ends_pure h
  | completed => exact ends_pure (Std.Refl.refl l)

/-- Writing all there is leaves nothing. -/
theorem writeAll_empties {l : Link} {n : ℕ} (hn : n = l.readBuffer.length)
    (E : Stop → Link → Prop) : Ends (writeAll n) l
      (fun ok l' => Holds H K l l' ∧ (ok = true → l'.readBuffer = [])) E := by
  have hholds := (within_writeToPeer_holds (H := H) (K := K) n l).and
    (writeToPeer_takes l n fun _ _ => False)
  refine (hholds.mono (fun _ _ h => h) fun _ _ h => h.2.elim).bind ?_
  rintro r l' ⟨hl', -, -, hr⟩
  refine ends_pure ⟨hl', fun hok => ?_⟩
  rcases hr with ⟨-, hdrop⟩ | ⟨rfl, -⟩
  · rw [hdrop, hn, List.drop_length]
  · cases hok

/-- The loop of `ForwardUntilEof` reads into an empty buffer, and leaves it empty. -/
theorem forwardUntilEofStep_holds {l : Link} (hl : l.readBuffer = []) :
    Ends (forwardUntilEofStep ()) l
      (fun r l' => Holds H K l l' ∧ (r = .inl () → l'.readBuffer = []))
      (fun _ l' => Holds H K l l') := by
  have hread := (readSomeFromPeer_once l).and
    (readSomeFromPeer_holds (H := H) (K := K) (.inl (by rw [hl]; exact Nat.zero_le H)))
  refine (hread.mono (fun _ _ h => h) fun _ _ h => h.2).bind ?_
  rintro (_ | res) l₁ ⟨⟨rx, honce, hres⟩, hholds⟩
  · exact ends_pure ⟨hholds, by simp⟩
  have hbuffer : res.bytesRead = l₁.readBuffer.length := by
    rw [honce.buffer, hl, List.nil_append, hres res rfl]
  have hrest : ∀ ok l₂, Holds H K l₁ l₂ → (ok = true → l₂.readBuffer = []) →
      Ends (if ok = true then if res.eof = true then pure (.inr true) else pure (.inl ())
        else pure (.inr false) : EStateM Stop Link (Unit ⊕ Bool)) l₂
        (fun r l' => Holds H K l l' ∧ (r = .inl () → l'.readBuffer = []))
        (fun _ l' => Holds H K l l') := by
    intro ok l₂ hl₂ hempty
    have hstep : Holds H K l l₂ := IsTrans.trans _ _ _ hholds hl₂
    refine ends_ite (fun hok => ?_) fun _ => ends_pure ⟨hstep, by simp⟩
    exact ends_ite (fun _ => ends_pure ⟨hstep, by simp⟩) fun _ =>
      ends_pure ⟨hstep, fun _ => hempty hok⟩
  refine ends_ite (fun _ => ?_) fun hzero => ?_
  · exact Ends.bind (writeAll_empties hbuffer _) fun ok l₂ h => hrest ok l₂ h.1 h.2
  · refine ends_bind (ends_pure (hrest true l₁ (Std.Refl.refl l₁) fun _ => ?_))
    rw [← List.length_eq_zero_iff, ← hbuffer]
    omega

theorem within_forwardUntilEof_holds (fuel : ℕ) : Within (Holds H K) (forwardUntilEof fuel) := by
  intro l
  have hrest : ∀ drained l₁, Holds H K l l₁ → (drained = true → l₁.readBuffer = []) →
      Ends (if drained = true then whileLoop .outOfFuel forwardUntilEofStep fuel ()
        else pure false) l₁ (fun _ l' => Holds H K l l') (fun _ l' => Holds H K l l') := by
    intro drained l₁ hl₁ hempty
    refine ends_ite (fun hok => ?_) fun _ => ends_pure hl₁
    refine ends_whileLoop (E := fun _ l' => Holds H K l l')
      (fun _ l' => Holds H K l l' ∧ l'.readBuffer = []) ?_ (fun _ _ h => h.1) fuel () l₁
      ⟨hl₁, hempty hok⟩
    rintro _ l₂ ⟨hl₂, hnil⟩
    refine (forwardUntilEofStep_holds hnil).mono ?_ fun _ _ h => IsTrans.trans _ _ _ hl₂ h
    rintro (_ | a) l₃ ⟨hl₃, hcontinue⟩
    · exact ⟨IsTrans.trans _ _ _ hl₂ hl₃, hcontinue rfl⟩
    · exact IsTrans.trans _ _ _ hl₂ hl₃
  refine ends_bind (ends_get (ends_ite (fun _ => ?_) fun hzero => ?_))
  · exact Ends.bind (writeAll_empties rfl _) fun drained l₁ h => hrest drained l₁ h.1 h.2
  · refine ends_bind (ends_pure (hrest true l (Std.Refl.refl l) fun _ => ?_))
    rw [← List.length_eq_zero_iff]
    omega

theorem within_forwardViaTunnelStep_holds : Within (Holds H K) forwardViaTunnelStep := by
  intro l
  refine ends_bind (ends_get ?_)
  refine ends_ite (fun hempty => ?_) fun _ => ?_
  · refine Ends.bind (readSomeFromPeer_holds (.inl (by omega))) ?_
    rintro (_ | r) l' h
    · exact ends_pure h
    · exact ends_pure h
  · refine Ends.bind (within_writeToPeer_holds _ l) ?_
    rintro (_ | r) l' h
    · exact ends_pure h
    · exact ends_pure h

/-- A head that is not complete is no longer than the header limit. -/
theorem within_asyncReadHeader_holds {α : Type} {parse : Bytes → ParseResult α}
    (hlimit : ∀ q, parse q = .needMore → q.length ≤ H) (fuel : ℕ) :
    Within (Holds H K) (asyncReadHeader parse fuel) := by
  have hfetch : ∀ {l : Link}, l.readBuffer.length ≤ H →
      Ends (fetchMore (α := α)) l (fun _ l' => Holds H K l l') (fun _ l' => Holds H K l l') := by
    intro l hl
    refine Ends.bind (P := fun _ l' => Holds H K l l') (Ends.bind (ends_zoom
      ((asyncReadSome_once l.fromPeer).mono (fun r s h => ?_) fun e s h => ?_)) ?_
      (P := fun r l' => ∃ s, l' = { l with fromPeer := s } ∧
        (∀ o ∈ s.incoming, o ∈ l.fromPeer.incoming) ∧ (r.bytes = [] ∨ r ∈ l.fromPeer.incoming)))
      fun r l' h => ends_ite (fun _ => ends_pure h) fun _ => ends_pure h
    · exact ⟨s, rfl, h⟩
    · rw [h]
      exact Std.Refl.refl l
    rintro r _ ⟨s, rfl, hin, hr⟩
    have hlen : r.delivered.length ≤ r.bytes.length := by
      unfold ReadOutcome.delivered
      split
      · exact Nat.zero_le _
      · exact le_refl _
    exact ends_bind (ends_modify (ends_pure ((readOnce_commit hin hr hlen).holds (.inl hl))))
  refine within_whileLoop (fun _ => ?_) fuel ()
  intro l
  refine ends_bind (ends_get ?_)
  refine ends_ite (fun hempty => hfetch (by rw [hempty]; exact Nat.zero_le H)) fun _ => ?_
  cases hp : parse (text l.readBuffer) with
  | needMore => exact hfetch (by rw [← length_text]; exact hlimit _ hp)
  | failed => exact ends_pure (Std.Refl.refl l)
  | done value consumed =>
    refine ends_bind (ends_modify (ends_pure ⟨rfl, fun hreads hheld => ⟨hreads, ?_⟩⟩))
    exact hheld.drop consumed

/-- Nothing limits a line: without its end `ForwardChunked` takes all there is into the buffer. -/
theorem forwardChunked_holds_line {l : Link} {fuel : ℕ} (hsource : l.fromPeer.Delivers)
    (heof : l.fromPeer.atEof = false) (hnone : findCrlf l.ahead = none)
    (hfuel : l.fromPeer.incoming.length < fuel) :
    ∃ l', forwardChunked fuel l = .error .blocked l' ∧ text l'.readBuffer = l.ahead := by
  unfold forwardChunked
  -- each turn finds no end in the buffer and reads; the reads run out and the last turn waits
  induction fuel generalizing l with
  | zero => exact absurd hfuel (Nat.not_lt_zero _)
  | succ fuel ih =>
    have hcrlf : findCrlf (text l.readBuffer) = none := by
      cases h : findCrlf (text l.readBuffer) with
      | none => rfl
      | some n =>
        have hmore := findPair_append cr_ne_lf h l.fromPeer.stream
        exact absurd (hmore.symm.trans hnone) (by simp)
    cases hin : l.fromPeer.incoming with
    | nil =>
      have hr := readSomeFromPeer_nil fun _ => hin
      rw [if_pos hsource.1, if_neg (by rw [heof]; decide)] at hr
      refine ⟨l, ?_, ?_⟩
      · rw [whileLoop]
        refine bind_error ?_
        unfold forwardChunkedStep
        refine (bind_ok (s := l) rfl).trans ?_
        simp only [hcrlf]
        exact bind_error hr
      · rw [Link.ahead, Socket.stream, hin]
        exact (List.append_nil _).symm
    | cons r rest =>
      obtain ⟨hec, hbytes⟩ := hsource.2 r (by rw [hin]; exact List.mem_cons_self)
      have hlen : r.bytes.length ≠ 0 := fun h => hbytes (List.length_eq_zero_iff.mp h)
      have hr := readSomeFromPeer_cons hsource.1 hin
      rw [hec] at hr
      simp only [if_neg hlen] at hr
      have hahead : (l.committed rest r.bytes).ahead = l.ahead :=
        (moved_committed hin (by simp [hec])).ahead.symm
      obtain ⟨l', hl', htext⟩ := ih (l := l.committed rest r.bytes)
        ⟨hsource.1, fun o ho => hsource.2 o (by rw [hin]; exact List.mem_cons_of_mem _ ho)⟩ heof
        (by rw [hahead]; exact hnone) (by rw [hin] at hfuel; exact Nat.lt_of_succ_lt_succ hfuel)
      have hstep : forwardChunkedStep ⟨.readChunkSizeLine, 0, 0, 0⟩ l
          = .ok (.inl ⟨.readChunkSizeLine, 0, 0, 0⟩) (l.committed rest r.bytes) := by
        unfold forwardChunkedStep
        refine (bind_ok (s := l) rfl).trans ?_
        simp only [hcrlf]
        refine (bind_ok hr).trans ?_
        simp only [if_neg hlen]
        rfl
      refine ⟨l', ?_, htext.trans hahead⟩
      rw [whileLoop_continue hstep]
      exact hl'

end Link

/-! ## A session -/

/-- No read brings more than `K` bytes, and both buffers are within the bound. -/
structure HoldsBack {η : Type} (H K : ℕ) (s : Session η) : Prop where
  clientReads : s.clientSock.ReadsAtMost K
  remoteReads : s.remoteSock.ReadsAtMost K
  dialReads : ∀ dial ∈ s.dials, ∀ peer, some peer ∈ dial.attempts →
    ∀ r ∈ peer.incoming, r.bytes.length ≤ K
  client : Held H K s.clientReadBuffer
  remote : Held H K s.remoteReadBuffer

section Session

variable {η : Type} {H K : ℕ}

def KeepsBound (H K : ℕ) (s t : Session η) : Prop := HoldsBack H K s → HoldsBack H K t

instance : IsPreorder (Session η) (KeepsBound H K) where
  refl _ := id
  trans _ _ _ h h' hs := h' (h hs)

theorem Holds.up {s : Session η} {l : Link} (h : Holds H K s.upLink l) :
    KeepsBound H K s (s.putUpLink l) := by
  intro hs
  obtain ⟨hreads, hheld⟩ := h.bounded hs.clientReads hs.client
  refine ⟨hreads, fun r hr => hs.remoteReads r ?_, hs.dialReads, hheld, hs.remote⟩
  rw [show s.remoteSock.incoming = s.upLink.targetPeer.incoming from rfl, ← h.target]
  exact hr

theorem Holds.down {s : Session η} {l : Link} (h : Holds H K s.downLink l) :
    KeepsBound H K s (s.putDownLink l) := by
  intro hs
  obtain ⟨hreads, hheld⟩ := h.bounded hs.remoteReads hs.remote
  refine ⟨fun r hr => hs.clientReads r ?_, hreads, hs.dialReads, hs.client, hheld⟩
  rw [show s.clientSock.incoming = s.downLink.targetPeer.incoming from rfl, ← h.target]
  exact hr

theorem keepsBound_up {α : Type} {m : EStateM Stop Link α} (h : Within (Holds H K) m) :
    Within (KeepsBound H K) (onUpLink m : EStateM Stop (Session η) α) :=
  h.zoom fun _ _ => Holds.up

theorem keepsBound_down {α : Type} {m : EStateM Stop Link α} (h : Within (Holds H K) m) :
    Within (KeepsBound H K) (onDownLink m : EStateM Stop (Session η) α) :=
  h.zoom fun _ _ => Holds.down

/-- A new connection brings its own reads; the buffer of the old one stays. -/
theorem keepsBound_connect (info : RemoteInfo) :
    Within (KeepsBound H K) (ensureRemoteConnected (η := η) info) := by
  have htail : ∀ s : Session η, KeepsBound H K s { s with dials := s.dials.tail } := fun s hs =>
    ⟨hs.clientReads, hs.remoteReads, fun dial hd => hs.dialReads dial (List.mem_of_mem_tail hd),
      hs.client, hs.remote⟩
  have hclose : Within (KeepsBound H K) (closeRemote (η := η)) :=
    Within.bind (within_modify fun _ hs => ⟨hs.clientReads, hs.remoteReads, hs.dialReads, hs.client,
      hs.remote⟩) fun _ => within_modify fun _ hs => ⟨hs.clientReads, hs.remoteReads, hs.dialReads,
        hs.client, hs.remote⟩
  have hresolve : Within (KeepsBound H K) (resolveRemote (η := η) info) := by
    refine Within.bind within_get fun s => ?_
    cases s.dials with
    | nil => exact within_throw _
    | cons dial dials =>
      dsimp only
      cases dial.endpoints with
      | none => exact Within.bind (within_modify htail) fun _ => within_pure _
      | some endpoints =>
        refine within_ite (fun _ => Within.bind (within_modify htail) fun _ => within_pure _)
          fun _ => Within.bind (within_modify fun _ hs => ?_) fun _ => within_pure _
        exact ⟨hs.clientReads, hs.remoteReads, hs.dialReads, hs.client, hs.remote⟩
  have hconnect : ∀ endpoints, Within (KeepsBound H K) (connectRemote (η := η) endpoints) := by
    intro endpoints s
    refine (connectRemote_ends endpoints s fun _ _ => False).mono ?_ fun _ _ h => h.elim
    rintro (_ | _) t ht
    · rw [if_neg (by simp)] at ht
      rw [ht]
      exact htail s
    · rw [if_pos rfl] at ht
      obtain ⟨endpoint, peer, hreached, rfl⟩ := ht
      intro hs
      refine ⟨hs.clientReads, ?_, (htail s hs).dialReads, hs.client, hs.remote⟩
      cases hdials : s.dials with
      | nil => rw [hdials] at hreached; cases (mem_of_connectFirst hreached).2
      | cons dial dials =>
        rw [hdials] at hreached
        exact hs.dialReads dial (by rw [hdials]; exact List.mem_cons_self) peer
          (mem_of_connectFirst hreached).2
  refine Within.bind within_get fun s => within_ite (fun _ => within_pure _) fun _ => ?_
  refine Within.bind hclose fun _ => Within.bind hresolve ?_
  rintro (_ | endpoints)
  · exact within_pure _
  refine Within.bind (hconnect endpoints) fun _ => within_ite (fun _ => ?_) fun _ => within_pure _
  refine Within.bind (within_modify fun _ hs => ?_) fun _ => within_pure _
  exact ⟨hs.clientReads, hs.remoteReads, hs.dialReads, hs.client, hs.remote⟩

/-- The steps of a session keep the bound, if a head that is not complete is at most `H` bytes. -/
theorem allows_keepsBound {env : Env η}
    (hrequest : ∀ q, env.beast.parseRequest q = .needMore → q.length ≤ H)
    (hresponse : ∀ q, env.beast.parseResponse q = .needMore → q.length ≤ H) :
    Allows env (KeepsBound H K) where
  readRequest := keepsBound_up (within_asyncReadHeader_holds hrequest _)
  connect := keepsBound_connect
  requestRules _ _ hs := ⟨hs.clientReads, hs.remoteReads, hs.dialReads, hs.client, hs.remote⟩
  responseRules _ _ _ hs := ⟨hs.clientReads, hs.remoteReads, hs.dialReads, hs.client, hs.remote⟩
  writeToRemote octets := by
    refine Within.bind (fun s => ends_zoom ?_) fun _ => within_pure _
    refine (asyncWrite_ends octets s.remoteSock fun _ _ => False).mono ?_ fun _ _ h => h.elim
    rintro _ t ⟨ds, ht, -⟩ hs
    refine ⟨hs.clientReads, ?_, hs.dialReads, hs.client, hs.remote⟩
    show t.ReadsAtMost K
    rw [ht]
    exact hs.remoteReads
  writeToClient octets := by
    refine Within.bind (fun s => ends_zoom ?_) fun _ => within_pure _
    refine (asyncWrite_ends octets s.clientSock fun _ _ => False).mono ?_ fun _ _ h => h.elim
    rintro _ t ⟨ds, ht, -⟩ hs
    refine ⟨?_, hs.remoteReads, hs.dialReads, hs.client, hs.remote⟩
    show t.ReadsAtMost K
    rw [ht]
    exact hs.clientReads
  requestBody parser := by
    unfold forwardRequestBody
    rcases determineRequestBodyInfo parser with ⟨framing, contentLength⟩
    cases framing with
    | none => exact within_pure true
    | contentLength => exact keepsBound_up (within_forwardExactly_holds _ _)
    | chunked => exact keepsBound_up (within_forwardChunked_holds _)
  readResponse := keepsBound_down (within_asyncReadHeader_holds hresponse _)
  responseBody parser response := by
    unfold forwardResponseBody
    rcases determineResponseBodyInfo parser response with ⟨framing, contentLength⟩
    cases framing with
    | none => exact within_pure true
    | contentLength => exact keepsBound_down (within_forwardExactly_holds _ _)
    | chunked => exact keepsBound_down (within_forwardChunked_holds _)
    | closeDelimited => exact keepsBound_down (within_forwardUntilEof_holds _)
    | tunnel => exact within_pure false
  tunnel direction := by
    cases direction with
    | clientToRemote => exact keepsBound_up within_forwardViaTunnelStep_holds
    | remoteToClient => exact keepsBound_down within_forwardViaTunnelStep_holds
  close := by
    have hmodify : ∀ {f : Session η → Session η}, (∀ s, KeepsBound H K s (f s)) →
        Within (KeepsBound H K) (modify f : EStateM Stop (Session η) PUnit) := within_modify
    refine Within.bind within_get fun s => within_ite (fun _ => within_pure _) fun _ => ?_
    refine Within.bind (hmodify fun _ hs => ?_) fun _ => Within.bind (Within.bind (hmodify
      fun _ hs => ?_) fun _ => hmodify fun _ hs => ?_) fun _ => hmodify fun _ hs => ?_
    all_goals exact ⟨hs.clientReads, hs.remoteReads, hs.dialReads, hs.client, hs.remote⟩

/-- **Bounded buffers.**  If no read brings more than `K` bytes and no incomplete head is longer
than `H`, then in every run, at its end or where it waits, each read buffer holds at most `H` bytes
and one read, unless it holds a line of a chunked body that has no end: then all but the last read
of it is without an end of a line. -/
theorem buffers_bounded (env : Env η) (H K : ℕ)
    (hrequest : ∀ q, env.beast.parseRequest q = .needMore → q.length ≤ H)
    (hresponse : ∀ q, env.beast.parseResponse q = .needMore → q.length ≤ H)
    (clientSock : Socket) (script : η) (dials : List Dial) (hclient : clientSock.ReadsAtMost K)
    (hdials : ∀ dial ∈ dials, ∀ peer, some peer ∈ dial.attempts →
      ∀ r ∈ peer.incoming, r.bytes.length ≤ K) :
    let s := stateOf (run env (Session.new clientSock script dials))
    ∀ buffer, buffer = s.clientReadBuffer ∨ buffer = s.remoteReadBuffer →
      buffer.length ≤ H + K ∨
        ∃ q r, buffer = q ++ r ∧ r.length ≤ K ∧ findCrlf (text q) = none := by
  intro s
  have hstart : HoldsBack H K (Session.new clientSock script dials) :=
    ⟨hclient, fun r hr => (by cases hr), hdials, held_nil H K, held_nil H K⟩
  have hs : HoldsBack H K s := Ends.stateOf (I := HoldsBack H K)
    (((allows_keepsBound (K := K) hrequest hresponse).run _).mono (fun _ _ h => h hstart)
      fun _ _ h => h hstart)
  have hbound : ∀ {buffer}, Held H K buffer → buffer.length ≤ H + K ∨
      ∃ q r, buffer = q ++ r ∧ r.length ≤ K ∧ findCrlf (text q) = none := by
    rintro _ ⟨q, r, rfl, hr, hq | hq⟩
    · left
      rw [List.length_append]
      omega
    · exact .inr ⟨q, r, rfl, hr, hq⟩
  rintro _ (rfl | rfl)
  · exact hbound hs.client
  · exact hbound hs.remote

/-- A buffer that can still become a head of the table is no longer than that head. -/
theorem HeadTable.length_of_needMore {α : Type} {heads : List (Bytes × α)} {q : Bytes}
    (hheads : ∀ head ∈ heads, head.1.length ≤ H) (hq : HeadTable.parse heads q = .needMore) :
    q.length ≤ H := by
  unfold HeadTable.parse at hq
  cases hfind : heads.find? (fun head => head.1.isPrefixOf q) with
  | some head =>
    rw [hfind] at hq
    cases hq
  | none =>
    rw [hfind] at hq
    by_cases hany : heads.any (fun head => q.isPrefixOf head.1) = true
    · obtain ⟨head, hmem, hprefix⟩ := List.any_eq_true.mp hany
      exact (List.isPrefixOf_iff_prefix.mp hprefix).length_le.trans (hheads head hmem)
    · simp only [if_neg hany] at hq
      cases hq

/-- Two responses come in one read where one was asked for; the second stays in the buffer. -/
theorem buffers_bounded_surplus :
    let s := stateOf (run (Env.ofHosts [ascii "a"] [emptyOk])
      (Session.ofReads [(getOf (ascii "a")).1] [[emptyOk.1 ++ emptyOk.1]]))
    ∀ buffer, buffer = s.clientReadBuffer ∨ buffer = s.remoteReadBuffer →
      buffer.length ≤ 38 + 76 ∨
        ∃ q r, buffer = q ++ r ∧ r.length ≤ 76 ∧ findCrlf (text q) = none := by
  refine buffers_bounded (Env.ofHosts [ascii "a"] [emptyOk]) 38 76
    (fun _ => HeadTable.length_of_needMore (by decide +kernel))
    (fun _ => HeadTable.length_of_needMore (by decide +kernel)) _ _ _ ?_ ?_
  · intro r hr
    rw [List.mem_singleton.mp hr]
    decide +kernel
  · intro dial hdial peer hpeer r hr
    rw [List.mem_singleton.mp hdial] at hpeer
    rw [Option.some.inj (List.mem_singleton.mp hpeer)] at hr
    rw [List.mem_singleton.mp hr]
    decide +kernel

end Session

end ProxyPP.Http
