import ProxyPP.Http.Forward
import ProxyPP.Http.Message

/-!
# ProxyPP.Http.ReadHeader — `async_read_header`

Beast reads from the socket until the parser has a head; the bytes behind it stay in the buffer.
`Delimits` says which bytes are a head for the parser: they are parsed off the front of anything,
and as long as some of them are missing more are asked for.  A stream that starts with such a head
is read up to the end of it, however it is cut (`asyncReadHeader_delimits`).
-/

namespace ProxyPP.Http

open ProxyPP ProxyPP.Lib

variable {α : Type} (parse : Bytes → ParseResult α)

/-! ## Definitions -/

/-- One `async_read_some` into the buffer.  A failed read brings no bytes. -/
def fetch : EStateM Stop Link ReadOutcome := do
  let r ← zoom Link.fromPeer (fun s l => { l with fromPeer := s }) asyncReadSome
  commit r.delivered
  pure r

def fetchMore : EStateM Stop Link (Unit ⊕ Option (α × List Octet)) := do
  let r ← fetch
  if r.ec.isSome then pure (.inr none) else pure (.inl ())

/-- One round of the parser: the bytes of a head are taken off the buffer. -/
def asyncReadHeaderStep (_ : Unit) : EStateM Stop Link (Unit ⊕ Option (α × List Octet)) := do
  let l ← get
  if l.readBuffer = [] then fetchMore
  else match parse (text l.readBuffer) with
    | .needMore => fetchMore
    | .failed => pure (.inr none)
    | .done value consumed => do
      modify fun l => { l with readBuffer := l.readBuffer.drop consumed }
      pure (.inr (some (value, l.readBuffer.take consumed)))

/-- `http_::async_read_header`: the parsed head and its bytes. -/
def asyncReadHeader (fuel : ℕ) : EStateM Stop Link (Option (α × List Octet)) :=
  whileLoop .outOfFuel (asyncReadHeaderStep parse) fuel ()

/-! ## Specification -/

/-- The link after a read of the header: what was read, and what was taken as a head. -/
structure HeadRead (l l' : Link) (value : α) (raw rx : List Octet) : Prop extends
    Transfer l l' [] rx where
  target : l'.targetPeer = l.targetPeer
  buffer : raw ++ l'.readBuffer = l.readBuffer ++ rx
  nonempty : l.readBuffer ++ rx ≠ []
  parsed : ∃ consumed, parse (text (l.readBuffer ++ rx)) = .done value consumed ∧
    raw = (l.readBuffer ++ rx).take consumed

/-- A read takes its outcome off the script of the socket. -/
theorem asyncReadSome_ends (s : Socket) : Ends asyncReadSome s
    (fun r s' => s' = { s with incoming := s'.incoming } ∧ s.stream = r.delivered ++ s'.stream)
    (fun e s' => e = .blocked ∧ s' = s) := by
  by_cases hopen : s.isOpen = true
  · cases hin : s.incoming with
    | nil =>
      by_cases heof : s.atEof = true
      · refine Ends.of_ok (a := ⟨some .eof, []⟩) (t := s) ?_ ⟨rfl, rfl⟩
        rw [asyncReadSome, if_pos hopen, hin]
        exact if_pos heof
      · refine Ends.of_error (t := s) ?_ ⟨rfl, rfl⟩
        rw [asyncReadSome, if_pos hopen, hin]
        exact if_neg heof
    | cons r rest =>
      refine Ends.of_ok (a := r) (t := { s with incoming := rest }) ?_ ⟨rfl, ?_⟩
      · rw [asyncReadSome, if_pos hopen, hin]
      · rw [Socket.stream, hin, List.flatMap_cons]
        rfl
  · refine Ends.of_ok (a := ⟨some .other, []⟩) (t := s) ?_ ⟨rfl, rfl⟩
    rw [asyncReadSome, if_neg hopen]

/-- The link after reads without a head. -/
structure Fetched (l l' : Link) (rx : List Octet) : Prop extends Moved l l' [] rx where
  target : l'.targetPeer = l.targetPeer

theorem Fetched.trans {l l₁ l₂ : Link} {rx rx' : List Octet} (h : Fetched l l₁ rx)
    (h' : Fetched l₁ l₂ rx') : Fetched l l₂ (rx ++ rx') :=
  ⟨h.toMoved.trans h'.toMoved, h'.target.trans h.target⟩

theorem fetch_ends (l : Link) : Ends fetch l (fun _ l' => ∃ rx, Fetched l l' rx)
    (fun e l' => e = .blocked ∧ l' = l) := by
  refine ends_bind (ends_zoom ((asyncReadSome_ends l.fromPeer).mono ?_ ?_))
  · rintro r s ⟨hs, hstream⟩
    refine ends_bind (ends_modify (ends_pure
      ⟨received s.connection r.delivered, ⟨?_, rfl⟩, rfl⟩))
    have hconn : s.connection = l.fromPeer.connection := by rw [hs]
    refine ⟨⟨[], by simp, by simp, rfl⟩, ?_, ?_, hs, rfl, fun o ho => ho⟩
    · rw [text_received]; exact hstream
    · intro o ho
      rw [origins_of_mem_received ho, hconn]
  · rintro e s ⟨rfl, rfl⟩
    exact ⟨rfl, rfl⟩

variable {parse}

/-- **`async_read_header`.**  A head it returns was parsed off the front of what was buffered and
read, and the bytes behind it are in the buffer; without a head everything read is. -/
theorem asyncReadHeader_ends (fuel : ℕ) (l : Link) : Ends (asyncReadHeader parse fuel) l
    (fun r l' => ∃ rx, match r with
      | some (value, raw) => HeadRead parse l l' value raw rx
      | none => Fetched l l' rx)
    (fun e l' => (e = .blocked ∨ e = .outOfFuel) ∧ ∃ rx, Fetched l l' rx) := by
  have hmore : ∀ l₁ rx, Fetched l l₁ rx → Ends fetchMore l₁
      (fun r t => Sum.elim (fun (_ : Unit) => ∃ rx, Fetched l t rx)
        (fun r : Option (α × List Octet) => ∃ rx, match r with
          | some (value, raw) => HeadRead parse l t value raw rx
          | none => Fetched l t rx) r)
      (fun e l' => (e = .blocked ∨ e = .outOfFuel) ∧ ∃ rx, Fetched l l' rx) := by
    intro l₁ rx hm
    refine ((fetch_ends l₁).mono (fun _ _ h => h) ?_).bind ?_
    · rintro e l₂ ⟨rfl, rfl⟩
      exact ⟨Or.inl rfl, rx, hm⟩
    · rintro r l₂ ⟨rx', hm'⟩
      exact ends_ite (fun _ => ends_leave ⟨_, hm.trans hm'⟩)
        fun _ => ends_continue ⟨_, hm.trans hm'⟩
  refine ends_whileLoop (fun (_ : Unit) l' => ∃ rx, Fetched l l' rx) ?_ ?_ fuel () l
    ⟨[], Moved.refl l, rfl⟩
  · rintro - l₁ ⟨rx, hm⟩
    have hbuf : l₁.readBuffer = l.readBuffer ++ rx := hm.buffer
    refine ends_bind (ends_get (ends_ite (fun _ => hmore l₁ rx hm) (fun hne => ?_)))
    cases hp : parse (text l₁.readBuffer) with
    | needMore => exact hmore l₁ rx hm
    | failed => exact ends_leave ⟨rx, hm⟩
    | done value consumed =>
      refine ends_bind (ends_modify (ends_leave ⟨rx, ?_⟩))
      obtain ⟨h1, h2, h3, h4, h5, -⟩ := hm.toTransfer
      refine ⟨⟨h1, h2, h3, h4, h5, fun o ho => ?_⟩, hm.target, ?_, ?_, consumed, ?_, ?_⟩
      · rw [← hbuf]
        exact List.mem_of_mem_drop ho
      · rw [← hbuf]
        exact List.take_append_drop consumed l₁.readBuffer
      · rwa [← hbuf]
      · rw [← hbuf, hp]
      · rw [← hbuf]
  · rintro - l₁ ⟨rx, hm⟩
    exact ⟨Or.inr rfl, rx, hm⟩

theorem within_asyncReadHeader (fuel : ℕ) : Within Transferred (asyncReadHeader parse fuel) := by
  intro l
  refine (asyncReadHeader_ends fuel l).mono ?_ fun _ _ ⟨_, rx, hm⟩ => ⟨[], rx, hm.toTransfer⟩
  rintro (_ | ⟨value, raw⟩) l' ⟨rx, h⟩
  · exact ⟨[], rx, h.toTransfer⟩
  · exact ⟨[], rx, h.toTransfer⟩

/-! ## Heads -/

/-- The bytes `head` are a head that the parser reads as `value`. -/
structure Delimits (parse : Bytes → ParseResult α) (head : Bytes) (value : α) : Prop where
  complete : ∀ rest, parse (head ++ rest) = .done value head.length
  incomplete : ∀ q, q <+: head → q ≠ [] → q ≠ head → parse q = .needMore

/-- A head that was read is the one the stream starts with. -/
theorem HeadRead.delimits {l l' : Link} {value : α} {raw rx : List Octet}
    (h : HeadRead parse l l' value raw rx) {head rest : Bytes} {expected : α}
    (hd : Delimits parse head expected) (hahead : l.ahead = head ++ rest) :
    value = expected ∧ text raw = head ∧ l'.ahead = rest := by
  obtain ⟨consumed, hparse, hraw⟩ := h.parsed
  have hstream : text (l.readBuffer ++ rx) ++ l'.fromPeer.stream = head ++ rest := by
    rw [← hahead, Link.ahead, h.stream, text_append, List.append_assoc]
  have hne : text (l.readBuffer ++ rx) ≠ [] := fun h0 => h.nonempty (List.map_eq_nil_iff.mp h0)
  have hhead : head <+: text (l.readBuffer ++ rx) := by
    rcases List.prefix_or_prefix_of_prefix (List.prefix_append head rest)
      ⟨l'.fromPeer.stream, hstream⟩ with hp | hp
    · exact hp
    · by_cases heq : text (l.readBuffer ++ rx) = head
      · rw [heq]
      · rw [hd.incomplete _ hp hne heq] at hparse
        exact absurd hparse (by simp)
  obtain ⟨u, hu⟩ := hhead
  rw [← hu, hd.complete] at hparse
  obtain ⟨rfl, rfl⟩ := ParseResult.done.inj hparse
  have htext : text raw = head := by
    rw [hraw, text_take, ← hu, List.take_left]
  have hbuf := congrArg text h.buffer
  rw [text_append, htext] at hbuf
  refine ⟨rfl, htext, ?_⟩
  rw [← hbuf, List.append_assoc] at hstream
  exact List.append_cancel_left hstream

/-- **A head is read up to its end**, however the stream is cut. -/
theorem asyncReadHeader_delimits {l : Link} {head rest : Bytes} {expected : α}
    (hd : Delimits parse head expected) (hahead : l.ahead = head ++ rest) (fuel : ℕ) :
    Ends (asyncReadHeader parse fuel) l
      (fun q l' => l'.targetPeer = l.targetPeer ∧
        ∀ p ∈ q, p.1 = expected ∧ text p.2 = head ∧ l'.ahead = rest)
      (fun _ _ => True) := by
  refine (asyncReadHeader_ends fuel l).mono ?_ fun _ _ _ => trivial
  rintro (_ | ⟨value, raw⟩) l' ⟨rx, h⟩
  · exact ⟨h.target, by simp⟩
  · refine ⟨h.target, fun p hp => ?_⟩
    cases hp
    exact h.delimits hd hahead

/-- Nothing is read off an empty stream. -/
theorem asyncReadHeader_empty {l : Link} (hahead : l.ahead = []) (fuel : ℕ) :
    Ends (asyncReadHeader parse fuel) l (fun q _ => q = none) (fun _ _ => True) := by
  refine (asyncReadHeader_ends fuel l).mono ?_ fun _ _ _ => trivial
  rintro (_ | ⟨value, raw⟩) l' ⟨rx, h⟩
  · rfl
  · have hstream : text (l.readBuffer ++ rx) ++ l'.fromPeer.stream = [] := by
      rw [← hahead, Link.ahead, h.stream, text_append, List.append_assoc]
    exact absurd (List.map_eq_nil_iff.mp (List.append_eq_nil_iff.mp hstream).1) h.nonempty

end ProxyPP.Http
