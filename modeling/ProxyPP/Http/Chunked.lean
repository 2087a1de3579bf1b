import ProxyPP.Http.ChunkedBody
import ProxyPP.Http.Forward

/-!
# ProxyPP.Http.Chunked — `ForwardChunked`

The six-state loop of the chunked forwarder, one iteration of the `while` per `forwardChunkedStep`.

* `forwardChunked_ends`: when it returns `true` the bytes sent are a framed body (size lines, data
  and trailers as the grammar has them; the two bytes behind the data of a chunk are not looked at).
* `forwardChunked_total`: on a stream that starts with a framed body, cut anywhere, it returns
  `true` having sent exactly that body.

Soundness goes through `Rest v`, the byte strings that complete a body from the loop state `v`:
every write of the machine takes its bytes off the front of a `Rest`.
-/

namespace ProxyPP.Http

open ProxyPP ProxyPP.Lib ProxyPP.Http.Details

/-! ## Definitions -/

inductive ChunkedState
  | readChunkSizeLine
  | parseChunkSizeLine
  | forwardChunkSizeLine
  | forwardChunkDataWithCrlf
  | forwardTrailers
  | completed
  deriving DecidableEq, Repr

/-- The local variables of `ForwardChunked`. -/
structure ChunkedVars where
  state : ChunkedState
  chunkSizeLineLength : ℕ
  chunkSize : UInt64
  chunkBytesRemaining : UInt64
  deriving DecidableEq, Repr

/-- One iteration of the loop of `ForwardChunked`. -/
def forwardChunkedStep (v : ChunkedVars) : EStateM Stop Link (ChunkedVars ⊕ Bool) :=
  match v.state with
  | .readChunkSizeLine => do
    let l ← get
    match findCrlf (text l.readBuffer) with
    | some crlfPos =>
      pure (.inl { v with chunkSizeLineLength := crlfPos, state := .parseChunkSizeLine })
    | none =>
      match ← readSomeFromPeer with
      | none => pure (.inr false)
      | some readResult => if readResult.bytesRead = 0 then pure (.inr false) else pure (.inl v)
  | .parseChunkSizeLine => do
    let l ← get
    let line := bufferPrefixToString (text l.readBuffer) v.chunkSizeLineLength
    match parseChunkSizeLine line with
    | some chunkBodySize =>
      pure (.inl { v with chunkSize := chunkBodySize, state := .forwardChunkSizeLine })
    | none => pure (.inr false)
  | .forwardChunkSizeLine => do
    match ← writeToPeer (v.chunkSizeLineLength + 2) with
    | none => pure (.inr false)
    | some _ =>
      if v.chunkSize = 0 then pure (.inl { v with state := .forwardTrailers })
      else if v.chunkSize > sizeMax - 2 then pure (.inr false)
      else pure (.inl { v with
        chunkBytesRemaining := v.chunkSize + 2, state := .forwardChunkDataWithCrlf })
  | .forwardChunkDataWithCrlf => do
    let l ← get
    if l.readBuffer.length = 0 then
      match ← readSomeFromPeer with
      | none => pure (.inr false)
      | some _ => pure (.inl v)
    else
      match ← writeToPeer (min v.chunkBytesRemaining.toNat l.readBuffer.length) with
      | none => pure (.inr false)
      | some bytesWritten =>
        let remaining := v.chunkBytesRemaining - UInt64.ofNat bytesWritten
        pure (.inl { v with
          chunkBytesRemaining := remaining
          state := if remaining = 0 then .readChunkSizeLine else .forwardChunkDataWithCrlf })
  | .forwardTrailers => do
    let l ← get
    match findCrlf (text l.readBuffer) with
    | none =>
      match ← readSomeFromPeer with
      | none => pure (.inr false)
      | some _ => pure (.inl v)
    | some trailerLineLength =>
      match ← writeToPeer (trailerLineLength + 2) with
      | none => pure (.inr false)
      | some _ =>
        pure (.inl { v with
          state := if trailerLineLength = 0 then .completed else .forwardTrailers })
  | .completed => pure (.inr true)

def forwardChunked (fuel : ℕ) : EStateM Stop Link Bool :=
  whileLoop .outOfFuel forwardChunkedStep fuel ⟨.readChunkSizeLine, 0, 0, 0⟩

/-! ## The language of the machine -/

/-- `std::numeric_limits<std::size_t>::max() - 2`, the largest chunk size forwarded. -/
def maxChunkSize : ℕ := 2 ^ 64 - 3

/-- The byte strings that complete a body from the loop state `v`, chunk sizes up to `limit`. -/
def Rest (limit : ℕ) (v : ChunkedVars) (p : Bytes) : Prop :=
  match v.state with
  | .readChunkSizeLine | .parseChunkSizeLine | .forwardChunkSizeLine => ∃ ts, Framed limit ts p
  | .forwardChunkDataWithCrlf =>
    ∃ d r, p = d ++ r ∧ d.length = v.chunkBytesRemaining.toNat ∧ ∃ ts, Framed limit ts r
  | .forwardTrailers => Trailers p
  | .completed => p = []

/-- What the loop state `v` says about the read buffer. -/
def Located (v : ChunkedVars) (buffer : Bytes) : Prop :=
  match v.state with
  | .parseChunkSizeLine => findCrlf buffer = some v.chunkSizeLineLength
  | .forwardChunkSizeLine => findCrlf buffer = some v.chunkSizeLineLength ∧
      parseChunkSizeLine (buffer.take v.chunkSizeLineLength) = some v.chunkSize
  | .forwardChunkDataWithCrlf => 0 < v.chunkBytesRemaining.toNat
  | _ => True

/-- The shortest body. -/
theorem framed_nil (limit : ℕ) : Framed limit [] (ascii "0\r\n\r\n") :=
  @Framed.last limit (ascii "0") crlf (by decide) Trailers.last

/-- A body can be completed from every loop state. -/
theorem exists_rest (limit : ℕ) (v : ChunkedVars) : ∃ p, Rest limit v p := by
  rcases v with ⟨state, len, size, rem⟩
  cases state with
  | readChunkSizeLine | parseChunkSizeLine | forwardChunkSizeLine => exact ⟨_, _, framed_nil limit⟩
  | forwardChunkDataWithCrlf =>
    exact ⟨_, List.replicate rem.toNat 0, _, rfl, List.length_replicate .., _, framed_nil limit⟩
  | forwardTrailers => exact ⟨crlf, Trailers.last⟩
  | completed => exact ⟨[], rfl⟩

theorem toNat_add_two {n : UInt64} (h : n.toNat ≤ maxChunkSize) : (n + 2).toNat = n.toNat + 2 := by
  have h2 : (2 : UInt64) = UInt64.ofNat 2 := rfl
  rw [h2]
  exact toNat_add_ofNat (by rw [maxChunkSize] at h; omega)

theorem toNat_le_maxChunkSize {n : UInt64} (h : ¬ n > sizeMax - 2) : n.toNat ≤ maxChunkSize := by
  have h2 : (sizeMax - 2).toNat = maxChunkSize := by decide
  rw [← h2]
  exact UInt64.le_iff_toNat_le.mp (UInt64.not_lt.mp h)

theorem one_le_toNat {n : UInt64} (h : n ≠ 0) : 1 ≤ n.toNat := by
  rcases Nat.eq_zero_or_pos n.toNat with h0 | h0
  · exact absurd (UInt64.toNat_inj.mp (by rw [h0]; rfl)) h
  · exact h0

/-- `chunk_bytes_remaining -= bytes_written` does not wrap. -/
theorem toNat_remaining {rem : UInt64} {k : ℕ} (h : k ≤ rem.toNat) :
    (rem - UInt64.ofNat k).toNat = rem.toNat - k := by
  have hk : (UInt64.ofNat k).toNat = k := by
    rw [UInt64.toNat_ofNat', Nat.mod_eq_of_lt (lt_of_le_of_lt h rem.toNat_lt)]
  rw [UInt64.toNat_sub_of_le _ _ (UInt64.le_iff_toNat_le.mpr (by omega)), hk]

/-! ### Writes take their bytes off the front of a `Rest` -/

section Fronts

variable {buffer : Bytes} {k limit : ℕ}

/-- The size line of the closing chunk. -/
theorem framed_of_trailers (hk : findCrlf buffer = some k)
    (hparse : parseChunkSizeLine (buffer.take k) = some 0) {p : Bytes} (h : Trailers p) :
    ∃ ts, Framed limit ts (buffer.take (k + 2) ++ p) := by
  rw [(findCrlf_cut hk).2]
  exact ⟨[], Framed.last hparse h⟩

/-- The size line of a chunk with data. -/
theorem framed_of_data {n : UInt64} (hk : findCrlf buffer = some k)
    (hparse : parseChunkSizeLine (buffer.take k) = some n) (h0 : n ≠ 0) (hle : n.toNat ≤ limit)
    {d r : Bytes} {ts : List Bytes} (hd : d.length = n.toNat + 2) (hr : Framed limit ts r) :
    ∃ ts', Framed limit ts' (buffer.take (k + 2) ++ (d ++ r)) := by
  rw [(findCrlf_cut hk).2, ← List.take_append_drop n.toNat d]
  refine ⟨_, Framed.chunk hparse (one_le_toNat h0) hle ?_ ?_ hr⟩
  · rw [List.length_take]; omega
  · rw [List.length_drop]; omega

/-- A trailer line, or the empty line. -/
theorem trailers_of_front (hk : findCrlf buffer = some k) {p : Bytes}
    (h : if k = 0 then p = [] else Trailers p) : Trailers (buffer.take (k + 2) ++ p) := by
  obtain ⟨hnone, hcut⟩ := findCrlf_cut hk
  have hle := findCrlf_add_two_le hk
  rw [hcut]
  by_cases h0 : k = 0
  · rw [if_pos h0] at h
    rw [h, h0, List.take_zero, List.append_nil]
    exact Trailers.last
  · rw [if_neg h0] at h
    refine Trailers.line ?_ (findCrlf_eq_none_iff.mp hnone) h
    intro hnil
    have hlen := congrArg List.length hnil
    rw [List.length_take, List.length_nil] at hlen
    omega

end Fronts

/-! ## Soundness -/

/-- What was sent so far, followed by anything that completes a body from `v`, is a framed body. -/
def Sound (l : Link) (v : ChunkedVars) (l' : Link) : Prop :=
  ∃ tx rx, Moved l l' tx rx ∧ Located v (text l'.readBuffer) ∧
    ∀ limit, maxChunkSize ≤ limit → ∀ p, Rest limit v p → ∃ ts, Framed limit ts (text tx ++ p)

/-- The bytes sent are a framed body. -/
def SentFramed (tx : List Octet) (_ : Link) : Prop := ∃ ts, Framed maxChunkSize ts (text tx)

/-- The bytes sent are the front of a framed body. -/
def SentFront (tx : List Octet) : Prop := ∃ ts p, Framed (2 ^ 64) ts (text tx ++ p)

theorem SentFront.of_append {tx tx' : List Octet} (h : SentFront (tx ++ tx')) : SentFront tx := by
  obtain ⟨ts, p, hp⟩ := h
  rw [text_append, List.append_assoc] at hp
  exact ⟨ts, _, hp⟩

theorem Sound.sentFront {tx : List Octet} {v : ChunkedVars} (hrest : ∀ limit, maxChunkSize ≤ limit →
    ∀ p, Rest limit v p → ∃ ts, Framed limit ts (text tx ++ p)) : SentFront tx := by
  obtain ⟨p, hp⟩ := exists_rest (2 ^ 64) v
  obtain ⟨ts, hts⟩ := hrest (2 ^ 64) (by decide) p hp
  exact ⟨ts, p, hts⟩

/-- What an iteration establishes when it starts in a sound state. -/
def SoundStep (l : Link) (r : ChunkedVars ⊕ Bool) (t : Link) : Prop :=
  Sum.elim (fun v' => Sound l v' t) (fun ok => Forwarded l SentFramed SentFront ok t) r

/-- A read in a state whose `Located` does not depend on the buffer. -/
theorem Sound.read {l l₁ : Link} {v : ChunkedVars} (h : Sound l v l₁)
    (hloc : ∀ b b', Located v b → Located v b')
    {m : Option ReadSomeResult → EStateM Stop Link (ChunkedVars ⊕ Bool)}
    (hm : ∀ r, m r = pure (.inr false) ∨ m r = pure (.inl v)) :
    Ends (readSomeFromPeer >>= m) l₁ (SoundStep l) (Suspended l SentFront) := by
  obtain ⟨tx, rx, hmv, hl, hrest⟩ := h
  have hF := Sound.sentFront hrest
  refine (hmv.read hF).bind ?_
  rintro r l₂ ⟨rx', hmv₂, -, -⟩
  rcases hm r with hr | hr
  · rw [hr]
    exact ends_leave (Forwarded.failed hmv₂.cut hF)
  · rw [hr]
    exact ends_continue ⟨tx, _, hmv₂, hloc _ _ hl, hrest⟩

/-- A write of the front of the buffer that the machine answers by `w`, or by giving up. -/
theorem Sound.write {l l₁ : Link} {v : ChunkedVars} (h : Sound l v l₁) {n : ℕ}
    {m : Option ℕ → EStateM Stop Link (ChunkedVars ⊕ Bool)} {w : ChunkedVars}
    (hnone : m none = pure (.inr false))
    (hfront : ∃ p, Rest (2 ^ 64) v ((text l₁.readBuffer).take n ++ p))
    (hsome : m (some n) = pure (.inr false) ∨ m (some n) = pure (.inl w) ∧ (∀ b, Located w b) ∧
      ∀ limit, maxChunkSize ≤ limit → ∀ p, Rest limit w p →
        Rest limit v ((text l₁.readBuffer).take n ++ p)) :
    Ends (writeToPeer n >>= m) l₁ (SoundStep l) (Suspended l SentFront) := by
  obtain ⟨tx, rx, hmv, -, hrest⟩ := h
  have hF : SentFront (tx ++ l₁.readBuffer.take n) := by
    obtain ⟨p, hp⟩ := hfront
    obtain ⟨ts, hts⟩ := hrest (2 ^ 64) (by decide) _ hp
    exact ⟨ts, p, by rwa [text_append, text_take, List.append_assoc]⟩
  refine (hmv.write n _).bind ?_
  rintro (_ | k) l₂ hr
  · obtain ⟨tx', hc, t, ht⟩ := hr
    rw [hnone]
    refine ends_leave (Forwarded.failed hc ?_)
    rw [← ht, ← List.append_assoc] at hF
    exact hF.of_append
  · obtain ⟨rfl, -, -, hmv₂⟩ := hr
    rcases hsome with hr | ⟨hr, hloc, hnext⟩
    · rw [hr]
      exact ends_leave (Forwarded.failed hmv₂.cut hF)
    · rw [hr]
      refine ends_continue ⟨_, _, hmv₂, hloc _, fun limit hlimit p hp => ?_⟩
      obtain ⟨ts, hts⟩ := hrest limit hlimit _ (hnext limit hlimit p hp)
      exact ⟨ts, by rwa [text_append, text_take, List.append_assoc]⟩

/-- The case of `Sound.write` in which the machine goes on. -/
theorem Sound.write_next {l l₁ : Link} {v : ChunkedVars} (h : Sound l v l₁) {n : ℕ}
    {m : Option ℕ → EStateM Stop Link (ChunkedVars ⊕ Bool)} {w : ChunkedVars}
    (hnone : m none = pure (.inr false)) (hsome : m (some n) = pure (.inl w))
    (hloc : ∀ b, Located w b) (hnext : ∀ limit, maxChunkSize ≤ limit → ∀ p, Rest limit w p →
      Rest limit v ((text l₁.readBuffer).take n ++ p)) :
    Ends (writeToPeer n >>= m) l₁ (SoundStep l) (Suspended l SentFront) := by
  obtain ⟨p, hp⟩ := exists_rest (2 ^ 64) w
  exact h.write hnone ⟨p, hnext _ (by decide) p hp⟩ (Or.inr ⟨hsome, hloc, hnext⟩)

theorem Sound.located {l l₁ : Link} {v : ChunkedVars} (h : Sound l v l₁) :
    Located v (text l₁.readBuffer) := by
  obtain ⟨tx, rx, -, hloc, -⟩ := h
  exact hloc

section States

variable {l l₁ : Link} {len : ℕ} {size rem : UInt64}

theorem sound_readChunkSizeLine (h : Sound l ⟨.readChunkSizeLine, len, size, rem⟩ l₁) :
    Ends (forwardChunkedStep ⟨.readChunkSizeLine, len, size, rem⟩) l₁ (SoundStep l)
      (Suspended l SentFront) := by
  refine ends_bind (ends_get ?_)
  cases hk : findCrlf (text l₁.readBuffer) with
  | some k =>
    obtain ⟨tx, rx, hmv, -, hrest⟩ := h
    exact ends_continue ⟨tx, rx, hmv, hk, hrest⟩
  | none =>
    refine h.read (fun _ _ h => h) ?_
    rintro (_ | res)
    · exact Or.inl rfl
    · by_cases h0 : res.bytesRead = 0
      · exact Or.inl (if_pos h0)
      · exact Or.inr (if_neg h0)

theorem sound_parseChunkSizeLine (h : Sound l ⟨.parseChunkSizeLine, len, size, rem⟩ l₁) :
    Ends (forwardChunkedStep ⟨.parseChunkSizeLine, len, size, rem⟩) l₁ (SoundStep l)
      (Suspended l SentFront) := by
  obtain ⟨tx, rx, hmv, hloc, hrest⟩ := h
  have hk : findCrlf (text l₁.readBuffer) = some len := hloc
  refine ends_bind (ends_get ?_)
  dsimp only
  rw [bufferPrefixToString_of_findCrlf hk]
  cases hparse : parseChunkSizeLine ((text l₁.readBuffer).take len) with
  | some n => exact ends_continue ⟨tx, rx, hmv, ⟨hloc, hparse⟩, hrest⟩
  | none => exact ends_leave (Forwarded.failed hmv.cut (Sound.sentFront hrest))

theorem sound_forwardChunkSizeLine (h : Sound l ⟨.forwardChunkSizeLine, len, size, rem⟩ l₁) :
    Ends (forwardChunkedStep ⟨.forwardChunkSizeLine, len, size, rem⟩) l₁ (SoundStep l)
      (Suspended l SentFront) := by
  obtain ⟨hk, hparse⟩ : findCrlf (text l₁.readBuffer) = some len ∧
      parseChunkSizeLine ((text l₁.readBuffer).take len) = some size := h.located
  by_cases h0 : size = 0
  · subst h0
    refine h.write_next (w := ⟨.forwardTrailers, len, 0, rem⟩) rfl rfl (fun _ => trivial) ?_
    intro limit _ p hp
    exact framed_of_trailers hk hparse hp
  by_cases hmax : size > sizeMax - 2
  · -- the size line goes out before the size is rejected
    refine h.write (w := ⟨.completed, 0, 0, 0⟩) rfl
      ⟨List.replicate (size.toNat + 2) 0 ++ ascii "0\r\n\r\n", ?_⟩ (Or.inl ?_)
    · have hlt := size.toNat_lt
      exact framed_of_data hk hparse h0 (by omega) List.length_replicate (framed_nil _)
    · simp only [if_neg h0, if_pos hmax]
  · have hsize := toNat_add_two (toNat_le_maxChunkSize hmax)
    refine h.write_next (w := ⟨.forwardChunkDataWithCrlf, len, size, size + 2⟩) rfl ?_
      (fun _ => ?_) ?_
    · simp only [if_neg h0, if_neg hmax]
    · show 0 < (size + 2).toNat
      omega
    · rintro limit hlimit p ⟨d, r, rfl, hd, ts, hr⟩
      refine framed_of_data hk hparse h0 ((toNat_le_maxChunkSize hmax).trans hlimit) ?_ hr
      exact hd.trans hsize

theorem sound_forwardChunkDataWithCrlf
    (h : Sound l ⟨.forwardChunkDataWithCrlf, len, size, rem⟩ l₁) :
    Ends (forwardChunkedStep ⟨.forwardChunkDataWithCrlf, len, size, rem⟩) l₁ (SoundStep l)
      (Suspended l SentFront) := by
  have hpos : 0 < rem.toNat := h.located
  refine ends_bind (ends_get (ends_ite (fun hempty => ?_) (fun hne => ?_)))
  · refine h.read (fun _ _ h => h) ?_
    rintro (_ | res)
    · exact Or.inl rfl
    · exact Or.inr rfl
  have hrem : (rem - UInt64.ofNat (min rem.toNat l₁.readBuffer.length)).toNat
      = rem.toNat - min rem.toNat l₁.readBuffer.length := toNat_remaining (Nat.min_le_left _ _)
  refine h.write_next (w := ⟨_, len, size,
    rem - UInt64.ofNat (min rem.toNat l₁.readBuffer.length)⟩) rfl rfl ?_ ?_
  · intro b
    by_cases hz : rem - UInt64.ofNat (min rem.toNat l₁.readBuffer.length) = 0
    · rw [if_pos hz]; trivial
    · rw [if_neg hz]; exact one_le_toNat hz
  · intro limit _ p hp
    have htake : ((text l₁.readBuffer).take (min rem.toNat l₁.readBuffer.length)).length
        = min rem.toNat l₁.readBuffer.length := by
      rw [List.length_take, length_text]; omega
    by_cases hz : rem - UInt64.ofNat (min rem.toNat l₁.readBuffer.length) = 0
    · -- the last bytes of the chunk
      rw [if_pos hz] at hp
      rw [hz] at hrem
      refine ⟨_, p, rfl, ?_, hp⟩
      show _ = rem.toNat
      rw [htake]
      have h00 : (0 : UInt64).toNat = 0 := rfl
      omega
    · rw [if_neg hz] at hp
      obtain ⟨d, r, rfl, hd, hr⟩ := hp
      refine ⟨_ ++ d, r, (List.append_assoc ..).symm, ?_, hr⟩
      show _ = rem.toNat
      rw [List.length_append, htake, hd]
      show _ + (rem - UInt64.ofNat (min rem.toNat l₁.readBuffer.length)).toNat = _
      omega

theorem sound_forwardTrailers (h : Sound l ⟨.forwardTrailers, len, size, rem⟩ l₁) :
    Ends (forwardChunkedStep ⟨.forwardTrailers, len, size, rem⟩) l₁ (SoundStep l)
      (Suspended l SentFront) := by
  refine ends_bind (ends_get ?_)
  cases hk : findCrlf (text l₁.readBuffer) with
  | none =>
    refine h.read (fun _ _ h => h) ?_
    rintro (_ | res)
    · exact Or.inl rfl
    · exact Or.inr rfl
  | some k =>
    refine h.write_next (w := ⟨if k = 0 then .completed else .forwardTrailers, len, size, rem⟩)
      rfl rfl ?_ ?_
    · intro b
      by_cases h0 : k = 0
      · rw [if_pos h0]; trivial
      · rw [if_neg h0]; trivial
    · intro limit _ p hp
      refine trailers_of_front hk ?_
      by_cases h0 : k = 0
      · rw [if_pos h0] at hp ⊢; exact hp
      · rw [if_neg h0] at hp ⊢; exact hp

end States

/-- One iteration keeps `Sound`. -/
theorem forwardChunkedStep_sound {l l₁ : Link} {v : ChunkedVars} (h : Sound l v l₁) :
    Ends (forwardChunkedStep v) l₁ (SoundStep l) (Suspended l SentFront) := by
  rcases v with ⟨state, len, size, rem⟩
  cases state with
  | readChunkSizeLine => exact sound_readChunkSizeLine h
  | parseChunkSizeLine => exact sound_parseChunkSizeLine h
  | forwardChunkSizeLine => exact sound_forwardChunkSizeLine h
  | forwardChunkDataWithCrlf => exact sound_forwardChunkDataWithCrlf h
  | forwardTrailers => exact sound_forwardTrailers h
  | completed =>
    obtain ⟨tx, rx, hmv, -, hrest⟩ := h
    obtain ⟨ts, hts⟩ := hrest _ (Nat.le_refl _) [] rfl
    rw [List.append_nil] at hts
    exact ends_leave (Forwarded.done hmv ⟨ts, hts⟩)

/-- **`ForwardChunked` is sound**: when it returns `true`, the bytes sent are a framed body, and
they are the front of one whatever happens. -/
theorem forwardChunked_ends (fuel : ℕ) (l : Link) : Ends (forwardChunked fuel) l
    (Forwarded l SentFramed SentFront) (Suspended l SentFront) := by
  refine ends_whileLoop (Sound l) (fun v l₁ h => forwardChunkedStep_sound h) ?_ fuel _ l
    ⟨[], [], Moved.refl l, trivial, fun _ _ p hp => hp⟩
  rintro v l₁ ⟨tx, rx, hmv, -, hrest⟩
  exact hmv.suspended (Sound.sentFront hrest) (Or.inr rfl)

/-! ## Completeness -/

section Backs

variable {p R buffer s : Bytes} {k : ℕ}

/-- A line at the front of a stream is the one found in the buffer. -/
theorem line_of_front {line q : Bytes} (hline : findCrlf line = none)
    (hk : findCrlf buffer = some k)
    (heq : line ++ crlf ++ q ++ R = buffer ++ s) :
    line = buffer.take k ∧ line ++ crlf = buffer.take (k + 2) := by
  obtain ⟨hnone, hcut⟩ := findCrlf_cut hk
  have hsplit : line ++ crlf ++ (q ++ R) = buffer.take k ++ crlf ++ (buffer.drop (k + 2) ++ s) := by
    rw [← List.append_assoc, heq, ← List.append_assoc, ← hcut, List.take_append_drop]
  obtain ⟨rfl, -⟩ := line_unique hline hnone hsplit
  exact ⟨rfl, hcut.symm⟩

theorem exists_crlf_of_framed {limit : ℕ} {ts : List Bytes} (h : Framed limit ts p) (R : Bytes) :
    ∃ k, findCrlf (p ++ R) = some k := by
  cases h with
  | last hline _ =>
    rw [List.append_assoc]
    exact ⟨_, findCrlf_line (findCrlf_of_parseChunkSizeLine hline) _⟩
  | chunk hline =>
    rw [List.append_assoc]
    exact ⟨_, findCrlf_line (findCrlf_of_parseChunkSizeLine hline) _⟩

theorem exists_crlf_of_trailers (h : Trailers p) (R : Bytes) : ∃ k, findCrlf (p ++ R) = some k := by
  cases h with
  | last => exact ⟨0, findCrlf_line (l := []) rfl R⟩
  | line _ hl _ =>
    exact ⟨_, by rw [List.append_assoc]; exact findCrlf_line (findCrlf_eq_none_iff.mpr hl) _⟩

/-- The size line at the front of a framed body. -/
theorem framed_front {limit : ℕ} {ts : List Bytes} (h : Framed limit ts p)
    (hk : findCrlf buffer = some k) (heq : p ++ R = buffer ++ s) :
    ∃ n q, parseChunkSizeLine (buffer.take k) = some n ∧ p = buffer.take (k + 2) ++ q ∧
      (n = 0 ∧ Trailers q ∨ 1 ≤ n.toNat ∧ n.toNat ≤ limit ∧
        ∃ d r, q = d ++ r ∧ d.length = n.toNat + 2 ∧ ∃ ts, Framed limit ts r) := by
  cases h with
  | last hline htr =>
    obtain ⟨hl, hfront⟩ := line_of_front (findCrlf_of_parseChunkSizeLine hline) hk heq
    exact ⟨0, _, hl ▸ hline, by rw [← hfront], Or.inl ⟨rfl, htr⟩⟩
  | chunk hline h1 hlim hdata ht hr =>
    obtain ⟨hl, hfront⟩ := line_of_front (findCrlf_of_parseChunkSizeLine hline) hk heq
    refine ⟨_, _, hl ▸ hline, by rw [← hfront], Or.inr ⟨h1, hlim, _, _, rfl, ?_, _, hr⟩⟩
    rw [List.length_append, hdata, ht]

/-- The line at the front of a trailer section. -/
theorem trailers_front (h : Trailers p) (hk : findCrlf buffer = some k)
    (heq : p ++ R = buffer ++ s) :
    ∃ q, p = buffer.take (k + 2) ++ q ∧ if k = 0 then q = [] else Trailers q := by
  have hle := findCrlf_add_two_le hk
  cases h with
  | last =>
    have heq' : ([] : Bytes) ++ crlf ++ [] ++ R = buffer ++ s := by simpa using heq
    obtain ⟨hl, hfront⟩ := line_of_front rfl hk heq'
    have hlen := congrArg List.length hl
    rw [List.length_take, List.length_nil] at hlen
    exact ⟨[], by rw [← hfront]; rfl, by rw [if_pos (by omega)]⟩
  | line hne hl htr =>
    obtain ⟨hl', hfront⟩ := line_of_front (findCrlf_eq_none_iff.mpr hl) hk heq
    refine ⟨_, by rw [← hfront], ?_⟩
    rw [if_neg fun h0 => hne (by rw [hl', h0, List.take_zero])]
    exact htr

end Backs

/-- A run on a stream that starts with what completes a body from `v`, all reads bringing data and
all writes succeeding. -/
structure Complete (R : Bytes) (v : ChunkedVars) (l : Link) : Prop where
  source : l.fromPeer.Delivers
  target : l.targetPeer.WritesOk
  located : Located v (text l.readBuffer)
  ahead : ∃ p, Rest maxChunkSize v p ∧ l.ahead = p ++ R

/-- Progress between two reads or writes of the machine. -/
def stateRank : ChunkedState → ℕ
  | .readChunkSizeLine => 2
  | .parseChunkSizeLine => 1
  | _ => 0

/-- The measure of `ForwardChunked`: what is left to read and to write, then the state. -/
def chunkedMeasure (v : ChunkedVars) (l : Link) : ℕ :=
  3 * (l.fromPeer.incoming.length + l.ahead.length) + stateRank v.state

/-- What one iteration of a complete run does. -/
def Progress (R : Bytes) (v : ChunkedVars) (l : Link) (r : ChunkedVars ⊕ Bool) (t : Link) : Prop :=
  Sum.elim (fun v' => Complete R v' t ∧ chunkedMeasure v' t < chunkedMeasure v l)
    (fun ok => ok = true ∧ t.ahead = R) r

/-- A read in a state whose `Located` does not depend on the buffer. -/
theorem Complete.read {R : Bytes} {v : ChunkedVars} {l : Link} (h : Complete R v l)
    (hloc : ∀ b b', Located v b → Located v b') (hne : l.fromPeer.stream ≠ [])
    {m : Option ReadSomeResult → EStateM Stop Link (ChunkedVars ⊕ Bool)}
    (hm : ∀ n, 0 < n → m (some ⟨n, false⟩) = pure (.inl v)) :
    ∃ r t, (readSomeFromPeer >>= m) l = .ok r t ∧ Progress R v l r t := by
  obtain ⟨n, l', hn, hr, hahead, hsrc, htgt, hlt⟩ := readSomeFromPeer_data h.source hne
  refine ⟨.inl v, l', ?_, ⟨hsrc, htgt ▸ h.target, hloc _ _ h.located, ?_⟩, ?_⟩
  · rw [bind_ok hr, hm n hn]; rfl
  · rw [hahead]; exact h.ahead
  · show 3 * _ + _ < 3 * _ + _
    rw [hahead]
    omega

/-- A write of the front of the buffer that the machine answers by `next`. -/
theorem Complete.write {R : Bytes} {v : ChunkedVars} {l : Link} (h : Complete R v l) {n : ℕ}
    (hn : n ≤ l.readBuffer.length) (hpos : 0 < n) {q : Bytes}
    (hq : l.ahead = (text l.readBuffer).take n ++ q ++ R)
    {m : Option ℕ → EStateM Stop Link (ChunkedVars ⊕ Bool)} {w : ChunkedVars}
    (hm : m (some n) = pure (.inl w)) (hloc : ∀ b, Located w b) (hrest : Rest maxChunkSize w q) :
    ∃ r t, (writeToPeer n >>= m) l = .ok r t ∧ Progress R v l r t := by
  obtain ⟨l', hr, htgt, hfrom, hahead⟩ := writeToPeer_front h.target hn
  have hq' : l'.ahead = q ++ R := by
    rw [hahead, List.append_assoc] at hq
    exact List.append_cancel_left hq
  refine ⟨.inl w, l', ?_, ⟨hfrom ▸ h.source, htgt, hloc _, q, hrest, hq'⟩, ?_⟩
  · rw [bind_ok hr, hm]; rfl
  · have hlen := congrArg List.length hahead
    rw [List.length_append, List.length_take, length_text] at hlen
    have hrank : stateRank w.state ≤ 2 := by cases w.state <;> decide
    show 3 * _ + _ < 3 * _ + _
    rw [hfrom]
    omega

/-- Without more input, a CRLF that is ahead is in the buffer. -/
theorem stream_ne_nil_of_crlf {R p : Bytes} {l : Link} (hahead : l.ahead = p ++ R)
    (hnone : findCrlf (text l.readBuffer) = none) (hcrlf : ∃ k, findCrlf (p ++ R) = some k) :
    l.fromPeer.stream ≠ [] := by
  intro hs
  obtain ⟨k, hk⟩ := hcrlf
  rw [← hahead, Link.ahead, hs, List.append_nil, hnone] at hk
  cases hk

section States

variable {R : Bytes} {l : Link} {len : ℕ} {size rem : UInt64}

theorem complete_readChunkSizeLine (h : Complete R ⟨.readChunkSizeLine, len, size, rem⟩ l) :
    ∃ r t, forwardChunkedStep ⟨.readChunkSizeLine, len, size, rem⟩ l = .ok r t ∧
      Progress R ⟨.readChunkSizeLine, len, size, rem⟩ l r t := by
  obtain ⟨p, ⟨ts, hts⟩, hahead⟩ := h.ahead
  cases hk : findCrlf (text l.readBuffer) with
  | some k =>
    simp only [forwardChunkedStep, bind_ok (get_run l), hk]
    exact ⟨.inl _, l, rfl, ⟨h.source, h.target, hk, p, ⟨ts, hts⟩, hahead⟩, Nat.lt_succ_self _⟩
  | none =>
    simp only [forwardChunkedStep, bind_ok (get_run l), hk]
    have hne := stream_ne_nil_of_crlf hahead hk (exists_crlf_of_framed hts R)
    exact h.read (fun _ _ h => h) hne fun n hn => if_neg hn.ne'

theorem complete_parseChunkSizeLine (h : Complete R ⟨.parseChunkSizeLine, len, size, rem⟩ l) :
    ∃ r t, forwardChunkedStep ⟨.parseChunkSizeLine, len, size, rem⟩ l = .ok r t ∧
      Progress R ⟨.parseChunkSizeLine, len, size, rem⟩ l r t := by
  obtain ⟨p, ⟨ts, hts⟩, hahead⟩ := h.ahead
  have hk : findCrlf (text l.readBuffer) = some len := h.located
  obtain ⟨n, q, hparse, -, -⟩ := framed_front hts hk hahead.symm
  simp only [forwardChunkedStep, bind_ok (get_run l), bufferPrefixToString_of_findCrlf hk, hparse]
  exact ⟨.inl _, l, rfl, ⟨h.source, h.target, ⟨hk, hparse⟩, p, ⟨ts, hts⟩, hahead⟩,
    Nat.lt_succ_self _⟩

theorem complete_forwardChunkSizeLine (h : Complete R ⟨.forwardChunkSizeLine, len, size, rem⟩ l) :
    ∃ r t, forwardChunkedStep ⟨.forwardChunkSizeLine, len, size, rem⟩ l = .ok r t ∧
      Progress R ⟨.forwardChunkSizeLine, len, size, rem⟩ l r t := by
  obtain ⟨p, ⟨ts, hts⟩, hahead⟩ := h.ahead
  obtain ⟨hk, hparse⟩ : findCrlf (text l.readBuffer) = some len ∧
      parseChunkSizeLine ((text l.readBuffer).take len) = some size := h.located
  obtain ⟨n, q, hparse', rfl, hq⟩ := framed_front hts hk hahead.symm
  rw [hparse] at hparse'
  cases hparse'
  have hle := findCrlf_add_two_le hk
  rw [length_text] at hle
  simp only [forwardChunkedStep]
  rcases hq with ⟨rfl, htr⟩ | ⟨h1, hmax, d, r, rfl, hd, ts', hr⟩
  · exact h.write (w := ⟨.forwardTrailers, len, 0, rem⟩) hle (by omega) hahead rfl
      (fun _ => trivial) htr
  · have h0 : size ≠ 0 := by
      rintro rfl
      exact absurd h1 (by decide)
    have hmax' : ¬ size > sizeMax - 2 := by
      have h2 : (sizeMax - 2).toNat = maxChunkSize := by decide
      intro hgt
      have := UInt64.lt_iff_toNat_lt.mp hgt
      omega
    refine h.write (w := ⟨.forwardChunkDataWithCrlf, len, size, size + 2⟩) hle (by omega) hahead
      ?_ (fun _ => ?_) ⟨d, r, rfl, ?_, ts', hr⟩
    · simp only [if_neg h0, if_neg hmax']
    · show 0 < (size + 2).toNat
      rw [toNat_add_two hmax]
      omega
    · show d.length = (size + 2).toNat
      rw [hd, toNat_add_two hmax]

theorem complete_forwardChunkDataWithCrlf
    (h : Complete R ⟨.forwardChunkDataWithCrlf, len, size, rem⟩ l) :
    ∃ r t, forwardChunkedStep ⟨.forwardChunkDataWithCrlf, len, size, rem⟩ l = .ok r t ∧
      Progress R ⟨.forwardChunkDataWithCrlf, len, size, rem⟩ l r t := by
  obtain ⟨p, ⟨d, r, rfl, hd, hr⟩, hahead⟩ := h.ahead
  have hpos : 0 < rem.toNat := h.located
  replace hd : d.length = rem.toNat := hd
  simp only [forwardChunkedStep, bind_ok (get_run l)]
  by_cases hempty : l.readBuffer.length = 0
  · rw [if_pos hempty]
    have hne : l.fromPeer.stream ≠ [] := by
      intro hs
      have hlen := congrArg List.length hahead
      rw [Link.ahead, hs, List.append_nil, length_text, List.length_append,
        List.length_append] at hlen
      omega
    exact h.read (fun _ _ h => h) hne fun n hn => rfl
  rw [if_neg hempty]
  set m := min rem.toNat l.readBuffer.length with hm
  have hrem : (rem - UInt64.ofNat m).toNat = rem.toNat - m := toNat_remaining (Nat.min_le_left _ _)
  -- the bytes written are the front of the chunk data and its terminator
  have hfront : d = (text l.readBuffer).take m ++ d.drop m := by
    have htake := congrArg (List.take m) hahead
    rw [Link.ahead, List.take_append_of_le_length (by rw [length_text]; omega),
      List.append_assoc, List.take_append_of_le_length (by omega)] at htake
    rw [htake, List.take_append_drop]
  refine h.write (w := ⟨_, len, size, rem - UInt64.ofNat m⟩) (q := d.drop m ++ r)
    (Nat.min_le_right _ _) (by omega) ?_ rfl (fun b => ?_) ?_
  · rw [← List.append_assoc, ← hfront, hahead]
  · by_cases hz : rem - UInt64.ofNat m = 0
    · rw [if_pos hz]; trivial
    · rw [if_neg hz]; exact one_le_toNat hz
  · have hdrop : (d.drop m).length = (rem - UInt64.ofNat m).toNat := by
      rw [List.length_drop, hd, hrem]
    by_cases hz : rem - UInt64.ofNat m = 0
    · rw [if_pos hz]
      rw [hz] at hdrop
      rw [List.length_eq_zero_iff.mp hdrop]
      exact hr
    · rw [if_neg hz]
      exact ⟨_, r, rfl, hdrop, hr⟩

theorem complete_forwardTrailers (h : Complete R ⟨.forwardTrailers, len, size, rem⟩ l) :
    ∃ r t, forwardChunkedStep ⟨.forwardTrailers, len, size, rem⟩ l = .ok r t ∧
      Progress R ⟨.forwardTrailers, len, size, rem⟩ l r t := by
  obtain ⟨p, hp, hahead⟩ := h.ahead
  replace hp : Trailers p := hp
  cases hk : findCrlf (text l.readBuffer) with
  | none =>
    simp only [forwardChunkedStep, bind_ok (get_run l), hk]
    have hne := stream_ne_nil_of_crlf hahead hk (exists_crlf_of_trailers hp R)
    exact h.read (fun _ _ h => h) hne fun n hn => rfl
  | some k =>
    simp only [forwardChunkedStep, bind_ok (get_run l), hk]
    obtain ⟨q, rfl, hq⟩ := trailers_front hp hk hahead.symm
    have hle := findCrlf_add_two_le hk
    rw [length_text] at hle
    refine h.write (w := ⟨if k = 0 then .completed else .forwardTrailers, len, size, rem⟩) hle
      (by omega) hahead rfl (fun b => ?_) ?_
    · by_cases h0 : k = 0
      · rw [if_pos h0]; trivial
      · rw [if_neg h0]; trivial
    · by_cases h0 : k = 0
      · rw [if_pos h0] at hq ⊢; exact hq
      · rw [if_neg h0] at hq ⊢; exact hq

end States

/-- One iteration of a complete run makes progress. -/
theorem forwardChunkedStep_complete {R : Bytes} {v : ChunkedVars} {l : Link} (h : Complete R v l) :
    ∃ r t, forwardChunkedStep v l = .ok r t ∧ Progress R v l r t := by
  rcases v with ⟨state, len, size, rem⟩
  cases state with
  | readChunkSizeLine => exact complete_readChunkSizeLine h
  | parseChunkSizeLine => exact complete_parseChunkSizeLine h
  | forwardChunkSizeLine => exact complete_forwardChunkSizeLine h
  | forwardChunkDataWithCrlf => exact complete_forwardChunkDataWithCrlf h
  | forwardTrailers => exact complete_forwardTrailers h
  | completed =>
    obtain ⟨p, hp, hahead⟩ := h.ahead
    obtain rfl : p = [] := hp
    exact ⟨.inr true, l, rfl, rfl, hahead⟩

/-- **`ForwardChunked` is complete**: on a stream that starts with a framed body it returns `true`
within `chunkedMeasure + 1` iterations, and leaves exactly what follows the body. -/
theorem forwardChunked_total {ts : List Bytes} {B R : Bytes} (hB : Framed maxChunkSize ts B)
    {l : Link} (hsrc : l.fromPeer.Delivers) (htgt : l.targetPeer.WritesOk)
    (hahead : l.ahead = B ++ R) :
    ∃ N, ∀ fuel, N < fuel → ∃ l', forwardChunked fuel l = .ok true l' ∧ l'.ahead = R := by
  refine ⟨chunkedMeasure ⟨.readChunkSizeLine, 0, 0, 0⟩ l, fun fuel hfuel => ?_⟩
  have hstart : Complete R ⟨.readChunkSizeLine, 0, 0, 0⟩ l :=
    ⟨hsrc, htgt, trivial, B, ⟨ts, hB⟩, hahead⟩
  have hrun : ∃ ok l', forwardChunked fuel l = .ok ok l' ∧ ok = true ∧ l'.ahead = R :=
    whileLoop_total (Complete R) chunkedMeasure (fun _ _ h => forwardChunkedStep_complete h) fuel
      ⟨.readChunkSizeLine, 0, 0, 0⟩ l hstart hfuel
  obtain ⟨ok, l', hr, rfl, hl'⟩ := hrun
  exact ⟨l', hr, hl'⟩

end ProxyPP.Http
