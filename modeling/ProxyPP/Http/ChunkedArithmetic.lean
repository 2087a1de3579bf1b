import ProxyPP.Http.Chunked
import ProxyPP.Http.ChunkSizeLine

/-!
# ProxyPP.Http.ChunkedArithmetic — the 64-bit arithmetic of `ForwardChunked`

`forwardChunkedUnboundedStep` is the machine over `ℕ`: it gives up on a size line whose value does
not fit in 64 bits, and behind a size line that leaves no room for the two bytes of the terminator.
The machine over `size_t` is this one up to `ChunkedVars.unbounded`, iteration by iteration
(`forwardChunkedStep_unbounded`), so its runs are the same runs.

`InChunk` is a run of the machine inside one chunk.  All along, `chunk_bytes_remaining` is what the
target has not yet accepted of `chunk_size + 2` (`InChunk.remaining`).
-/

namespace ProxyPP.Http

open ProxyPP ProxyPP.Lib ProxyPP.Http.Details

/-! ## The machine over unbounded numbers -/

/-- `parseChunkSizeLine` without an overflow test. -/
def Details.parseChunkSizeLineUnbounded (line : Bytes) : Option ℕ :=
  if cr ∈ line ∨ lf ∈ line then none
  else
    let sizeText := line.takeWhile (fun ch => ch ≠ 59)
    if sizeText = [] then none else accumulateUnbounded (trimTrailingOws sizeText) 0

/-- The local variables of `ForwardChunked`, without bounds. -/
structure UnboundedVars where
  state : ChunkedState
  chunkSizeLineLength : ℕ
  chunkSize : ℕ
  chunkBytesRemaining : ℕ
  deriving DecidableEq, Repr

/-- One iteration of the loop over unbounded numbers. -/
def forwardChunkedUnboundedStep (v : UnboundedVars) : EStateM Stop Link (UnboundedVars ⊕ Bool) :=
  match v.state with
  | .readChunkSizeLine => do
    let l ← get
    match findCrlf (text l.readBuffer) with
    | some crlfPos =>
      pure (.inl { v with chunkSizeLineLength := crlfPos, state := .parseChunkSizeLine })
    | none =>
      match ← readSomeFromPeer with
      | none => pure (.inr false)
      | some readResult => if readResult.bytesRead = 0 then pure (.inr false) else pure (.inl v)
  | .parseChunkSizeLine => do
    let l ← get
    match parseChunkSizeLineUnbounded
        (bufferPrefixToString (text l.readBuffer) v.chunkSizeLineLength) with
    | some chunkBodySize =>
      if chunkBodySize ≥ 2 ^ 64 then pure (.inr false)
      else pure (.inl { v with chunkSize := chunkBodySize, state := .forwardChunkSizeLine })
    | none => pure (.inr false)
  | .forwardChunkSizeLine => do
    match ← writeToPeer (v.chunkSizeLineLength + 2) with
    | none => pure (.inr false)
    | some _ =>
      if v.chunkSize = 0 then pure (.inl { v with state := .forwardTrailers })
      else if v.chunkSize > 2 ^ 64 - 3 then pure (.inr false)
      else pure (.inl { v with
        chunkBytesRemaining := v.chunkSize + 2, state := .forwardChunkDataWithCrlf })
  | .forwardChunkDataWithCrlf => do
    let l ← get
    if l.readBuffer.length = 0 then
      match ← readSomeFromPeer with
      | none => pure (.inr false)
      | some _ => pure (.inl v)
    else
      match ← writeToPeer (min v.chunkBytesRemaining l.readBuffer.length) with
      | none => pure (.inr false)
      | some bytesWritten =>
        let remaining := v.chunkBytesRemaining - bytesWritten
        pure (.inl { v with
          chunkBytesRemaining := remaining
          state := if remaining = 0 then .readChunkSizeLine else .forwardChunkDataWithCrlf })
  | .forwardTrailers => do
    let l ← get
    match findCrlf (text l.readBuffer) with
    | none =>
      match ← readSomeFromPeer with
      | none => pure (.inr false)
      | some _ => pure (.inl v)
    | some trailerLineLength =>
      match ← writeToPeer (trailerLineLength + 2) with
      | none => pure (.inr false)
      | some _ =>
        pure (.inl { v with
          state := if trailerLineLength = 0 then .completed else .forwardTrailers })
  | .completed => pure (.inr true)

def forwardChunkedUnbounded (fuel : ℕ) : EStateM Stop Link Bool :=
  whileLoop .outOfFuel forwardChunkedUnboundedStep fuel ⟨.readChunkSizeLine, 0, 0, 0⟩

/-! ## The two machines agree -/

def ChunkedVars.unbounded (v : ChunkedVars) : UnboundedVars :=
  ⟨v.state, v.chunkSizeLineLength, v.chunkSize.toNat, v.chunkBytesRemaining.toNat⟩

/-- A size line is accepted with its value over `ℕ`, if this fits in 64 bits. -/
theorem parseChunkSizeLine_unbounded (line : Bytes) : parseChunkSizeLine line =
    (parseChunkSizeLineUnbounded line).bind
      fun n => if n < 2 ^ 64 then some (UInt64.ofNat n) else none := by
  rw [parseChunkSizeLine, parseChunkSizeLineUnbounded]
  by_cases hline : cr ∈ line ∨ lf ∈ line
  · rw [if_pos hline, if_pos hline]
    rfl
  rw [if_neg hline, if_neg hline]
  dsimp only
  by_cases hempty : line.takeWhile (fun ch => decide (ch ≠ 59)) = []
  · rw [if_pos hempty, if_pos hempty]
    rfl
  · rw [if_neg hempty, if_neg hempty, accumulateSize_eq]
    rfl

theorem toNat_eq_zero_iff {n : UInt64} : n.toNat = 0 ↔ n = 0 := by
  refine ⟨fun h => UInt64.toNat_inj.mp h, ?_⟩
  rintro rfl
  rfl

theorem gt_maxChunkSize_iff {n : UInt64} : n > sizeMax - 2 ↔ n.toNat > 2 ^ 64 - 3 := by
  have h2 : (sizeMax - 2).toNat = 2 ^ 64 - 3 := by decide
  rw [gt_iff_lt, UInt64.lt_iff_toNat_lt, h2]

/-- A write that succeeded has written what it was asked to write. -/
theorem writeToPeer_some {l l' : Link} {n k : ℕ} (h : writeToPeer n l = .ok (some k) l') :
    k = n ∧ n ≤ l.readBuffer.length ∧
      l'.targetPeer.sentOctets = l.targetPeer.sentOctets ++ l.readBuffer.take n := by
  obtain ⟨hk, hn, -, hm⟩ := (writeToPeer_ends l n fun _ _ => True).ok h
  exact ⟨hk, hn, hm.sentOctets⟩

/-- **One iteration.**  No operation on `size_t` wraps. -/
theorem forwardChunkedStep_unbounded (v : ChunkedVars) :
    forwardChunkedUnboundedStep v.unbounded
      = Sum.map ChunkedVars.unbounded id <$> forwardChunkedStep v := by
  funext l
  rcases v with ⟨state, len, size, rem⟩
  cases state with
  | readChunkSizeLine =>
    refine bind_eq_map_bind fun l₁ t _ => ?_
    cases findCrlf (text l₁.readBuffer) with
    | some k => rfl
    | none =>
      refine bind_eq_map_bind fun r u _ => ?_
      rcases r with _ | res
      · rfl
      · by_cases h0 : res.bytesRead = 0
        · simp only [if_pos h0]
          rfl
        · simp only [if_neg h0]
          rfl
  | parseChunkSizeLine =>
    refine bind_eq_map_bind fun l₁ t _ => ?_
    dsimp only [ChunkedVars.unbounded]
    rw [parseChunkSizeLine_unbounded]
    cases parseChunkSizeLineUnbounded (bufferPrefixToString (text l₁.readBuffer) len) with
    | none => rfl
    | some n =>
      by_cases hlt : n < 2 ^ 64
      · have hn : (UInt64.ofNat n).toNat = n := by
          rw [UInt64.toNat_ofNat', Nat.mod_eq_of_lt hlt]
        simp only [Option.bind_some, if_pos hlt, if_neg (Nat.not_le.mpr hlt)]
        rw [map_run, pure_run]
        simp only [pure_run, Sum.map_inl, ChunkedVars.unbounded, hn]
      · simp only [Option.bind_some, if_neg hlt, if_pos (Nat.le_of_not_lt hlt)]
        rfl
  | forwardChunkSizeLine =>
    refine bind_eq_map_bind fun r t _ => ?_
    rcases r with _ | k
    · rfl
    by_cases h0 : size = 0
    · subst h0
      rfl
    have h0' : ¬ (ChunkedVars.unbounded ⟨.forwardChunkSizeLine, len, size, rem⟩).chunkSize = 0 :=
      fun h => h0 (toNat_eq_zero_iff.mp h)
    by_cases hmax : size > sizeMax - 2
    · have hmax' : (ChunkedVars.unbounded ⟨.forwardChunkSizeLine, len, size, rem⟩).chunkSize
          > 2 ^ 64 - 3 := gt_maxChunkSize_iff.mp hmax
      simp only [if_neg h0, if_neg h0', if_pos hmax, if_pos hmax']
      rfl
    · have hmax' : ¬ (ChunkedVars.unbounded ⟨.forwardChunkSizeLine, len, size, rem⟩).chunkSize
          > 2 ^ 64 - 3 := fun h => hmax (gt_maxChunkSize_iff.mpr h)
      simp only [if_neg h0, if_neg h0', if_neg hmax, if_neg hmax']
      rw [map_run, pure_run]
      simp only [pure_run, Sum.map_inl, ChunkedVars.unbounded,
        toNat_add_two (toNat_le_maxChunkSize hmax)]
  | forwardChunkDataWithCrlf =>
    refine bind_eq_map_bind fun l₁ t _ => ?_
    by_cases hempty : l₁.readBuffer.length = 0
    · simp only [if_pos hempty]
      refine bind_eq_map_bind fun r u _ => ?_
      rcases r with _ | res
      · rfl
      · rfl
    · simp only [if_neg hempty]
      refine bind_eq_map_bind fun r u hr => ?_
      rcases r with _ | k
      · rfl
      -- the bytes written are at most the bytes remaining
      obtain ⟨hk, -, -⟩ := writeToPeer_some hr
      replace hk : k = min rem.toNat l₁.readBuffer.length := hk
      have hrem : (rem - UInt64.ofNat k).toNat = rem.toNat - k := toNat_remaining (by omega)
      have hzero : rem - UInt64.ofNat k = 0 ↔ rem.toNat - k = 0 := by
        rw [← hrem, toNat_eq_zero_iff]
      show EStateM.Result.ok (Sum.inl (⟨if rem.toNat - k = 0 then .readChunkSizeLine
          else .forwardChunkDataWithCrlf, len, size.toNat, rem.toNat - k⟩ : UnboundedVars)) u
        = .ok (.inl ⟨if rem - UInt64.ofNat k = 0 then .readChunkSizeLine
          else .forwardChunkDataWithCrlf, len, size.toNat, (rem - UInt64.ofNat k).toNat⟩) u
      rw [hrem]
      simp only [hzero]
  | forwardTrailers =>
    refine bind_eq_map_bind fun l₁ t _ => ?_
    cases findCrlf (text l₁.readBuffer) with
    | none =>
      refine bind_eq_map_bind fun r u _ => ?_
      rcases r with _ | res
      · rfl
      · rfl
    | some k =>
      refine bind_eq_map_bind fun r u _ => ?_
      rcases r with _ | n
      · rfl
      · rfl
  | completed => rfl

theorem forwardChunked_unbounded (fuel : ℕ) : forwardChunked fuel = forwardChunkedUnbounded fuel :=
  (whileLoop_map forwardChunkedStep_unbounded fuel ⟨.readChunkSizeLine, 0, 0, 0⟩).symm

/-! ## Inside a chunk -/

/-- The loop of `ForwardChunked` started in `l₀` is at the head of an iteration in `v` and `l`. -/
abbrev AtHead (l₀ : Link) (v : ChunkedVars) (l : Link) : Prop :=
  Reaches forwardChunkedStep ⟨.readChunkSizeLine, 0, 0, 0⟩ l₀ v l

/-- From the head at which the size line of a chunk has just gone out, in `e`, the machine has made
iterations on the data of this chunk only and is now in `v` and `l`. -/
inductive InChunk (l₀ e : Link) : ChunkedVars → Link → Prop
  | enter {v w : ChunkedVars} {l : Link} : AtHead l₀ v l → v.state = .forwardChunkSizeLine →
      forwardChunkedStep v l = .ok (.inl w) e → w.state = .forwardChunkDataWithCrlf →
      InChunk l₀ e w e
  | next {v w : ChunkedVars} {l t : Link} : InChunk l₀ e v l →
      v.state = .forwardChunkDataWithCrlf → forwardChunkedStep v l = .ok (.inl w) t →
      InChunk l₀ e w t

/-- The number of bytes the target has accepted since `e`. -/
def forwardedSince (e l : Link) : ℕ :=
  l.targetPeer.sentOctets.length - e.targetPeer.sentOctets.length

/-- The bytes that the target accepts in an iteration on the data of a chunk. -/
theorem forwardChunkDataWithCrlf_inl {len : ℕ} {size rem : UInt64} {l t : Link} {w : ChunkedVars}
    (hpos : 0 < rem.toNat)
    (h : forwardChunkedStep ⟨.forwardChunkDataWithCrlf, len, size, rem⟩ l = .ok (.inl w) t) :
    ∃ n, n ≤ rem.toNat ∧ t.targetPeer.sentOctets.length = l.targetPeer.sentOctets.length + n ∧
      w.chunkSize = size ∧ w.chunkBytesRemaining.toNat = rem.toNat - n ∧
      w.state = if rem.toNat = n then .readChunkSizeLine else .forwardChunkDataWithCrlf := by
  simp only [forwardChunkedStep, bind_ok (get_run l)] at h
  by_cases hempty : l.readBuffer.length = 0
  · rw [if_pos hempty] at h
    obtain ⟨r, u, hr, h⟩ := bind_eq_ok.mp h
    rcases r with _ | res
    · cases h
    · cases h
      obtain ⟨rx, hm, -⟩ := (readSomeFromPeer_ends l).ok hr
      refine ⟨0, Nat.zero_le _, ?_, rfl, rfl, (if_neg hpos.ne').symm⟩
      rw [hm.sentOctets, List.append_nil, Nat.add_zero]
  · rw [if_neg hempty] at h
    obtain ⟨r, u, hr, h⟩ := bind_eq_ok.mp h
    rcases r with _ | k
    · cases h
    · cases h
      obtain ⟨rfl, hle, hsent⟩ := writeToPeer_some hr
      have hrem := @toNat_remaining rem (min rem.toNat l.readBuffer.length) (Nat.min_le_left _ _)
      refine ⟨_, Nat.min_le_left _ _, ?_, rfl, hrem, ?_⟩
      · rw [hsent, List.length_append, List.length_take, Nat.min_eq_left hle]
      · refine if_congr ?_ rfl rfl
        rw [← toNat_eq_zero_iff, hrem]
        omega

theorem forwardChunkSizeLine_inl {len : ℕ} {size rem : UInt64} {l t : Link} {w : ChunkedVars}
    (h : forwardChunkedStep ⟨.forwardChunkSizeLine, len, size, rem⟩ l = .ok (.inl w) t)
    (hw : w.state = .forwardChunkDataWithCrlf) :
    w.chunkSize.toNat ≤ maxChunkSize ∧ w.chunkBytesRemaining.toNat = w.chunkSize.toNat + 2 := by
  obtain ⟨r, u, hr, h⟩ := bind_eq_ok.mp h
  rcases r with _ | k
  · cases h
  by_cases h0 : size = 0
  · simp only [if_pos h0] at h
    cases h
    cases hw
  by_cases hmax : size > sizeMax - 2
  · simp only [if_neg h0, if_pos hmax] at h
    cases h
  · simp only [if_neg h0, if_neg hmax] at h
    cases h
    have hle := toNat_le_maxChunkSize hmax
    exact ⟨hle, toNat_add_two hle⟩

/-- What is known at every head inside a chunk. -/
structure ChunkCount (e : Link) (v : ChunkedVars) (l : Link) : Prop where
  size : v.chunkSize.toNat ≤ maxChunkSize
  sent : e.targetPeer.sentOctets.length ≤ l.targetPeer.sentOctets.length
  remaining : v.chunkBytesRemaining.toNat + forwardedSince e l = v.chunkSize.toNat + 2
  state : v.state =
    if v.chunkBytesRemaining.toNat = 0 then .readChunkSizeLine else .forwardChunkDataWithCrlf

theorem ChunkCount.pos {e l : Link} {v : ChunkedVars} (h : ChunkCount e v l)
    (hv : v.state = .forwardChunkDataWithCrlf) : 0 < v.chunkBytesRemaining.toNat := by
  rcases Nat.eq_zero_or_pos v.chunkBytesRemaining.toNat with h0 | h0
  · have hstate := h.state
    rw [if_pos h0, hv] at hstate
    cases hstate
  · exact h0

/-- **Inside a chunk** the remaining count is exact, and zero exactly behind the chunk. -/
theorem InChunk.count {l₀ e l : Link} {v : ChunkedVars} (h : InChunk l₀ e v l) :
    ChunkCount e v l := by
  induction h with
  | @enter v w l _ hv hr hw =>
    rcases v with ⟨state, len, size, rem⟩
    obtain rfl : state = .forwardChunkSizeLine := hv
    obtain ⟨hle, hrem⟩ := forwardChunkSizeLine_inl hr hw
    refine ⟨hle, le_refl _, ?_, ?_⟩
    · rw [forwardedSince, Nat.sub_self, Nat.add_zero, hrem]
    · rw [if_neg (by omega), hw]
  | @next v w l t _ hv hr ih =>
    rcases v with ⟨state, len, size, rem⟩
    obtain rfl : state = .forwardChunkDataWithCrlf := hv
    have hpos : 0 < rem.toNat := ih.pos rfl
    obtain ⟨hsize, hsent, hrem, -⟩ := ih
    obtain ⟨n, hn, hsent', hsize', hrem', hstate'⟩ := forwardChunkDataWithCrlf_inl hpos hr
    have hrem₀ : rem.toNat + forwardedSince e l = size.toNat + 2 := hrem
    rw [forwardedSince] at hrem₀
    refine ⟨hsize' ▸ hsize, by omega, ?_, ?_⟩
    · rw [forwardedSince, hsize', hrem']
      omega
    · rw [hstate', hrem']
      exact if_congr (by omega) rfl rfl

/-- The data state is entered from the state that forwards the size line, and left only behind the
chunk. -/
theorem forwardChunkedStep_data {v w : ChunkedVars} {l t : Link}
    (h : forwardChunkedStep v l = .ok (.inl w) t) (hw : w.state = .forwardChunkDataWithCrlf) :
    v.state = .forwardChunkSizeLine ∨ v.state = .forwardChunkDataWithCrlf := by
  rcases v with ⟨state, len, size, rem⟩
  cases state with
  | forwardChunkSizeLine => exact Or.inl rfl
  | forwardChunkDataWithCrlf => exact Or.inr rfl
  | readChunkSizeLine =>
    simp only [forwardChunkedStep, bind_ok (get_run l)] at h
    cases hk : findCrlf (text l.readBuffer) with
    | some k =>
      rw [hk] at h
      cases h
      cases hw
    | none =>
      rw [hk] at h
      obtain ⟨r, u, hr, h⟩ := bind_eq_ok.mp h
      rcases r with _ | res
      · cases h
      · by_cases h0 : res.bytesRead = 0
        · simp only [if_pos h0] at h
          cases h
        · simp only [if_neg h0] at h
          cases h
          cases hw
  | parseChunkSizeLine =>
    simp only [forwardChunkedStep, bind_ok (get_run l)] at h
    cases hp : parseChunkSizeLine (bufferPrefixToString (text l.readBuffer) len) with
    | some n =>
      rw [hp] at h
      cases h
      cases hw
    | none =>
      rw [hp] at h
      cases h
  | forwardTrailers =>
    simp only [forwardChunkedStep, bind_ok (get_run l)] at h
    cases hk : findCrlf (text l.readBuffer) with
    | none =>
      rw [hk] at h
      obtain ⟨r, u, hr, h⟩ := bind_eq_ok.mp h
      rcases r with _ | res
      · cases h
      · cases h
        cases hw
    | some k =>
      rw [hk] at h
      obtain ⟨r, u, hr, h⟩ := bind_eq_ok.mp h
      rcases r with _ | n
      · cases h
      · cases h
        by_cases h0 : k = 0
        · rw [if_pos h0] at hw
          cases hw
        · rw [if_neg h0] at hw
          cases hw
  | completed => cases h

/-- Every head in the data state is inside a chunk. -/
theorem AtHead.inChunk {l₀ l : Link} {v : ChunkedVars} (h : AtHead l₀ v l)
    (hv : v.state = .forwardChunkDataWithCrlf) : ∃ e, InChunk l₀ e v l := by
  induction h with
  | start => cases hv
  | @next v w l t hreach hr ih =>
    rcases forwardChunkedStep_data hr hv with hstate | hstate
    · exact ⟨t, .enter hreach hstate hr hv⟩
    · obtain ⟨e, he⟩ := ih hstate
      exact ⟨e, he.next hstate hr⟩

/-- The arithmetic of a chunk entered in `e`, at a head in `v` and `l`: what remains is what is not
yet forwarded of the data and the terminator, no write exceeds it, and an iteration leaves the data
state exactly when all is forwarded. -/
structure ChunkArithmetic (e : Link) (v : ChunkedVars) (l : Link) : Prop where
  sent : e.targetPeer.sentOctets.length ≤ l.targetPeer.sentOctets.length
  remaining : v.chunkBytesRemaining.toNat + forwardedSince e l = v.chunkSize.toNat + 2
  noUnderflow : ∀ k t, writeToPeer (min v.chunkBytesRemaining.toNat l.readBuffer.length) l
    = .ok (some k) t → k ≤ v.chunkBytesRemaining.toNat
  left : ∀ w t, forwardChunkedStep v l = .ok (.inl w) t →
    (w.state ≠ .forwardChunkDataWithCrlf ↔ forwardedSince e t = v.chunkSize.toNat + 2)

theorem InChunk.arithmetic {l₀ e l : Link} {v : ChunkedVars} (h : InChunk l₀ e v l)
    (hv : v.state = .forwardChunkDataWithCrlf) : ChunkArithmetic e v l := by
  refine ⟨h.count.sent, h.count.remaining, fun k t hr => ?_, fun w t hr => ?_⟩
  · rw [(writeToPeer_some hr).1]
    exact Nat.min_le_left _ _
  · obtain ⟨-, -, hrem, hstate⟩ := (h.next hv hr).count
    have hpos := h.count.pos hv
    have hsize : w.chunkSize = v.chunkSize := by
      rcases v with ⟨state, len, size, rem⟩
      obtain rfl : state = .forwardChunkDataWithCrlf := hv
      obtain ⟨-, -, -, hsize, -⟩ := forwardChunkDataWithCrlf_inl hpos hr
      exact hsize
    rw [hsize] at hrem
    by_cases h0 : w.chunkBytesRemaining.toNat = 0
    · rw [if_pos h0] at hstate
      rw [hstate]
      exact ⟨fun _ => by omega, fun _ => by decide⟩
    · rw [if_neg h0] at hstate
      rw [hstate]
      exact ⟨fun hne => absurd rfl hne, fun hall => by omega⟩

/-- **Chunk arithmetic never wraps.**  The runs are those of the machine over unbounded numbers, and
inside a chunk the remaining count is exact. -/
theorem forwardChunked_never_wraps (l₀ : Link) :
    (∀ fuel, forwardChunked fuel l₀ = forwardChunkedUnbounded fuel l₀) ∧
    ∀ v l, AtHead l₀ v l → v.state = .forwardChunkDataWithCrlf →
      ∃ e, InChunk l₀ e v l ∧ ChunkArithmetic e v l := by
  refine ⟨fun fuel => by rw [forwardChunked_unbounded], fun v l h hv => ?_⟩
  obtain ⟨e, he⟩ := h.inChunk hv
  exact ⟨e, he, he.arithmetic hv⟩

end ProxyPP.Http
