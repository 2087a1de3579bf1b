import ProxyPP.Http.Truncation

/-!
# ProxyPP.Http.ChunkedTruncation — `ForwardChunked` on a stream that ends

`CutInside stream`: the stream ends behind a size line but in front of the end of what this line
announces, that is in the data of a chunk, in the two bytes behind it, or in the trailers.  There
`ForwardChunked` takes the result of a read at EOF for a successful one and reads again, for ever
(`forwardChunked_spins`).  On every other stream that ends it returns, with `false` unless the
stream starts with a whole body (`forwardChunked_returns_iff`).
-/

namespace ProxyPP.Http

open ProxyPP ProxyPP.Lib ProxyPP.Http.Details

/-! ## Streams that end too early -/

/-- Trailer lines without the empty line that closes them. -/
inductive OpenTrailers : Bytes → Prop
  | last {l : Bytes} : ¬ crlf <:+: l → OpenTrailers l
  | line {l r : Bytes} : l ≠ [] → ¬ crlf <:+: l → OpenTrailers r → OpenTrailers (l ++ crlf ++ r)

/-- The stream ends inside a chunk or inside the trailers. -/
inductive CutInside : Bytes → Prop
  | data {line d : Bytes} {n : UInt64} : parseChunkSizeLine line = some n → 1 ≤ n.toNat →
      n.toNat ≤ maxChunkSize → d.length < n.toNat + 2 → CutInside (line ++ crlf ++ d)
  | trailers {line d : Bytes} : parseChunkSizeLine line = some 0 → OpenTrailers d →
      CutInside (line ++ crlf ++ d)
  | chunk {line d r : Bytes} {n : UInt64} : parseChunkSizeLine line = some n → 1 ≤ n.toNat →
      n.toNat ≤ maxChunkSize → d.length = n.toNat + 2 → CutInside r →
      CutInside (line ++ crlf ++ (d ++ r))

/-- What a size line announces does not fit in `q`. -/
def CutBehind (n : UInt64) (q : Bytes) : Prop :=
  n = 0 ∧ OpenTrailers q ∨ 1 ≤ n.toNat ∧ n.toNat ≤ maxChunkSize ∧
    (q.length < n.toNat + 2 ∨ ∃ d r, q = d ++ r ∧ d.length = n.toNat + 2 ∧ CutInside r)

theorem cutInside_line_iff {line q : Bytes} (hline : findCrlf line = none) :
    CutInside (line ++ crlf ++ q) ↔ ∃ n, parseChunkSizeLine line = some n ∧ CutBehind n q := by
  constructor
  · intro h
    generalize hp : line ++ crlf ++ q = p at h
    cases h with
    | data hparse h1 hmax hlen =>
      obtain ⟨rfl, rfl⟩ := line_unique hline (findCrlf_of_parseChunkSizeLine hparse) hp
      exact ⟨_, hparse, Or.inr ⟨h1, hmax, Or.inl hlen⟩⟩
    | trailers hparse htr =>
      obtain ⟨rfl, rfl⟩ := line_unique hline (findCrlf_of_parseChunkSizeLine hparse) hp
      exact ⟨0, hparse, Or.inl ⟨rfl, htr⟩⟩
    | chunk hparse h1 hmax hlen hr =>
      obtain ⟨rfl, rfl⟩ := line_unique hline (findCrlf_of_parseChunkSizeLine hparse) hp
      exact ⟨_, hparse, Or.inr ⟨h1, hmax, Or.inr ⟨_, _, rfl, hlen, hr⟩⟩⟩
  · rintro ⟨n, hparse, ⟨rfl, htr⟩ | ⟨h1, hmax, hlen | ⟨d, r, rfl, hlen, hr⟩⟩⟩
    · exact CutInside.trailers hparse htr
    · exact CutInside.data hparse h1 hmax hlen
    · exact CutInside.chunk hparse h1 hmax hlen hr

theorem openTrailers_line_iff {line q : Bytes} (hline : findCrlf line = none) :
    OpenTrailers (line ++ crlf ++ q) ↔ line ≠ [] ∧ OpenTrailers q := by
  constructor
  · intro h
    generalize hp : line ++ crlf ++ q = p at h
    cases h with
    | last hno => exact absurd ⟨line, q, hp⟩ hno
    | line hne hno htr =>
      obtain ⟨rfl, rfl⟩ := line_unique hline (findCrlf_eq_none_iff.mpr hno) hp
      exact ⟨hne, htr⟩
  · rintro ⟨hne, htr⟩
    exact OpenTrailers.line hne (findCrlf_eq_none_iff.mp hline) htr

theorem CutInside.exists_crlf {p : Bytes} (h : CutInside p) : ∃ k, findCrlf p = some k := by
  cases h with
  | data hparse => exact ⟨_, findCrlf_line (findCrlf_of_parseChunkSizeLine hparse) _⟩
  | trailers hparse => exact ⟨_, findCrlf_line (findCrlf_of_parseChunkSizeLine hparse) _⟩
  | chunk hparse => exact ⟨_, findCrlf_line (findCrlf_of_parseChunkSizeLine hparse) _⟩

/-! ## The iterations -/

/-- The bytes ahead in loop state `v` end too early. -/
def CutFor (v : ChunkedVars) (p : Bytes) : Prop :=
  match v.state with
  | .readChunkSizeLine | .parseChunkSizeLine | .forwardChunkSizeLine => CutInside p
  | .forwardChunkDataWithCrlf => p.length < v.chunkBytesRemaining.toNat ∨
      ∃ d r, p = d ++ r ∧ d.length = v.chunkBytesRemaining.toNat ∧ CutInside r
  | .forwardTrailers => OpenTrailers p
  | .completed => False

/-- What an iteration does on a stream that ends: it leaves the loop only where the stream does not
end too early, it keeps whether it does, and it makes progress if it does not. -/
def Advances (v : ChunkedVars) (l : Link) (r : ChunkedVars ⊕ Bool) (t : Link) : Prop :=
  Sum.elim (fun v' => t.Finite ∧ Located v' (text t.readBuffer) ∧
      (CutFor v' t.ahead ↔ CutFor v l.ahead) ∧
      (CutFor v l.ahead ∨ chunkedMeasure v' t < chunkedMeasure v l))
    (fun _ => ¬ CutFor v l.ahead) r

section Operations

variable {v : ChunkedVars} {l : Link}

/-- A read in a state whose `Located` does not depend on the buffer. -/
theorem Advances.read (h : l.Finite) (hloc : Located v (text l.readBuffer))
    (hany : ∀ b b', Located v b → Located v b')
    {m : Option ReadSomeResult → EStateM Stop Link (ChunkedVars ⊕ Bool)}
    (hdata : ∀ n, 0 < n → m (some ⟨n, false⟩) = pure (.inl v))
    (heof : l.fromPeer.stream = [] → ∃ r, m (some ⟨0, true⟩) = pure r ∧ Advances v l r l) :
    ∃ r t, (readSomeFromPeer >>= m) l = .ok r t ∧ Advances v l r t := by
  by_cases hs : l.fromPeer.stream = []
  · obtain ⟨r, hm, hadv⟩ := heof hs
    refine ⟨r, l, ?_, hadv⟩
    rw [bind_ok (readSomeFromPeer_eof h.source hs), hm]
    rfl
  · obtain ⟨n, l', hn, hr, hahead, hfin, -, hlt⟩ := readSomeFromPeer_more h hs
    refine ⟨.inl v, l', ?_, hfin, hany _ _ hloc, by rw [hahead], Or.inr ?_⟩
    · rw [bind_ok hr, hdata n hn]
      rfl
    · show 3 * _ + _ < 3 * _ + _
      rw [hahead]
      omega

/-- A write of the front of the buffer. -/
theorem Advances.write (h : l.Finite) {n : ℕ} (hn : n ≤ l.readBuffer.length) (hpos : 0 < n)
    {m : Option ℕ → EStateM Stop Link (ChunkedVars ⊕ Bool)} {r : ChunkedVars ⊕ Bool}
    (hm : m (some n) = pure r)
    (hnext : ∀ q, l.ahead = (text l.readBuffer).take n ++ q →
      Sum.elim (fun w => (∀ b, Located w b) ∧ (CutFor w q ↔ CutFor v l.ahead))
        (fun _ => ¬ CutFor v l.ahead) r) :
    ∃ r t, (writeToPeer n >>= m) l = .ok r t ∧ Advances v l r t := by
  obtain ⟨l', hr, hfin, hfrom, hahead⟩ := writeToPeer_finite h hn
  refine ⟨r, l', ?_, ?_⟩
  · rw [bind_ok hr, hm]
    rfl
  have hq := hnext l'.ahead hahead
  rcases r with w | ok
  · obtain ⟨hloc, hcut⟩ := hq
    refine ⟨hfin, hloc _, hcut, Or.inr ?_⟩
    have hlen := congrArg List.length hahead
    rw [List.length_append, List.length_take, length_text] at hlen
    have hrank : stateRank w.state ≤ 2 := by cases w.state <;> decide
    show 3 * _ + _ < 3 * _ + _
    rw [hfrom]
    omega
  · exact hq

/-- The line at the front of what is ahead, once its end is in the buffer. -/
theorem ahead_line {k : ℕ} (hk : findCrlf (text l.readBuffer) = some k) :
    ∃ q, l.ahead = (text l.readBuffer).take k ++ crlf ++ q := by
  refine ⟨(text l.readBuffer).drop (k + 2) ++ l.fromPeer.stream, ?_⟩
  rw [← (findCrlf_cut hk).2, ← List.append_assoc, List.take_append_drop]
  rfl

end Operations

section States

variable {l : Link} {len : ℕ} {size rem : UInt64}

theorem advances_readChunkSizeLine (h : l.Finite) :
    ∃ r t, forwardChunkedStep ⟨.readChunkSizeLine, len, size, rem⟩ l = .ok r t ∧
      Advances ⟨.readChunkSizeLine, len, size, rem⟩ l r t := by
  cases hk : findCrlf (text l.readBuffer) with
  | some k =>
    simp only [forwardChunkedStep, bind_ok (get_run l), hk]
    exact ⟨.inl _, l, rfl, h, hk, Iff.rfl, Or.inr (Nat.lt_succ_self _)⟩
  | none =>
    simp only [forwardChunkedStep, bind_ok (get_run l), hk]
    refine Advances.read (v := ⟨.readChunkSizeLine, len, size, rem⟩) h trivial (fun _ _ h => h)
      (fun n hn => if_neg hn.ne') fun hs => ?_
    refine ⟨.inr false, if_pos rfl, fun hcut => ?_⟩
    -- at EOF, without a line in the buffer
    obtain ⟨k, hk'⟩ := CutInside.exists_crlf hcut
    rw [Link.ahead, hs, List.append_nil, hk] at hk'
    cases hk'

theorem advances_parseChunkSizeLine (h : l.Finite)
    (hk : findCrlf (text l.readBuffer) = some len) :
    ∃ r t, forwardChunkedStep ⟨.parseChunkSizeLine, len, size, rem⟩ l = .ok r t ∧
      Advances ⟨.parseChunkSizeLine, len, size, rem⟩ l r t := by
  simp only [forwardChunkedStep, bind_ok (get_run l), bufferPrefixToString_of_findCrlf hk]
  cases hparse : parseChunkSizeLine ((text l.readBuffer).take len) with
  | some n => exact ⟨.inl _, l, rfl, h, ⟨hk, hparse⟩, Iff.rfl, Or.inr (Nat.lt_succ_self _)⟩
  | none =>
    refine ⟨.inr false, l, rfl, fun hcut => ?_⟩
    replace hcut : CutInside l.ahead := hcut
    obtain ⟨q, hq⟩ := ahead_line hk
    rw [hq, cutInside_line_iff (findCrlf_cut hk).1] at hcut
    obtain ⟨n, hn, -⟩ := hcut
    rw [hparse] at hn
    cases hn

theorem advances_forwardChunkSizeLine (h : l.Finite)
    (hk : findCrlf (text l.readBuffer) = some len)
    (hparse : parseChunkSizeLine ((text l.readBuffer).take len) = some size) :
    ∃ r t, forwardChunkedStep ⟨.forwardChunkSizeLine, len, size, rem⟩ l = .ok r t ∧
      Advances ⟨.forwardChunkSizeLine, len, size, rem⟩ l r t := by
  have hle := findCrlf_add_two_le hk
  rw [length_text] at hle
  -- what follows the line is cut as the line announces
  have hcut : ∀ q, l.ahead = (text l.readBuffer).take (len + 2) ++ q →
      (CutInside l.ahead ↔ CutBehind size q) := by
    intro q hq
    rw [hq, (findCrlf_cut hk).2, cutInside_line_iff (findCrlf_cut hk).1]
    refine ⟨fun ⟨n, hn, hb⟩ => ?_, fun hb => ⟨size, hparse, hb⟩⟩
    rw [hparse] at hn
    cases hn
    exact hb
  simp only [forwardChunkedStep]
  by_cases h0 : size = 0
  · subst h0
    refine Advances.write (r := .inl ⟨.forwardTrailers, len, 0, rem⟩) h hle (by omega) rfl ?_
    intro q hq
    refine ⟨fun _ => trivial, Iff.trans ?_ (hcut q hq).symm⟩
    refine ⟨fun htr => Or.inl ⟨rfl, htr⟩, ?_⟩
    rintro (⟨-, htr⟩ | ⟨h1, -⟩)
    · exact htr
    · exact absurd h1 (by decide)
  by_cases hmax : size > sizeMax - 2
  · refine Advances.write (r := .inr false) h hle (by omega) ?_ ?_
    · simp only [if_neg h0, if_pos hmax]
    · intro q hq hc
      have h2 : (sizeMax - 2).toNat = maxChunkSize := by decide
      have hgt := UInt64.lt_iff_toNat_lt.mp hmax
      rcases (hcut q hq).mp hc with ⟨rfl, -⟩ | ⟨-, hle', -⟩
      · exact h0 rfl
      · omega
  · have hsize := toNat_add_two (toNat_le_maxChunkSize hmax)
    refine Advances.write (r := .inl ⟨.forwardChunkDataWithCrlf, len, size, size + 2⟩) h hle
      (by omega) ?_ ?_
    · simp only [if_neg h0, if_neg hmax]
    · intro q hq
      refine ⟨fun _ => ?_, Iff.trans ?_ (hcut q hq).symm⟩
      · show 0 < (size + 2).toNat
        omega
      · show (q.length < (size + 2).toNat ∨ _) ↔ _
        rw [hsize]
        refine ⟨fun hq => Or.inr ⟨one_le_toNat h0, toNat_le_maxChunkSize hmax, hq⟩, ?_⟩
        rintro (⟨rfl, -⟩ | ⟨-, -, hq⟩)
        · exact absurd rfl h0
        · exact hq

/-- Taking bytes off the front of a chunk. -/
theorem cutFor_data {w rest : Bytes} {n : ℕ} (hw : w.length < n) :
    ((w ++ rest).length < n ∨ ∃ d r, w ++ rest = d ++ r ∧ d.length = n ∧ CutInside r) ↔
      (rest.length < n - w.length ∨
        ∃ d r, rest = d ++ r ∧ d.length = n - w.length ∧ CutInside r) := by
  have hlen : (w ++ rest).length < n ↔ rest.length < n - w.length := by
    rw [List.length_append]
    omega
  rw [hlen]
  refine or_congr Iff.rfl ⟨?_, ?_⟩
  · rintro ⟨d, r, heq, hd, hr⟩
    have hpre : w <+: d := List.prefix_of_prefix_length_le (List.prefix_append w rest)
      ⟨r, heq.symm⟩ (by omega)
    obtain ⟨d', rfl⟩ := hpre
    rw [List.append_assoc] at heq
    refine ⟨d', r, List.append_cancel_left heq, ?_, hr⟩
    rw [List.length_append] at hd
    omega
  · rintro ⟨d, r, rfl, hd, hr⟩
    refine ⟨w ++ d, r, (List.append_assoc ..).symm, ?_, hr⟩
    rw [List.length_append]
    omega

/-- Taking the whole chunk. -/
theorem cutFor_chunk {w rest : Bytes} {n : ℕ} (hw : w.length = n) :
    ((w ++ rest).length < n ∨ ∃ d r, w ++ rest = d ++ r ∧ d.length = n ∧ CutInside r) ↔
      CutInside rest := by
  constructor
  · rintro (hlt | ⟨d, r, heq, hd, hr⟩)
    · rw [List.length_append] at hlt
      omega
    · obtain ⟨rfl, rfl⟩ := List.append_inj heq (hw.trans hd.symm)
      exact hr
  · exact fun hr => Or.inr ⟨w, rest, rfl, hw, hr⟩

theorem advances_forwardChunkDataWithCrlf (h : l.Finite) (hpos : 0 < rem.toNat) :
    ∃ r t, forwardChunkedStep ⟨.forwardChunkDataWithCrlf, len, size, rem⟩ l = .ok r t ∧
      Advances ⟨.forwardChunkDataWithCrlf, len, size, rem⟩ l r t := by
  simp only [forwardChunkedStep, bind_ok (get_run l)]
  by_cases hempty : l.readBuffer.length = 0
  · rw [if_pos hempty]
    refine Advances.read (v := ⟨.forwardChunkDataWithCrlf, len, size, rem⟩) h hpos
      (fun _ _ h => h) (fun n hn => rfl) fun hs => ?_
    -- at EOF the same iteration comes again
    have hcut : CutFor ⟨.forwardChunkDataWithCrlf, len, size, rem⟩ l.ahead := by
      left
      rw [Link.ahead, hs, List.append_nil, length_text, hempty]
      exact hpos
    exact ⟨_, rfl, h, hpos, Iff.rfl, Or.inl hcut⟩
  rw [if_neg hempty]
  set m := min rem.toNat l.readBuffer.length with hm
  have hrem : (rem - UInt64.ofNat m).toNat = rem.toNat - m := toNat_remaining (Nat.min_le_left _ _)
  refine Advances.write (r := .inl ⟨_, len, size, rem - UInt64.ofNat m⟩) h (Nat.min_le_right _ _)
    (by omega) rfl fun q hq => ⟨fun b => ?_, ?_⟩
  · by_cases hz : rem - UInt64.ofNat m = 0
    · rw [if_pos hz]; trivial
    · rw [if_neg hz]; exact one_le_toNat hz
  · have htake : ((text l.readBuffer).take m).length = m := by
      rw [List.length_take, length_text]
      omega
    rw [hq]
    by_cases hz : rem - UInt64.ofNat m = 0
    · rw [if_pos hz]
      rw [hz] at hrem
      have h00 : (0 : UInt64).toNat = 0 := rfl
      have hall : ((text l.readBuffer).take m).length = rem.toNat := by omega
      exact (cutFor_chunk hall).symm
    · rw [if_neg hz]
      have hlt := one_le_toNat hz
      have hpart : ((text l.readBuffer).take m).length < rem.toNat := by omega
      have hdata := @cutFor_data _ q _ hpart
      rw [htake, ← hrem] at hdata
      exact hdata.symm

theorem advances_forwardTrailers (h : l.Finite) :
    ∃ r t, forwardChunkedStep ⟨.forwardTrailers, len, size, rem⟩ l = .ok r t ∧
      Advances ⟨.forwardTrailers, len, size, rem⟩ l r t := by
  cases hk : findCrlf (text l.readBuffer) with
  | none =>
    simp only [forwardChunkedStep, bind_ok (get_run l), hk]
    refine Advances.read (v := ⟨.forwardTrailers, len, size, rem⟩) h trivial (fun _ _ h => h)
      (fun n hn => rfl) fun hs => ?_
    -- at EOF the same iteration comes again
    have hcut : CutFor ⟨.forwardTrailers, len, size, rem⟩ l.ahead := by
      refine OpenTrailers.last (findCrlf_eq_none_iff.mp ?_)
      rw [Link.ahead, hs, List.append_nil, hk]
    exact ⟨_, rfl, h, trivial, Iff.rfl, Or.inl hcut⟩
  | some k =>
    simp only [forwardChunkedStep, bind_ok (get_run l), hk]
    have hle := findCrlf_add_two_le hk
    rw [length_text] at hle
    refine Advances.write
      (r := .inl ⟨if k = 0 then .completed else .forwardTrailers, len, size, rem⟩) h hle (by omega)
      rfl fun q hq => ⟨fun b => ?_, ?_⟩
    · by_cases h0 : k = 0
      · rw [if_pos h0]; trivial
      · rw [if_neg h0]; trivial
    · have hopen : CutFor ⟨.forwardTrailers, len, size, rem⟩ l.ahead ↔
          (text l.readBuffer).take k ≠ [] ∧ OpenTrailers q := by
        show OpenTrailers l.ahead ↔ _
        rw [hq, (findCrlf_cut hk).2]
        exact openTrailers_line_iff (findCrlf_cut hk).1
      have hlen : ((text l.readBuffer).take k).length = k := by
        rw [List.length_take, length_text]
        omega
      rw [hopen]
      by_cases h0 : k = 0
      · rw [if_pos h0, h0, List.take_zero]
        exact ⟨False.elim, fun h => h.1 rfl⟩
      · rw [if_neg h0]
        refine ⟨fun htr => ⟨fun hnil => h0 ?_, htr⟩, fun h => h.2⟩
        rw [← hlen, hnil]
        rfl

end States

/-- One iteration on a stream that ends. -/
theorem forwardChunkedStep_finite {v : ChunkedVars} {l : Link} (h : l.Finite)
    (hloc : Located v (text l.readBuffer)) :
    ∃ r t, forwardChunkedStep v l = .ok r t ∧ Advances v l r t := by
  rcases v with ⟨state, len, size, rem⟩
  cases state with
  | readChunkSizeLine => exact advances_readChunkSizeLine h
  | parseChunkSizeLine => exact advances_parseChunkSizeLine h hloc
  | forwardChunkSizeLine => exact advances_forwardChunkSizeLine h hloc.1 hloc.2
  | forwardChunkDataWithCrlf => exact advances_forwardChunkDataWithCrlf h hloc
  | forwardTrailers => exact advances_forwardTrailers h
  | completed => exact ⟨.inr true, l, rfl, fun hcut => hcut⟩

/-! ## Runs -/

/-- **A stream cut inside a chunk or inside the trailers.**  `ForwardChunked` never returns. -/
theorem forwardChunked_spins {l : Link} (h : l.Finite) (hcut : CutInside l.ahead) (fuel : ℕ) :
    ∃ l', forwardChunked fuel l = .error .outOfFuel l' := by
  have hstart : CutFor ⟨.readChunkSizeLine, 0, 0, 0⟩ l.ahead := hcut
  refine whileLoop_diverges (fun (v : ChunkedVars) (l₁ : Link) => l₁.Finite ∧
    Located v (text l₁.readBuffer) ∧ CutFor v l₁.ahead) ?_ fuel _ l ⟨h, trivial, hstart⟩
  rintro v l₁ ⟨hfin, hloc, hcut₁⟩
  obtain ⟨r, t, hr, hadv⟩ := forwardChunkedStep_finite hfin hloc
  rcases r with v' | ok
  · obtain ⟨hfin', hloc', hiff, -⟩ := hadv
    exact ⟨v', t, hr, hfin', hloc', hiff.mpr hcut₁⟩
  · exact absurd hcut₁ hadv

/-- On any other stream that ends it does. -/
theorem forwardChunked_returns {l : Link} (h : l.Finite) (hcut : ¬ CutInside l.ahead) :
    ∃ N, ∀ fuel, N < fuel → ∃ ok l', forwardChunked fuel l = .ok ok l' := by
  refine ⟨chunkedMeasure ⟨.readChunkSizeLine, 0, 0, 0⟩ l, fun fuel hfuel => ?_⟩
  have hrun : ∃ ok l', forwardChunked fuel l = .ok ok l' ∧ True := by
    have hstart : ¬ CutFor ⟨.readChunkSizeLine, 0, 0, 0⟩ l.ahead := hcut
    refine whileLoop_total (fun (v : ChunkedVars) (l₁ : Link) => l₁.Finite ∧
      Located v (text l₁.readBuffer) ∧ ¬ CutFor v l₁.ahead) chunkedMeasure ?_ fuel
      ⟨.readChunkSizeLine, 0, 0, 0⟩ l ⟨h, trivial, hstart⟩ hfuel
    rintro v l₁ ⟨hfin, hloc, hcut₁⟩
    obtain ⟨r, t, hr, hadv⟩ := forwardChunkedStep_finite hfin hloc
    refine ⟨r, t, hr, ?_⟩
    rcases r with v' | ok
    · obtain ⟨hfin', hloc', hiff, hprog⟩ := hadv
      exact ⟨⟨hfin', hloc', fun hc => hcut₁ (hiff.mp hc)⟩, hprog.resolve_left hcut₁⟩
    · trivial
  obtain ⟨ok, l', hr, -⟩ := hrun
  exact ⟨ok, l', hr⟩

/-- On this link `ForwardChunked` returns, and with `false` if the stream ends in front of the empty
line that closes a body. -/
structure ReturnsAtEof (l : Link) : Prop where
  returns : ∃ N, ∀ fuel, N < fuel → ∃ ok l', forwardChunked fuel l = .ok ok l'
  incomplete : (∀ ts body rest, l.ahead = body ++ rest → ¬ Framed maxChunkSize ts body) →
    ∀ fuel ok l', forwardChunked fuel l = .ok ok l' → ok = false

/-- **`ForwardChunked` ends on a stream that ends, exactly if the end does not fall inside a chunk
or inside the trailers.** -/
theorem forwardChunked_returns_iff (l : Link) (h : l.Finite) :
    ReturnsAtEof l ↔ ¬ CutInside l.ahead := by
  constructor
  · rintro ⟨⟨N, hN⟩, -⟩ hcut
    obtain ⟨ok, l', hr⟩ := hN (N + 1) (Nat.lt_succ_self N)
    obtain ⟨l'', hspin⟩ := forwardChunked_spins h hcut (N + 1)
    rw [hr] at hspin
    cases hspin
  · intro hcut
    refine ⟨forwardChunked_returns h hcut, fun hnone fuel ok l' hr => ?_⟩
    cases ok with
    | false => rfl
    | true =>
      obtain ⟨tx, ts, -, hts, hcons⟩ := forwardChunked_sent hr
      exact absurd hts (hnone ts _ _ hcons)

/-- The peer closes inside a size line. -/
theorem forwardChunked_returns_sizeLine : ReturnsAtEof (linkOf (ascii "1") [ascii "0"]) := by
  refine (forwardChunked_returns_iff _ (linkOf_finite (by decide))).mpr fun hcut => ?_
  obtain ⟨k, hk⟩ := hcut.exists_crlf
  have hnone : findCrlf (linkOf (ascii "1") [ascii "0"]).ahead = none := by decide
  rw [hnone] at hk
  cases hk

/-- The peer closes behind the first byte of a chunk of two. -/
theorem forwardChunked_spins_in_data : ¬ ∀ l : Link, l.Finite → ReturnsAtEof l := by
  intro h
  have hfin : (linkOf [] [ascii "2\r\na"]).Finite := linkOf_finite (by decide)
  obtain ⟨N, hN⟩ := (h _ hfin).returns
  obtain ⟨ok, l', hr⟩ := hN (N + 1) (Nat.lt_succ_self N)
  have hcut : CutInside (ascii "2" ++ crlf ++ ascii "a") :=
    CutInside.data (n := 2) (by decide) (by decide) (by decide) (by decide)
  obtain ⟨l'', hspin⟩ := forwardChunked_spins hfin hcut (N + 1)
  rw [hr] at hspin
  cases hspin

end ProxyPP.Http
