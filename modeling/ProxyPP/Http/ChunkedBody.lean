import ProxyPP.Http.MessageUtils

/-!
# ProxyPP.Http.ChunkedBody — the chunked transfer coding as a grammar

`ChunkedBody limit` is the set of well-framed bodies whose chunk sizes are at most `limit`: chunks
of a size line, CRLF, that many bytes and CRLF, then a line of value `0`, trailer lines and an empty
line.  `Framed limit ts` is the same grammar with any two bytes behind the data of a chunk; `ts`
lists them.  A body is well framed exactly when it is `Framed` with every terminator CRLF
(`chunkedBody_iff`).  `Framed` is prefix-free: a byte stream starts with at most one framed body
(`Framed.unique`).
-/

namespace ProxyPP.Http

open ProxyPP ProxyPP.Lib ProxyPP.Http.Details

/-- Trailer lines, each non-empty and ended by CRLF, and the empty line that closes the body. -/
inductive Trailers : Bytes → Prop
  | last : Trailers crlf
  | line {l r : Bytes} : l ≠ [] → ¬ crlf <:+: l → Trailers r → Trailers (l ++ crlf ++ r)

/-- A well-framed chunked body with chunk sizes between `1` and `limit`. -/
inductive ChunkedBody (limit : ℕ) : Bytes → Prop
  | last {line r : Bytes} : parseChunkSizeLine line = some 0 → Trailers r →
      ChunkedBody limit (line ++ crlf ++ r)
  | chunk {line data r : Bytes} {n : UInt64} : parseChunkSizeLine line = some n → 1 ≤ n.toNat →
      n.toNat ≤ limit → data.length = n.toNat → ChunkedBody limit r →
      ChunkedBody limit (line ++ crlf ++ (data ++ crlf ++ r))

/-- The same with any two bytes behind the data of each chunk, listed in order. -/
inductive Framed (limit : ℕ) : List Bytes → Bytes → Prop
  | last {line r : Bytes} : parseChunkSizeLine line = some 0 → Trailers r →
      Framed limit [] (line ++ crlf ++ r)
  | chunk {line data t r : Bytes} {n : UInt64} {ts : List Bytes} :
      parseChunkSizeLine line = some n → 1 ≤ n.toNat → n.toNat ≤ limit → data.length = n.toNat →
      t.length = 2 → Framed limit ts r → Framed limit (t :: ts) (line ++ crlf ++ (data ++ t ++ r))

/-! ### Lines without CRLF -/

theorem findCrlf_eq_none_iff {l : Bytes} : findCrlf l = none ↔ ¬ crlf <:+: l := by
  constructor
  · rintro h ⟨s, t, rfl⟩
    cases hs : findCrlf s with
    | none =>
      rw [findCrlf_line hs t] at h
      cases h
    | some n =>
      rw [List.append_assoc, findCrlf_append hs] at h
      cases h
  · intro h
    cases hl : findCrlf l with
    | none => rfl
    | some n =>
      obtain ⟨s, t, rfl, -, -⟩ := exists_cut_of_findPair hl
      exact absurd ⟨s, t, by simp [crlf]⟩ h

/-! ### The two grammars -/

theorem ChunkedBody.framed {limit : ℕ} {p : Bytes} (h : ChunkedBody limit p) :
    ∃ ts, Framed limit ts p ∧ ∀ t ∈ ts, t = crlf := by
  induction h with
  | last hline htr => exact ⟨[], Framed.last hline htr, by simp⟩
  | chunk hline h1 hlim hdata _ ih =>
    obtain ⟨ts, hts, hcrlf⟩ := ih
    refine ⟨crlf :: ts, Framed.chunk hline h1 hlim hdata rfl hts, ?_⟩
    intro t ht
    rcases List.mem_cons.mp ht with rfl | ht
    · rfl
    · exact hcrlf t ht

theorem Framed.chunkedBody {limit : ℕ} {ts : List Bytes} {p : Bytes} (h : Framed limit ts p)
    (hcrlf : ∀ t ∈ ts, t = crlf) : ChunkedBody limit p := by
  induction h with
  | last hline htr => exact ChunkedBody.last hline htr
  | chunk hline h1 hlim hdata _ _ ih =>
    obtain rfl := hcrlf _ List.mem_cons_self
    exact ChunkedBody.chunk hline h1 hlim hdata (ih fun t ht => hcrlf t (List.mem_cons_of_mem _ ht))

/-- **Well framed** means framed with every chunk terminated by CRLF. -/
theorem chunkedBody_iff {limit : ℕ} {p : Bytes} :
    ChunkedBody limit p ↔ ∃ ts, Framed limit ts p ∧ ∀ t ∈ ts, t = crlf :=
  ⟨ChunkedBody.framed, fun ⟨_, h, hcrlf⟩ => h.chunkedBody hcrlf⟩

theorem Framed.mono {limit limit' : ℕ} (hle : limit ≤ limit') {ts : List Bytes} {p : Bytes}
    (h : Framed limit ts p) : Framed limit' ts p := by
  induction h with
  | last hline htr => exact Framed.last hline htr
  | chunk hline h1 hlim hdata ht _ ih => exact Framed.chunk hline h1 (hlim.trans hle) hdata ht ih

/-! ### Prefix-freeness -/

/-- A stream starts with at most one trailer section. -/
theorem Trailers.unique {p p' : Bytes} (h : Trailers p) (h' : Trailers p') {r r' : Bytes}
    (heq : p ++ r = p' ++ r') : p = p' := by
  induction h generalizing p' with
  | last =>
    cases h' with
    | last => rfl
    | @line l s hne hl _ =>
      have hcut : ([] : Bytes) ++ crlf ++ r = l ++ crlf ++ (s ++ r') := by
        rw [List.nil_append, heq, List.append_assoc]
      exact absurd (line_unique rfl (findCrlf_eq_none_iff.mpr hl) hcut).1.symm hne
  | @line l s hne hl hs ih =>
    cases h' with
    | last =>
      have hcut : l ++ crlf ++ (s ++ r) = ([] : Bytes) ++ crlf ++ r' := by
        rw [List.nil_append, ← heq, ← List.append_assoc]
      exact absurd (line_unique (findCrlf_eq_none_iff.mpr hl) rfl hcut).1 hne
    | @line l' s' _ hl' hs' =>
      have hcut : l ++ crlf ++ (s ++ r) = l' ++ crlf ++ (s' ++ r') := by
        rw [← List.append_assoc, heq, List.append_assoc]
      obtain ⟨rfl, hrest⟩ :=
        line_unique (findCrlf_eq_none_iff.mpr hl) (findCrlf_eq_none_iff.mpr hl') hcut
      rw [ih hs' hrest]

/-- **Prefix-freeness.**  A stream starts with at most one framed body. -/
theorem Framed.unique {limit limit' : ℕ} {ts ts' : List Bytes} {p p' : Bytes}
    (h : Framed limit ts p) (h' : Framed limit' ts' p') {r r' : Bytes}
    (heq : p ++ r = p' ++ r') : p = p' ∧ ts = ts' := by
  induction h generalizing ts' p' with
  | @last line s hline htr =>
    cases h' with
    | @last line' s' hline' htr' =>
      have hcut : line ++ crlf ++ (s ++ r) = line' ++ crlf ++ (s' ++ r') := by
        rw [← List.append_assoc, heq, List.append_assoc]
      obtain ⟨rfl, hrest⟩ := line_unique (findCrlf_of_parseChunkSizeLine hline)
        (findCrlf_of_parseChunkSizeLine hline') hcut
      exact ⟨by rw [htr.unique htr' hrest], rfl⟩
    | @chunk line' data' t' s' n' ts' hline' h1' _ _ _ _ =>
      have hcut : line ++ crlf ++ (s ++ r) = line' ++ crlf ++ (data' ++ t' ++ s' ++ r') := by
        rw [← List.append_assoc, heq, List.append_assoc]
      obtain ⟨rfl, -⟩ := line_unique (findCrlf_of_parseChunkSizeLine hline)
        (findCrlf_of_parseChunkSizeLine hline') hcut
      rw [hline] at hline'
      cases hline'
      exact absurd h1' (by decide)
  | @chunk line data t s n ts hline h1 _ hdata ht _ ih =>
    cases h' with
    | @last line' s' hline' htr' =>
      have hcut : line ++ crlf ++ (data ++ t ++ s ++ r) = line' ++ crlf ++ (s' ++ r') := by
        rw [← List.append_assoc, heq, List.append_assoc]
      obtain ⟨rfl, -⟩ := line_unique (findCrlf_of_parseChunkSizeLine hline)
        (findCrlf_of_parseChunkSizeLine hline') hcut
      rw [hline] at hline'
      cases hline'
      exact absurd h1 (by decide)
    | @chunk line' data' t' s' n' ts' hline' _ _ hdata' ht' hs' =>
      have hcut : line ++ crlf ++ (data ++ t ++ s ++ r)
          = line' ++ crlf ++ (data' ++ t' ++ s' ++ r') := by
        rw [← List.append_assoc, heq, List.append_assoc]
      obtain ⟨rfl, hrest⟩ := line_unique (findCrlf_of_parseChunkSizeLine hline)
        (findCrlf_of_parseChunkSizeLine hline') hcut
      rw [hline] at hline'
      cases hline'
      -- equal sizes: data and terminators have equal lengths
      rw [List.append_assoc, List.append_assoc data, List.append_assoc,
        List.append_assoc data'] at hrest
      obtain ⟨rfl, hterm⟩ := List.append_inj hrest (hdata.trans hdata'.symm)
      obtain ⟨rfl, htail⟩ := List.append_inj hterm (ht.trans ht'.symm)
      obtain ⟨rfl, rfl⟩ := ih hs' htail
      exact ⟨rfl, rfl⟩

end ProxyPP.Http
