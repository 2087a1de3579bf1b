import Mathlib.Data.Nat.Digits.Defs
import ProxyPP.Http.MessageUtils

/-!
# ProxyPP.Http.ChunkSizeLine — the grammar of a chunk size line

`SizeLine line n` is the grammar: hexadecimal digits of value `n`, then spaces and tabs, then
possibly `;` and an extension.  `parseChunkSizeLine` reads every such line and its value, and the
accumulation never wraps (`accumulateSize_eq`: it is the accumulation over `ℕ`, cut off at `2^64`).

It also reads the lines whose size text is non-empty and all blank: the test for an empty size text
comes before the trimming, so they have the value `0` (`parseChunkSizeLine_iff_not_blank`).
-/

namespace ProxyPP.Http.Details

open ProxyPP ProxyPP.Lib

/-! ## The grammar -/

def hexDigits : Bytes := ascii "0123456789abcdef"

/-- A hexadecimal digit of either case. -/
def IsHexDigit (ch : UInt8) : Prop := toLowerByte ch ∈ hexDigits

instance (ch : UInt8) : Decidable (IsHexDigit ch) :=
  inferInstanceAs (Decidable (toLowerByte ch ∈ hexDigits))

def digitValue (ch : UInt8) : ℕ := hexDigits.idxOf (toLowerByte ch)

/-- The number that a run of hexadecimal digits stands for. -/
def hexValue (digits : Bytes) : ℕ := Nat.ofDigits 16 (digits.map digitValue).reverse

/-- `HEX OWS` or `HEX OWS ";" EXT`, without CR and LF and with a value that fits in 64 bits. -/
def SizeLine (line : Bytes) (n : ℕ) : Prop :=
  cr ∉ line ∧ lf ∉ line ∧ ∃ hex ows ext : Bytes, line = hex ++ ows ++ ext ∧ hex ≠ [] ∧
    (∀ ch ∈ hex, IsHexDigit ch) ∧ (∀ ch ∈ ows, isOws ch = true) ∧
    (ext = [] ∨ ∃ e, ext = 59 :: e) ∧ hexValue hex = n ∧ n < 2 ^ 64

/-! ## The accumulation loop -/

/-- The accumulation loop over unbounded numbers. -/
def accumulateUnbounded : Bytes → ℕ → Option ℕ
  | [], size => some size
  | ch :: rest, size =>
    match hexDigit ch with
    | none => none
    | some digit => accumulateUnbounded rest (size * 16 + digit.toNat)

theorem hexDigit_eq : ∀ ch : UInt8, hexDigit ch =
    if IsHexDigit ch then some (UInt64.ofNat (digitValue ch)) else none := by
  have h : ∀ b : Fin 256, hexDigit (UInt8.ofNat b.val) = if IsHexDigit (UInt8.ofNat b.val)
      then some (UInt64.ofNat (digitValue (UInt8.ofNat b.val))) else none := by decide +kernel
  intro ch
  have hch := h ⟨ch.toNat, ch.toNat_lt⟩
  rwa [UInt8.ofNat_toNat] at hch

theorem hexDigit_of_isHexDigit {ch : UInt8} (h : IsHexDigit ch) :
    ∃ digit, hexDigit ch = some digit ∧ digit.toNat = digitValue ch ∧ digitValue ch < 16 := by
  have hlt : digitValue ch < 16 := List.idxOf_lt_length_iff.mpr h
  refine ⟨_, by rw [hexDigit_eq, if_pos h], ?_, hlt⟩
  rw [UInt64.toNat_ofNat', Nat.mod_eq_of_lt (by omega)]

theorem hexDigit_of_not_isHexDigit {ch : UInt8} (h : ¬ IsHexDigit ch) : hexDigit ch = none := by
  rw [hexDigit_eq, if_neg h]

/-- The overflow test is exact, and without overflow the next size does not wrap. -/
theorem size_step {size digit : UInt64} (hd : digit.toNat < 16) :
    (size > (sizeMax - digit) / 16 ↔ 2 ^ 64 ≤ size.toNat * 16 + digit.toNat) ∧
      (size.toNat * 16 + digit.toNat < 2 ^ 64 →
        (size * 16 + digit).toNat = size.toNat * 16 + digit.toNat) := by
  have hmax : sizeMax.toNat = 2 ^ 64 - 1 := by decide
  have h16 : (16 : UInt64).toNat = 16 := rfl
  have hsub : (sizeMax - digit).toNat = 2 ^ 64 - 1 - digit.toNat := by
    rw [UInt64.toNat_sub_of_le _ _ (UInt64.le_iff_toNat_le.mpr (by omega)), hmax]
  constructor
  · rw [gt_iff_lt, UInt64.lt_iff_toNat_lt, UInt64.toNat_div, hsub, h16]
    omega
  · intro h
    rw [UInt64.toNat_add, UInt64.toNat_mul, h16, Nat.mod_eq_of_lt (a := size.toNat * 16) (by omega),
      Nat.mod_eq_of_lt h]

theorem le_accumulateUnbounded {digits : Bytes} {size n : ℕ}
    (h : accumulateUnbounded digits size = some n) : size ≤ n := by
  induction digits generalizing size with
  | nil => exact le_of_eq (Option.some.inj h)
  | cons ch digits ih =>
    rw [accumulateUnbounded] at h
    cases hd : hexDigit ch with
    | none =>
      rw [hd] at h
      cases h
    | some digit =>
      rw [hd] at h
      have := ih h
      omega

/-- **No wrap-around.**  The loop with its overflow test is the loop over `ℕ`, cut off at `2^64`. -/
theorem accumulateSize_eq (digits : Bytes) (size : UInt64) :
    accumulateSize digits size = (accumulateUnbounded digits size.toNat).bind
      fun n => if n < 2 ^ 64 then some (UInt64.ofNat n) else none := by
  induction digits generalizing size with
  | nil =>
    show some size = if size.toNat < 2 ^ 64 then some (UInt64.ofNat size.toNat) else none
    rw [if_pos size.toNat_lt, UInt64.ofNat_toNat]
  | cons ch digits ih =>
    rw [accumulateSize, accumulateUnbounded]
    by_cases hch : IsHexDigit ch
    · obtain ⟨digit, hd, hval, hlt⟩ := hexDigit_of_isHexDigit hch
      obtain ⟨hover, hnext⟩ := @size_step size digit (by omega)
      rw [hd]
      by_cases hge : 2 ^ 64 ≤ size.toNat * 16 + digit.toNat
      · -- what follows only makes the size greater
        simp only [if_pos (hover.mpr hge)]
        cases hn : accumulateUnbounded digits (size.toNat * 16 + digit.toNat) with
        | none => rfl
        | some n =>
          have hle := le_accumulateUnbounded hn
          rw [Option.bind_some, if_neg (by omega)]
      · simp only [if_neg fun h => hge (hover.mp h)]
        rw [ih, hnext (by omega)]
    · rw [hexDigit_of_not_isHexDigit hch]
      rfl

theorem hexValue_cons (ch : UInt8) (digits : Bytes) :
    hexValue (ch :: digits) = digitValue ch * 16 ^ digits.length + hexValue digits := by
  rw [hexValue, List.map_cons, List.reverse_cons, Nat.ofDigits_append, Nat.ofDigits_singleton,
    List.length_reverse, List.length_map, hexValue]
  ring

/-- The loop over `ℕ` computes the number that the digits stand for. -/
theorem accumulateUnbounded_digits {digits : Bytes} (h : ∀ ch ∈ digits, IsHexDigit ch) (size : ℕ) :
    accumulateUnbounded digits size = some (size * 16 ^ digits.length + hexValue digits) := by
  induction digits generalizing size with
  | nil => simp [accumulateUnbounded, hexValue]
  | cons ch digits ih =>
    obtain ⟨hch, hall⟩ := List.forall_mem_cons.mp h
    obtain ⟨digit, hd, hval, -⟩ := hexDigit_of_isHexDigit hch
    rw [accumulateUnbounded, hd]
    dsimp only
    rw [ih hall, hval, hexValue_cons, List.length_cons]
    congr 1
    ring

/-- And it fails on anything else. -/
theorem accumulateUnbounded_none {digits : Bytes} (h : ¬ ∀ ch ∈ digits, IsHexDigit ch) (size : ℕ) :
    accumulateUnbounded digits size = none := by
  induction digits generalizing size with
  | nil => exact absurd (by simp) h
  | cons ch digits ih =>
    rw [accumulateUnbounded]
    by_cases hch : IsHexDigit ch
    · obtain ⟨digit, hd, -⟩ := hexDigit_of_isHexDigit hch
      rw [hd]
      exact ih (fun hall => h (List.forall_mem_cons.mpr ⟨hch, hall⟩)) _
    · rw [hexDigit_of_not_isHexDigit hch]

/-! ## The line -/

/-- The size text of a line: what stands in front of the first `;`. -/
def sizeText (line : Bytes) : Bytes := line.takeWhile fun ch => ch ≠ 59

/-- The size text of the line is not empty and holds nothing but spaces and tabs. -/
def BlankSize (line : Bytes) : Prop :=
  cr ∉ line ∧ lf ∉ line ∧ sizeText line ≠ [] ∧ ∀ ch ∈ sizeText line, isOws ch = true

theorem parseChunkSizeLine_eq {line : Bytes} (hcr : cr ∉ line) (hlf : lf ∉ line) :
    parseChunkSizeLine line = if sizeText line = [] then none
      else accumulateSize (trimTrailingOws (sizeText line)) 0 := by
  rw [parseChunkSizeLine, if_neg (not_or.mpr ⟨hcr, hlf⟩)]
  rfl

/-- What is read of a line is the value of its trimmed size text, if that is a 64-bit number. -/
theorem parseChunkSizeLine_eq_some_iff {line : Bytes} {n : UInt64} :
    parseChunkSizeLine line = some n ↔ cr ∉ line ∧ lf ∉ line ∧ sizeText line ≠ [] ∧
      (∀ ch ∈ trimTrailingOws (sizeText line), IsHexDigit ch) ∧
      hexValue (trimTrailingOws (sizeText line)) = n.toNat := by
  by_cases hline : cr ∈ line ∨ lf ∈ line
  · rw [parseChunkSizeLine, if_pos hline]
    constructor
    · intro h
      cases h
    · rintro ⟨hcr, hlf, -⟩
      exact absurd hline (not_or.mpr ⟨hcr, hlf⟩)
  obtain ⟨hcr, hlf⟩ := not_or.mp hline
  have h0 : (0 : UInt64).toNat = 0 := rfl
  rw [parseChunkSizeLine_eq hcr hlf, accumulateSize_eq, h0]
  by_cases hne : sizeText line = []
  · simp [hne]
  rw [if_neg hne]
  by_cases hall : ∀ ch ∈ trimTrailingOws (sizeText line), IsHexDigit ch
  · rw [accumulateUnbounded_digits hall, Nat.zero_mul, Nat.zero_add, Option.bind_some]
    constructor
    · intro h
      split_ifs at h with hlt
      obtain rfl := Option.some.inj h
      refine ⟨hcr, hlf, hne, hall, ?_⟩
      rw [UInt64.toNat_ofNat', Nat.mod_eq_of_lt hlt]
    · rintro ⟨-, -, -, -, hval⟩
      rw [hval, if_pos n.toNat_lt, UInt64.ofNat_toNat]
  · rw [accumulateUnbounded_none hall]
    constructor
    · intro h
      cases h
    · rintro ⟨-, -, -, h, -⟩
      exact absurd h hall

theorem not_isOws_of_isHexDigit {ch : UInt8} (h : IsHexDigit ch) : isOws ch = false ∧ ch ≠ 59 := by
  have hall : ∀ b : Fin 256, IsHexDigit (UInt8.ofNat b.val) →
      isOws (UInt8.ofNat b.val) = false ∧ UInt8.ofNat b.val ≠ 59 := by decide +kernel
  have hch := hall ⟨ch.toNat, ch.toNat_lt⟩
  rw [UInt8.ofNat_toNat] at hch
  exact hch h

theorem ne_semicolon_of_isOws {ch : UInt8} (h : isOws ch = true) : ch ≠ 59 := by
  rintro rfl
  exact absurd h (by decide)

/-- The size text and the extension of a line of the grammar. -/
theorem sizeText_of_grammar {hex ows ext : Bytes} (hhex : ∀ ch ∈ hex, IsHexDigit ch)
    (hows : ∀ ch ∈ ows, isOws ch = true) (hext : ext = [] ∨ ∃ e, ext = 59 :: e) :
    sizeText (hex ++ ows ++ ext) = hex ++ ows := by
  have hno : ∀ ch ∈ hex ++ ows, (decide (ch ≠ 59)) = true := by
    intro ch hch
    rw [decide_eq_true_eq]
    rcases List.mem_append.mp hch with h | h
    · exact (not_isOws_of_isHexDigit (hhex ch h)).2
    · exact ne_semicolon_of_isOws (hows ch h)
  rw [sizeText, List.takeWhile_append_of_pos hno]
  rcases hext with rfl | ⟨e, rfl⟩
  · simp
  · simp

theorem trimTrailingOws_of_grammar {hex ows : Bytes} (hhex : ∀ ch ∈ hex, IsHexDigit ch)
    (hows : ∀ ch ∈ ows, isOws ch = true) : trimTrailingOws (hex ++ ows) = hex := by
  induction ows using List.reverseRecOn with
  | nil =>
    rw [List.append_nil]
    refine List.rdropWhile_eq_self_iff.mpr fun hne => ?_
    rw [(not_isOws_of_isHexDigit (hhex _ (List.getLast_mem hne))).1]
    simp
  | append_singleton ows ch ih =>
    have hch := hows ch (List.mem_append_right _ List.mem_cons_self)
    rw [trimTrailingOws, ← List.append_assoc, List.rdropWhile_concat_pos _ _ _ hch]
    exact ih fun c hc => hows c (List.mem_append_left _ hc)

/-- A line of the grammar is read as its value. -/
theorem SizeLine.parse {line : Bytes} {n : UInt64} (h : SizeLine line n.toNat) :
    parseChunkSizeLine line = some n := by
  obtain ⟨hcr, hlf, hex, ows, ext, rfl, hne, hhex, hows, hext, hval, -⟩ := h
  refine parseChunkSizeLine_eq_some_iff.mpr ⟨hcr, hlf, ?_, ?_, ?_⟩
  · rw [sizeText_of_grammar hhex hows hext]
    exact fun hnil => hne (List.append_eq_nil_iff.mp hnil).1
  · rwa [sizeText_of_grammar hhex hows hext, trimTrailingOws_of_grammar hhex hows]
  · rwa [sizeText_of_grammar hhex hows hext, trimTrailingOws_of_grammar hhex hows]

/-- A line that is read is one of the grammar, unless its size text is blank. -/
theorem sizeLine_of_parse {line : Bytes} {n : UInt64} (h : parseChunkSizeLine line = some n)
    (hblank : ¬ BlankSize line) : SizeLine line n.toNat := by
  obtain ⟨hcr, hlf, hne, hhex, hval⟩ := parseChunkSizeLine_eq_some_iff.mp h
  refine ⟨hcr, hlf, trimTrailingOws (sizeText line), (sizeText line).rtakeWhile isOws,
    line.dropWhile fun ch => ch ≠ 59, ?_, ?_, hhex, fun ch => List.mem_rtakeWhile_imp, ?_, hval,
    n.toNat_lt⟩
  · rw [trimTrailingOws, List.rdropWhile_append_rtakeWhile]
    exact List.takeWhile_append_dropWhile.symm
  · intro hnil
    exact hblank ⟨hcr, hlf, hne, List.rdropWhile_eq_nil_iff.mp hnil⟩
  · cases hdrop : line.dropWhile fun ch => ch ≠ 59 with
    | nil => exact Or.inl rfl
    | cons ch e =>
      have hne' : line.dropWhile (fun ch => decide (ch ≠ 59)) ≠ [] := by
        rw [hdrop]
        exact List.cons_ne_nil ch e
      have hhead := List.head_dropWhile_not (fun ch => decide (ch ≠ 59)) hne'
      simp only [hdrop, List.head_cons, decide_eq_false_iff_not, ne_eq, not_not] at hhead
      exact Or.inr ⟨e, by rw [hhead]⟩

/-- A blank size text is read as `0`. -/
theorem BlankSize.parse {line : Bytes} (h : BlankSize line) :
    parseChunkSizeLine line = some 0 := by
  obtain ⟨hcr, hlf, hne, hows⟩ := h
  have hnil : trimTrailingOws (sizeText line) = [] := List.rdropWhile_eq_nil_iff.mpr hows
  rw [parseChunkSizeLine_eq hcr hlf, if_neg hne, hnil]
  rfl

/-- No line of the grammar has a blank size text. -/
theorem BlankSize.not_sizeLine {line : Bytes} (h : BlankSize line) (n : ℕ) :
    ¬ SizeLine line n := by
  rintro ⟨-, -, hex, ows, ext, rfl, hne, hhex, hows, hext, -, -⟩
  obtain ⟨-, -, -, hall⟩ := h
  rw [sizeText_of_grammar hhex hows hext] at hall
  obtain ⟨ch, hex, rfl⟩ := List.exists_cons_of_ne_nil hne
  have hows' := hall ch (by simp)
  rw [(not_isOws_of_isHexDigit (hhex ch List.mem_cons_self)).1] at hows'
  cases hows'

/-- **The size lines read are those of the grammar, with their values, exactly when the size text is
not blank.** -/
theorem parseChunkSizeLine_iff_not_blank (line : Bytes) :
    (∀ n : UInt64, parseChunkSizeLine line = some n ↔ SizeLine line n.toNat) ↔
      ¬ BlankSize line := by
  constructor
  · intro h hblank
    exact hblank.not_sizeLine _ ((h 0).mp hblank.parse)
  · intro hblank n
    exact ⟨fun h => sizeLine_of_parse h hblank, SizeLine.parse⟩

/-- A line of one space is read as the size `0`. -/
theorem parseChunkSizeLine_blank : ¬ ∀ (line : Bytes) (n : UInt64),
    parseChunkSizeLine line = some n ↔ SizeLine line n.toNat := by
  intro h
  have hblank : BlankSize (ascii " ") :=
    ⟨by decide, by decide, by decide, by decide +kernel⟩
  exact hblank.not_sizeLine 0 ((h (ascii " ") 0).mp (by decide))

end ProxyPP.Http.Details
