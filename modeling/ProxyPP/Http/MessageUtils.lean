import Mathlib.Data.List.DropRight
import Mathlib.Data.List.TakeDrop
import ProxyPP.Bytes
import ProxyPP.Lib.Delimiter

/-!
# ProxyPP.Http.MessageUtils — `http_message_utils.cpp`

The helpers of the chunked forwarder on the readable bytes of a `flat_buffer`: `findCrlf`,
`bufferPrefixToString`, `parseChunkSizeLine` and `startsWithCrlf`.  `size_t` is `UInt64`.
-/

namespace ProxyPP.Http.Details

open ProxyPP ProxyPP.Lib

/-- `std::numeric_limits<std::size_t>::max()` -/
def sizeMax : UInt64 := 18446744073709551615

/-- Space or tab. -/
def isOws (b : UInt8) : Bool := b = 32 ∨ b = 9

def trimTrailingOws (text : Bytes) : Bytes := text.rdropWhile isOws

/-- `std::search` for `"\r\n"`. -/
def findCrlf (buffer : Bytes) : Option ℕ := findPair cr lf buffer

/-- The string has `length` bytes; beyond the buffer they stay `NUL`. -/
def bufferPrefixToString (buffer : Bytes) (length : ℕ) : Bytes := buffer.takeD length 0

/-- The value of one hexadecimal digit: `0`..`9`, `a`..`f`, `A`..`F`. -/
def hexDigit (ch : UInt8) : Option UInt64 :=
  if 48 ≤ ch ∧ ch ≤ 57 then some (ch - 48).toUInt64
  else if 97 ≤ ch ∧ ch ≤ 102 then some (ch - 97 + 10).toUInt64
  else if 65 ≤ ch ∧ ch ≤ 70 then some (ch - 65 + 10).toUInt64
  else none

/-- The accumulation loop of `ParseChunkSizeLine`, with its overflow test before each digit. -/
def accumulateSize : Bytes → UInt64 → Option UInt64
  | [], size => some size
  | ch :: rest, size =>
    match hexDigit ch with
    | none => none
    | some digit =>
      if size > (sizeMax - digit) / 16 then none else accumulateSize rest (size * 16 + digit)

/-- The size text ends at the first `;` (`59`); the line itself must hold no CR and no LF. -/
def parseChunkSizeLine (line : Bytes) : Option UInt64 :=
  if cr ∈ line ∨ lf ∈ line then none
  else
    let sizeText := line.takeWhile (fun ch => ch ≠ 59)
    if sizeText = [] then none else accumulateSize (trimTrailingOws sizeText) 0

def startsWithCrlf (buffer : Bytes) : Bool :=
  match buffer with
  | a :: b :: _ => a = cr ∧ b = lf
  | _ => false

/-! ### Lines -/

/-- An accepted size line holds no CRLF. -/
theorem findCrlf_of_parseChunkSizeLine {line : Bytes} {n : UInt64}
    (h : parseChunkSizeLine line = some n) : findCrlf line = none := by
  unfold parseChunkSizeLine at h
  by_cases hline : cr ∈ line ∨ lf ∈ line
  · rw [if_pos hline] at h; cases h
  · exact findPair_eq_none_of_not_mem fun hcr => hline (Or.inl hcr)

theorem findCrlf_line {l : Bytes} (h : findCrlf l = none) (r : Bytes) :
    findCrlf (l ++ crlf ++ r) = some l.length := by
  rw [List.append_assoc]
  exact findPair_of_none cr_ne_lf h r

theorem findCrlf_append {s : Bytes} {n : ℕ} (h : findCrlf s = some n) (t : Bytes) :
    findCrlf (s ++ t) = some n := findPair_append cr_ne_lf h t

theorem findCrlf_add_two_le {s : Bytes} {n : ℕ} (h : findCrlf s = some n) : n + 2 ≤ s.length :=
  findPair_add_two_le h

/-- In front of a CRLF nothing is padded. -/
theorem bufferPrefixToString_of_findCrlf {s : Bytes} {n : ℕ} (h : findCrlf s = some n) :
    bufferPrefixToString s n = s.take n := by
  have hle := findCrlf_add_two_le h
  exact List.takeD_eq_take 0 (by omega)

/-- The bytes up to and with the CRLF found are a line and its end. -/
theorem findCrlf_cut {s : Bytes} {n : ℕ} (h : findCrlf s = some n) :
    findCrlf (s.take n) = none ∧ s.take (n + 2) = s.take n ++ crlf := by
  obtain ⟨l, r, rfl, rfl, hl⟩ := exists_cut_of_findPair h
  refine ⟨by rw [List.take_left]; exact hl, ?_⟩
  rw [List.take_left, show l ++ cr :: lf :: r = (l ++ crlf) ++ r by simp [crlf]]
  rw [show l.length + 2 = (l ++ crlf).length by simp, List.take_left]

/-- A line is read off a stream in one way. -/
theorem line_unique {l l' r r' : Bytes} (hl : findCrlf l = none) (hl' : findCrlf l' = none)
    (h : l ++ crlf ++ r = l' ++ crlf ++ r') : l = l' ∧ r = r' := by
  rw [List.append_assoc, List.append_assoc] at h
  exact cut_unique cr_ne_lf hl hl' h

end ProxyPP.Http.Details
