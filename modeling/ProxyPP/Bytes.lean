import Mathlib.Data.List.Basic
import Mathlib.Data.UInt
import Mathlib.Tactic.Common

/-!
# ProxyPP.Bytes — byte strings

A `std::string` or a `std::string_view` of the source is a list of bytes.  Literals are written
with `ascii`; `toLower` is the ASCII lower-casing of `boost::algorithm::to_lower_copy` in the
classic locale, which is also what Beast compares field names by.
-/

namespace ProxyPP

abbrev Bytes := List UInt8

/-- The bytes of an ASCII literal. -/
def ascii (s : String) : Bytes := s.toList.map (fun c => c.toNat.toUInt8)

def cr : UInt8 := 13

def lf : UInt8 := 10

/-- `"\r\n"` -/
def crlf : Bytes := [cr, lf]

/-- ASCII lower case of one byte (`A`..`Z` are `65`..`90`). -/
def toLowerByte (b : UInt8) : UInt8 := if 65 ≤ b ∧ b ≤ 90 then b + 32 else b

def toLower (s : Bytes) : Bytes := s.map toLowerByte

theorem cr_ne_lf : cr ≠ lf := by decide

@[simp] theorem length_crlf : crlf.length = 2 := rfl

end ProxyPP
