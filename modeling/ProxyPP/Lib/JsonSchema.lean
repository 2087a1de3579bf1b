import ProxyPP.Bytes
import Mathlib.Data.Rat.Defs

/-!
# ProxyPP.Lib.JsonSchema — JSON values and the keywords of JSON Schema

A schema is a decidable predicate on JSON values, and a keyword is one: a schema object accepts what
all its keywords accept (draft 2020-12, `$ref` being the schema it refers to).  A keyword for one
kind of value accepts every value of another kind.  Annotations are not keywords here.
-/

namespace ProxyPP.Lib

open ProxyPP

/-! ## Values -/

inductive Scalar
  | null
  | bool (b : Bool)
  | num (q : ℚ)
  /-- A string, in UTF-8. -/
  | str (s : Bytes)
  deriving DecidableEq, Repr

/-- A JSON value.  Of several members with one name the first counts. -/
inductive Json
  | scalar (s : Scalar)
  | arr (elems : List Json)
  | obj (members : List (Bytes × Json))

namespace Json

@[match_pattern] abbrev str (s : Bytes) : Json := scalar (.str s)

@[match_pattern] abbrev bool (b : Bool) : Json := scalar (.bool b)

@[match_pattern] abbrev num (q : ℚ) : Json := scalar (.num q)

def member (name : Bytes) : Json → Option Json
  | obj members => members.lookup name
  | _ => none

theorem exists_obj_of_member {name : Bytes} {j v : Json} (h : j.member name = some v) :
    ∃ members, j = obj members := by
  cases j with
  | scalar s => cases h
  | arr elems => cases h
  | obj members => exact ⟨members, rfl⟩

end Json

/-! ## Keywords -/

abbrev Schema := Json → Bool

namespace Schema

/-- A schema object. -/
def all (keywords : List Schema) : Schema := fun j => keywords.all fun k => k j

inductive Kind
  | object
  | array
  | string
  | integer
  | boolean
  deriving DecidableEq, Repr

/-- `"type"`; a number is an integer by its value. -/
def type : Kind → Schema
  | .object, .obj _ => true
  | .array, .arr _ => true
  | .string, .str _ => true
  | .integer, .num q => q.den = 1
  | .boolean, .bool _ => true
  | _, _ => false

/-- `"enum"` of scalars -/
def enum (values : List Scalar) : Schema
  | .scalar s => values.contains s
  | _ => false

/-- `"const"` of a scalar -/
def const (value : Scalar) : Schema := enum [value]

/-- The code points of a UTF-8 string: its bytes without continuation bytes. -/
def codePoints (s : Bytes) : ℕ := (s.filter fun c => c < 128 || 192 ≤ c).length

def minLength (n : ℕ) : Schema
  | .str s => n ≤ codePoints s
  | _ => true

def pattern (accepts : Bytes → Bool) : Schema
  | .str s => accepts s
  | _ => true

def minItems (n : ℕ) : Schema
  | .arr elems => n ≤ elems.length
  | _ => true

def items (s : Schema) : Schema
  | .arr elems => elems.all s
  | _ => true

def required (names : List Bytes) : Schema
  | .obj members => names.all fun name => (members.lookup name).isSome
  | _ => true

def properties (schemas : List (Bytes × Schema)) : Schema := fun j =>
  schemas.all fun p => (j.member p.1).all p.2

/-- `"additionalProperties": false` beside `"properties"` with these names -/
def noAdditionalProperties (names : List Bytes) : Schema
  | .obj members => members.all fun m => names.contains m.1
  | _ => true

/-- `"if"` with `"then"` -/
def ifThen (condition consequence : Schema) : Schema := fun j => !condition j || consequence j

variable {j v : Json}

theorem all_iff {keywords : List Schema} : all keywords j = true ↔ ∀ k ∈ keywords, k j = true :=
  List.all_eq_true

@[simp] theorem all_nil : all [] j = true := rfl

@[simp] theorem all_cons {k : Schema} {keywords : List Schema} :
    all (k :: keywords) j = true ↔ k j = true ∧ all keywords j = true :=
  Bool.and_eq_true_iff

theorem obj_of_type (h : type .object j = true) : ∃ members, j = .obj members := by
  unfold type at h
  split at h <;> simp_all

theorem arr_of_type (h : type .array j = true) : ∃ elems, j = .arr elems := by
  unfold type at h
  split at h <;> simp_all

theorem str_of_type (h : type .string j = true) : ∃ s, j = .str s := by
  unfold type at h
  split at h <;> simp_all

theorem bool_of_type (h : type .boolean j = true) : ∃ b, j = .bool b := by
  unfold type at h
  split at h <;> simp_all

theorem enum_iff {values : List Scalar} :
    enum values j = true ↔ ∃ s ∈ values, j = .scalar s := by
  cases j with
  | scalar s => simp [enum]
  | arr elems => simp [enum]
  | obj members => simp [enum]

theorem const_iff {value : Scalar} : const value j = true ↔ j = .scalar value := by
  simp [const, enum_iff]

theorem items_arr {s : Schema} {elems : List Json} :
    items s (.arr elems) = true ↔ ∀ x ∈ elems, s x = true :=
  List.all_eq_true

theorem member_of_required {names : List Bytes} (name : Bytes) {members : List (Bytes × Json)}
    (h : required names (.obj members) = true) (hname : name ∈ names) :
    ∃ v, (Json.obj members).member name = some v :=
  Option.isSome_iff_exists.mp (List.all_eq_true.mp h name hname)

theorem properties_iff {schemas : List (Bytes × Schema)} : properties schemas j = true ↔
    ∀ p ∈ schemas, ∀ v, j.member p.1 = some v → p.2 v = true := by
  unfold properties
  rw [List.all_eq_true]
  refine forall₂_congr fun p _ => ?_
  cases j.member p.1 with
  | none => simp
  | some v => simp

/-- A member that is there meets the schema of its name. -/
theorem of_properties {schemas : List (Bytes × Schema)} (h : properties schemas j = true)
    {name : Bytes} {s : Schema} (hs : (name, s) ∈ schemas) (hv : j.member name = some v) :
    s v = true :=
  properties_iff.mp h (name, s) hs v hv

theorem ifThen_iff {condition consequence : Schema} :
    ifThen condition consequence j = true ↔ (condition j = true → consequence j = true) := by
  unfold ifThen
  cases condition j with
  | false => simp
  | true => simp

end Schema

end ProxyPP.Lib
