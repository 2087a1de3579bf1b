import ProxyPP.Qjs.Value

/-!
# ProxyPP.Qjs.ObjectBuilder — `object_builder.cpp`

Setters return the builder and report nothing; the first error stays in the builder until `Build`
returns it.  `StoresAll` says that every setter of a chain made its value and set it as a property:
`build_eq_ok_iff` is that `Build` succeeds in just that case, `build_ends` what it returns in every
case.
-/

namespace ProxyPP.Qjs

open ProxyPP ProxyPP.Lib
open ProxyPP.Rules (Error ErrorCode QjsErrc)

variable {N J : Type}

structure ObjectBuilder (J : Type) where
  context : JSContext
  object : Value J
  error : Option Error
  deriving DecidableEq, Repr

/-- A call of a setter. -/
inductive Setter (J : Type)
  | setString (name value : Bytes)
  | setBool (name : Bytes) (value : Bool)
  | setInt32 (name : Bytes) (value : Int32)
  | setNull (name : Bytes)
  | setObject (name : Bytes) (object : Value J)
  | setValue (name : Bytes) (value : Value J)
  deriving DecidableEq, Repr

variable (Q : QuickJs N J)

namespace Setter

def name : Setter J → Bytes
  | setString name _ => name
  | setBool name _ => name
  | setInt32 name _ => name
  | setNull name => name
  | setObject name _ => name
  | setValue name _ => name

/-- The value that is set; one that was passed is checked, and destroyed if it is refused. -/
def make (context : JSContext) : Setter J → EStateM Error (Runtime N J) (Value J)
  | setString _ value => Value.string Q context value
  | setBool _ value => Value.bool Q context value
  | setInt32 _ value => Value.int32 Q context value
  | setNull _ => Value.null Q context
  | setObject _ object =>
    if !object.isValid || !object.isObject Q then
      atExit (object.destroy Q) (throw (qjsError .invalidValue
        (ascii "set object failed, value is not a valid object")))
    else pure object
  | setValue _ value =>
    if !value.isValid then
      atExit (value.destroy Q) (throw (qjsError .invalidValue
        (ascii "set value failed, value is not valid")))
    else pure value

/-- A setter that returns at once destroys the value it was passed. -/
def drop : Setter J → Runtime N J → Runtime N J
  | setObject _ object => object.destroy Q
  | setValue _ value => value.destroy Q
  | _ => id

end Setter

namespace ObjectBuilder

/-- `ObjectBuilder::Create` -/
def create (context : JSContext) : EStateM Error (Runtime N J) (ObjectBuilder J) := do
  let object ← Value.object Q context
  pure ⟨context, object, none⟩

def setProperty (b : ObjectBuilder J) (name : Bytes) (value : Value J) (r : Runtime N J) :
    ObjectBuilder J × Runtime N J :=
  match b.object.setProperty Q name value r with
  | .ok _ r' => (b, r')
  | .error e r' => ({ b with error := some (qjsError .setPropertyFailed
      (ascii "set property '" ++ name ++ ascii "' failed, " ++ e.message)) }, r')

/-- What the setters share. -/
def apply (b : ObjectBuilder J) (s : Setter J) (r : Runtime N J) : ObjectBuilder J × Runtime N J :=
  if b.error.isSome then (b, s.drop Q r)
  else match s.make Q b.context r with
    | .error e r' => ({ b with error := some e }, r')
    | .ok value r' => b.setProperty Q s.name value r'

/-- A chain of setters. -/
def applyAll : List (Setter J) → ObjectBuilder J → Runtime N J → ObjectBuilder J × Runtime N J
  | [], b, r => (b, r)
  | s :: ss, b, r => applyAll ss (b.apply Q s r).1 (b.apply Q s r).2

/-- `Build() &&`; on an error the object is destroyed with the builder. -/
def build (b : ObjectBuilder J) : EStateM Error (Runtime N J) (Value J) :=
  match b.error with
  | some e => atExit (b.object.destroy Q) (throw e)
  | none => pure b.object

end ObjectBuilder

/-! ## Latching -/

/-- The setter made its value and set it as a property of `object`. -/
def Setter.Stores (context : JSContext) (object : Value J) (s : Setter J) (r r' : Runtime N J) :
    Prop :=
  ∃ value r₁, s.make Q context r = .ok value r₁ ∧
    object.setProperty Q s.name value r₁ = .ok ⟨⟩ r'

/-- Every setter stores its property, one after the other. -/
inductive StoresAll (context : JSContext) (object : Value J) :
    List (Setter J) → Runtime N J → Runtime N J → Prop
  | nil (r : Runtime N J) : StoresAll context object [] r r
  | cons {s : Setter J} {ss : List (Setter J)} {r r₁ r₂ : Runtime N J}
      (h : s.Stores Q context object r r₁) (hs : StoresAll context object ss r₁ r₂) :
      StoresAll context object (s :: ss) r r₂

/-- What setters that return at once leave. -/
def dropAll (ss : List (Setter J)) (r : Runtime N J) : Runtime N J :=
  ss.foldl (fun r s => s.drop Q r) r

/-- What `Build` returns behind a chain of setters: the object, or the error that the first setter
without a stored property left. -/
inductive BuildEnds (b : ObjectBuilder J) (ss : List (Setter J)) (r : Runtime N J) :
    EStateM.Result Error (Runtime N J) (Value J) → Prop
  | stored {r' : Runtime N J} (h : StoresAll Q b.context b.object ss r r') :
      BuildEnds b ss r (.ok b.object r')
  | failed {stored rest : List (Setter J)} {s : Setter J} {r₁ r₂ : Runtime N J} {e : Error}
      (hsplit : ss = stored ++ s :: rest) (h : StoresAll Q b.context b.object stored r r₁)
      (hs : ∀ r', ¬ s.Stores Q b.context b.object r₁ r')
      (he : b.apply Q s r₁ = ({ b with error := some e }, r₂)) :
      BuildEnds b ss r (.error e (b.object.destroy Q (dropAll Q rest r₂)))

variable {Q}

namespace ObjectBuilder

theorem apply_latched {b : ObjectBuilder J} {e : Error} (hb : b.error = some e) (s : Setter J)
    (r : Runtime N J) : b.apply Q s r = (b, s.drop Q r) := by
  rw [apply, hb]; rfl

/-- **The error stays.**  Behind an error no setter calls QuickJS; it only destroys the value it was
passed. -/
theorem applyAll_latched {b : ObjectBuilder J} {e : Error} (hb : b.error = some e)
    (ss : List (Setter J)) (r : Runtime N J) : applyAll Q ss b r = (b, dropAll Q ss r) := by
  induction ss generalizing r with
  | nil => rfl
  | cons s ss ih =>
    rw [applyAll, apply_latched hb, ih]
    rfl

/-- A setter stores its property or leaves an error. -/
theorem apply_cases {b : ObjectBuilder J} (hb : b.error = none) (s : Setter J) (r : Runtime N J) :
    (s.Stores Q b.context b.object r (b.apply Q s r).2 ∧ (b.apply Q s r).1 = b) ∨
      ((∀ r', ¬ s.Stores Q b.context b.object r r') ∧
        ∃ e, (b.apply Q s r).1 = { b with error := some e }) := by
  have hopen : ¬ b.error.isSome = true := by rw [hb]; simp
  cases hm : s.make Q b.context r with
  | error e r₁ =>
    refine Or.inr ⟨fun r' ⟨v, r₂, hv, _⟩ => ?_, e, by rw [apply, if_neg hopen, hm]⟩
    rw [hm] at hv
    cases hv
  | ok v r₁ =>
    have hstep : b.apply Q s r = b.setProperty Q s.name v r₁ := by rw [apply, if_neg hopen, hm]
    rw [hstep, setProperty]
    cases hp : b.object.setProperty Q s.name v r₁ with
    | ok u r₂ => exact Or.inl ⟨⟨v, r₁, hm, hp⟩, rfl⟩
    | error e r₂ =>
      refine Or.inr ⟨fun r' ⟨w, r₃, hw, hset⟩ => ?_, _, rfl⟩
      rw [hm] at hw
      cases hw
      rw [hp] at hset
      cases hset

/-- Either every setter of a chain stores its property, or those in front of some setter do, that
one leaves an error, and the builder keeps it. -/
theorem applyAll_cases {b : ObjectBuilder J} (hb : b.error = none) (ss : List (Setter J))
    (r : Runtime N J) :
    (StoresAll Q b.context b.object ss r (applyAll Q ss b r).2 ∧ (applyAll Q ss b r).1 = b) ∨
      ∃ stored s rest r₁ e r₂, ss = stored ++ s :: rest ∧
        StoresAll Q b.context b.object stored r r₁ ∧
        (∀ r', ¬ s.Stores Q b.context b.object r₁ r') ∧
        b.apply Q s r₁ = ({ b with error := some e }, r₂) ∧
        applyAll Q ss b r = ({ b with error := some e }, dropAll Q rest r₂) := by
  induction ss generalizing r with
  | nil => exact Or.inl ⟨.nil r, rfl⟩
  | cons s ss ih =>
    rcases apply_cases hb s r with ⟨hstores, hbuilder⟩ | ⟨hnone, e, he⟩
    · have hstep : applyAll Q (s :: ss) b r = applyAll Q ss b (b.apply Q s r).2 := by
        rw [applyAll, hbuilder]
      rw [hstep]
      rcases ih (b.apply Q s r).2 with ⟨hall, hb'⟩ | ⟨stored, s', rest, r₁, e, r₂, rfl, hall, hrest⟩
      · exact Or.inl ⟨.cons hstores hall, hb'⟩
      · exact Or.inr ⟨s :: stored, s', rest, r₁, e, r₂, rfl, .cons hstores hall, hrest⟩
    · refine Or.inr ⟨[], s, ss, r, e, (b.apply Q s r).2, rfl, .nil r, hnone, ?_, ?_⟩
      · rw [← he]
      · rw [applyAll, he]
        exact applyAll_latched rfl ss _

end ObjectBuilder

theorem Setter.Stores.unique {context : JSContext} {object : Value J} {s : Setter J}
    {r r₁ r₂ : Runtime N J} (h₁ : s.Stores Q context object r r₁)
    (h₂ : s.Stores Q context object r r₂) : r₁ = r₂ := by
  obtain ⟨v, r', hv, hset⟩ := h₁
  obtain ⟨v', r'', hv', hset'⟩ := h₂
  rw [hv] at hv'
  cases hv'
  rw [hset] at hset'
  cases hset'
  rfl

theorem StoresAll.applyAll {b : ObjectBuilder J} (hb : b.error = none) {ss : List (Setter J)}
    {r r' : Runtime N J} (h : StoresAll Q b.context b.object ss r r') :
    ObjectBuilder.applyAll Q ss b r = (b, r') := by
  induction h with
  | nil r => rfl
  | @cons s ss r r₁ r₂ hs _ ih =>
    rcases ObjectBuilder.apply_cases hb s r with ⟨hstores, hbuilder⟩ | ⟨hnone, -⟩
    · rw [ObjectBuilder.applyAll, hbuilder, hstores.unique hs]
      exact ih
    · exact absurd hs (hnone r₁)

/-- **The first error** of a chain is what `Build` returns. -/
theorem build_ends {b : ObjectBuilder J} (hb : b.error = none) (ss : List (Setter J))
    (r : Runtime N J) : BuildEnds Q b ss r
      ((ObjectBuilder.applyAll Q ss b r).1.build Q (ObjectBuilder.applyAll Q ss b r).2) := by
  rcases ObjectBuilder.applyAll_cases hb ss r with ⟨hall, -⟩ |
    ⟨stored, s, rest, r₁, e, r₂, hsplit, hall, hs, he, hrun⟩
  · rw [hall.applyAll hb, ObjectBuilder.build, hb]
    exact .stored hall
  · rw [hrun]
    exact .failed hsplit hall hs he

/-- **`Build`** behind a chain of setters succeeds exactly if every one of them stored its
property. -/
theorem build_eq_ok_iff {b : ObjectBuilder J} (hb : b.error = none) {ss : List (Setter J)}
    {r r' : Runtime N J} {object : Value J} :
    (ObjectBuilder.applyAll Q ss b r).1.build Q (ObjectBuilder.applyAll Q ss b r).2
        = .ok object r' ↔
      object = b.object ∧ StoresAll Q b.context b.object ss r r' := by
  constructor
  · intro h
    have hends : BuildEnds Q b ss r _ := build_ends hb ss r
    rw [h] at hends
    cases hends with
    | stored hall => exact ⟨rfl, hall⟩
  · rintro ⟨rfl, hall⟩
    rw [hall.applyAll hb, ObjectBuilder.build, hb]
    rfl

end ProxyPP.Qjs
