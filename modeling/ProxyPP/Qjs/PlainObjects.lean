import Mathlib.Data.Set.Function
import Mathlib.Logic.Function.Basic
import ProxyPP.Qjs.Runtime

/-!
# ProxyPP.Qjs.PlainObjects — what a property set does

`PlainObjects` is what the proxy relies on of QuickJS when it fills objects: a new object is empty,
a property set on a plain object inserts or overwrites, and nothing else touches its properties.
The name `__proto__` is the exception: its setter ignores a value that is neither an object nor
null.  An object that is overwritten may be freed, with what hung on it alone.

QuickJS decodes the bytes it is given.  What it makes of them is left open (`Observation.nameOf`,
`Observation.textOf`): bytes that are not UTF-8 may become any text, and different names one.

`QuickJs.tables` keeps the properties of all objects in one table, and has these laws.
-/

namespace ProxyPP.Qjs

open ProxyPP ProxyPP.Lib

variable {N J T : Type}

/-- The property with a setter on every plain object. -/
def protoName : Bytes := ascii "__proto__"

/-- ASCII without `NUL`, as every header name is. -/
def PlainName (name : Bytes) : Prop := ∀ b ∈ name, 0 < b ∧ b < 128

instance (name : Bytes) : Decidable (PlainName name) :=
  List.decidableBAll (fun b => 0 < b ∧ b < 128) name

/-- What a property holds: a primitive value by its content, an object by its reference. -/
inductive Reading (J T : Type)
  | text (text : T)
  | bool (value : Bool)
  | number (value : Int32)
  | null
  | object (object : J)
  deriving DecidableEq, Repr

/-- The observations of QuickJS the laws are about: which objects are plain objects that exist, the
content of a value, the own properties of an object, and the global object of a context.  `T` is the
texts of JavaScript. -/
structure Observation (N J T : Type) where
  /-- The property name that a C string is decoded to. -/
  nameOf : Bytes → T
  /-- The text that the bytes of a string are decoded to. -/
  textOf : Bytes → T
  plain : N → J → Prop
  read : N → J → Option (Reading J T)
  own : N → J → T → Option (Reading J T)
  global : N → JSContext → Option J

namespace Observation

variable (O : Observation N J T)

/-- The plain object `t` of `n` exists in `n'` with the same properties. -/
def KeepsObject (n n' : N) (t : J) : Prop := O.plain n t → O.plain n' t ∧ O.own n' t = O.own n t

/-- All plain objects and the global objects are kept. -/
structure Keeps (n n' : N) : Prop where
  objects : ∀ t, O.KeepsObject n n' t
  global : O.global n' = O.global n

/-- `t'` hangs on `t` by a path of properties. -/
inductive Hangs (n : N) : J → J → Prop
  | refl (t : J) : Hangs n t t
  | step {t t₁ t' : J} {name : T} (h : O.own n t name = some (.object t₁))
      (hs : Hangs n t₁ t') : Hangs n t t'

/-- The property `name` of `t` was set to `ρ`.  A text that was there can be overwritten without
effect on other objects. -/
structure Writes [DecidableEq T] (t : J) (name : T) (ρ : Reading J T) (n n' : N) : Prop where
  plain : O.plain n' t
  own : name ≠ O.nameOf protoName → O.own n' t = Function.update (O.own n t) name (some ρ)
  proto : name = O.nameOf protoName → (∃ s, ρ = .text s) → O.own n' t = O.own n t
  others : (∀ old, O.own n t name = some old → ∃ s, old = .text s) →
    ∀ t', t' ≠ t → O.KeepsObject n n' t'
  global : O.global n' = O.global n

end Observation

/-- The calls that fill objects.  A string has the text that its bytes are decoded to, and a set
writes the property of the name that its C string is decoded to, where plain names stay apart.  The
reference that `JS_GetGlobalObject` returned is freed behind one set of a property: the context
holds its global object. -/
structure QuickJs.PlainObjects [DecidableEq T] (Q : QuickJs N J) (O : Observation N J T) :
    Prop where
  nameOf_injOn : Set.InjOn O.nameOf {name | PlainName name}
  newObject : ∀ c n t n', Q.newObject c n = .ok t n' →
    O.Keeps n n' ∧ ¬ O.plain n t ∧ O.plain n' t ∧ ∀ name, O.own n' t name = none
  newStringLen : ∀ c s n v n', Q.newStringLen c s n = .ok v n' →
    O.Keeps n n' ∧ O.read n' v = some (.text (O.textOf s))
  newBool : ∀ c b n, O.read n (Q.newBool c b) = some (.bool b)
  newInt32 : ∀ c i n, O.read n (Q.newInt32 c i) = some (.number i)
  null : ∀ n, O.read n Q.null = some .null
  read_plain : ∀ n t, O.plain n t → O.read n t = some (.object t)
  getGlobalObject : ∀ c n g n', Q.getGlobalObject c n = .ok g n' →
    O.Keeps n n' ∧ O.global n c = some g
  global_plain : ∀ c n g, O.global n c = some g → O.plain n g
  setPropertyStr : ∀ c t name v ρ n u n', O.plain n t → O.read n v = some ρ →
    Q.setPropertyStr c t name v n = .ok u n' →
    O.Writes t (O.nameOf name) ρ n n' ∧ ∀ t', t' ≠ t → O.Hangs n v t' → O.KeepsObject n n' t'
  freeGlobal : ∀ c n g n₁ name v u n₂, Q.getGlobalObject c n = .ok g n₁ →
    Q.setPropertyStr c g name v n₁ = .ok u n₂ → O.Keeps n₂ (Q.freeValue c g n₂)

namespace Observation

variable {O : Observation N J T}

theorem Keeps.refl (O : Observation N J T) (n : N) : O.Keeps n n := ⟨fun _ h => ⟨h, rfl⟩, rfl⟩

theorem KeepsObject.trans {n n' n'' : N} {t : J} (h : O.KeepsObject n n' t)
    (h' : O.KeepsObject n' n'' t) : O.KeepsObject n n'' t := by
  intro ht
  obtain ⟨ht', hown⟩ := h ht
  obtain ⟨ht'', hown'⟩ := h' ht'
  exact ⟨ht'', hown'.trans hown⟩

/-- A set behind a call that keeps everything. -/
theorem Keeps.writes [DecidableEq T] {n n₁ n' : N} {t : J} {name : T} {ρ : Reading J T}
    (hkeeps : O.Keeps n n₁) (ht : O.plain n t) (h : O.Writes t name ρ n₁ n') :
    O.Writes t name ρ n n' := by
  obtain ⟨-, hown⟩ := hkeeps.objects t ht
  refine ⟨h.plain, fun hname => ?_, fun hname hρ => ?_, fun hold t' hne => ?_, ?_⟩
  · rw [h.own hname, hown]
  · rw [h.proto hname hρ, hown]
  · rw [← hown] at hold
    exact (hkeeps.objects t').trans (h.others hold t' hne)
  · rw [h.global, hkeeps.global]

end Observation

/-! ## Property tables -/

/-- A JavaScript value; an object is known by its context and number. -/
inductive JsValue
  | undefined
  | null
  | bool (value : Bool)
  | int32 (value : Int32)
  | string (text : Bytes)
  | object (context : JSContext) (ref : ℕ) (isArray : Bool)
  deriving DecidableEq

namespace JsValue

/-- Only an object is bound to a context. -/
def belongs (v : JsValue) (c : JSContext) : Prop :=
  match v with
  | object d _ _ => d = c
  | _ => True

instance (v : JsValue) (c : JSContext) : Decidable (v.belongs c) := by
  cases v <;> unfold belongs <;> infer_instance

def isObject : JsValue → Bool
  | object _ _ _ => true
  | _ => false

def isArray : JsValue → Bool
  | object _ _ isArray => isArray
  | _ => false

def reading : JsValue → Option (Reading JsValue Bytes)
  | undefined => none
  | null => some .null
  | bool value => some (.bool value)
  | int32 value => some (.number value)
  | string text => some (.text text)
  | object context ref isArray => some (.object (object context ref isArray))

end JsValue

/-- How many objects and contexts were made, and the property sets so far.  Object `0` of a context
is its global object. -/
structure Tables where
  objects : ℕ
  contexts : ℕ
  sets : List (JsValue × Key × JsValue)
  deriving DecidableEq

namespace Tables

/-- The value of the last set of a property. -/
def own (n : Tables) (t : JsValue) (k : Key) : Option JsValue :=
  ((n.sets.filter fun e => e.1 = t ∧ e.2.1 = k).getLast?).map fun e => e.2.2

def plain (n : Tables) (t : JsValue) : Prop := ∃ c ref, t = .object c ref false ∧ ref ≤ n.objects

/-- A set of `__proto__` is not a property set. -/
def set (t : JsValue) (k : Key) (v : JsValue) (n : Tables) : Tables :=
  if k = .name protoName then n else { n with sets := n.sets ++ [(t, k, v)] }

/-- The next object, without properties. -/
def new (c : JSContext) (isArray : Bool) : EStateM Bytes Tables JsValue := fun n =>
  let t := .object c (n.objects + 1) isArray
  .ok t { n with objects := n.objects + 1, sets := n.sets.filter fun e => e.1 ≠ t }

theorem own_filter (n : Tables) (objects : ℕ) (t t' : JsValue) (k : Key) :
    own { n with objects := objects, sets := n.sets.filter fun e => e.1 ≠ t } t' k
      = if t' = t then none else n.own t' k := by
  unfold own
  rw [List.filter_filter]
  split_ifs with h
  · have hnil :
        (n.sets.filter fun e => decide (e.1 = t' ∧ e.2.1 = k) && decide (e.1 ≠ t)) = [] := by
      refine List.filter_eq_nil_iff.mpr fun e _ he => ?_
      simp only [Bool.and_eq_true, decide_eq_true_eq] at he
      exact he.2 (he.1.1.trans h)
    rw [hnil]; rfl
  · refine congrArg (fun l => (List.getLast? l).map _) (List.filter_congr fun e _ => ?_)
    by_cases he : e.1 = t' ∧ e.2.1 = k
    · simp [he, h]
    · simp [he]

/-- A property, as far as it can be seen from the context `c`. -/
def get (c : JSContext) (t : JsValue) (k : Key) (n : Tables) : JsValue :=
  match n.own t k with
  | some v => if v.belongs c then v else .undefined
  | none => .undefined

theorem own_set (n : Tables) (t : JsValue) (k : Key) (v : JsValue) (hk : k ≠ .name protoName)
    (t' : JsValue) (k' : Key) :
    (n.set t k v).own t' k' = if t' = t ∧ k' = k then some v else n.own t' k' := by
  unfold set own
  rw [if_neg hk, List.filter_append]
  by_cases h : t' = t ∧ k' = k
  · obtain ⟨rfl, rfl⟩ := h
    simp
  · have hne : ¬ (t = t' ∧ k = k') := fun ⟨ht, hk⟩ => h ⟨ht.symm, hk.symm⟩
    rw [if_neg h, List.filter_singleton]
    simp [hne]

end Tables

/-- QuickJS with property tables, where only memory for wrappers runs out. -/
def QuickJs.tables (allocates : ℕ → Bool) : QuickJs Tables JsValue where
  undefined := .undefined
  null := .null
  newBool _ value := .bool value
  newInt32 _ value := .int32 value
  newStringLen _ text := pure (.string text)
  newObject c := Tables.new c false
  newArray c := Tables.new c true
  getGlobalObject c := pure (.object c 0 false)
  getPropertyStr c t name := fun n => .ok (n.get c t (.name name)) n
  getPropertyUint32 c t index := fun n => .ok (n.get c t (.index index)) n
  setPropertyStr _ t name v := modify (Tables.set t (.name name) v)
  setPropertyUint32 _ t index v := modify (Tables.set t (.index index) v)
  freeValue _ _ n := n
  isObject := JsValue.isObject
  isArray := JsValue.isArray
  newContext n := (n.contexts + 1, { n with contexts := n.contexts + 1 })
  allocates := allocates

/-- The readings of the property tables, which keep bytes as they are.  Every context has its global
object from the start. -/
def Observation.tables : Observation Tables JsValue Bytes where
  nameOf name := name
  textOf text := text
  plain := Tables.plain
  read _ := JsValue.reading
  own n t name := (n.own t (.name name)).bind JsValue.reading
  global _ c := some (.object c 0 false)

theorem Tables.plain_set {n : Tables} {t' : JsValue} (h : n.plain t') (t : JsValue) (k : Key)
    (v : JsValue) : (n.set t k v).plain t' := by
  unfold Tables.set
  split_ifs
  · exact h
  · exact h

/-- A set leaves the other objects alone. -/
theorem Observation.tables_set_ne {t t' : JsValue} (hne : t' ≠ t) (n : Tables) (name : Bytes)
    (v : JsValue) : Observation.tables.KeepsObject n (n.set t (.name name) v) t' := by
  refine fun h => ⟨Tables.plain_set h t _ v, funext fun k => ?_⟩
  show ((n.set t (.name name) v).own t' (.name k)).bind _ = (n.own t' (.name k)).bind _
  by_cases hname : Key.name name = .name protoName
  · rw [Tables.set, if_pos hname]
  · rw [Tables.own_set n t _ v hname, if_neg fun h => hne h.1]

/-- Property tables have the laws. -/
theorem QuickJs.tables_plainObjects (allocates : ℕ → Bool) :
    (QuickJs.tables allocates).PlainObjects Observation.tables where
  nameOf_injOn := fun _ _ _ _ h => h
  newObject := by
    rintro c n t n' h
    cases h
    refine ⟨⟨?_, rfl⟩, ?_, ⟨c, n.objects + 1, rfl, le_rfl⟩, fun k => ?_⟩
    · rintro t ⟨d, ref, rfl, href⟩
      have hne : JsValue.object d ref false ≠ .object c (n.objects + 1) false := by
        rintro heq
        cases heq
        omega
      refine ⟨⟨d, ref, rfl, Nat.le_succ_of_le href⟩, funext fun k => ?_⟩
      exact congrArg (Option.bind · JsValue.reading)
        ((Tables.own_filter n _ _ _ _).trans (if_neg hne))
    · rintro ⟨d, ref, heq, href⟩
      cases heq
      omega
    · exact congrArg (Option.bind · JsValue.reading)
        ((Tables.own_filter n _ _ _ _).trans (if_pos rfl))
  newStringLen := by
    rintro c s n v n' h
    cases h
    exact ⟨.refl _ n, rfl⟩
  newBool _ _ _ := rfl
  newInt32 _ _ _ := rfl
  null _ := rfl
  read_plain := by
    rintro n t ⟨c, ref, rfl, href⟩
    rfl
  getGlobalObject := by
    rintro c n g n' h
    cases h
    exact ⟨.refl _ n, rfl⟩
  global_plain := by
    rintro c n g h
    cases h
    exact ⟨c, 0, rfl, Nat.zero_le _⟩
  setPropertyStr := by
    rintro c t name v ρ n u n' ht hv h
    cases h
    refine ⟨⟨Tables.plain_set ht t _ v, fun hname => ?_, fun hname _ => ?_,
      fun _ t' hne => Observation.tables_set_ne hne n name v, rfl⟩,
      fun t' hne _ => Observation.tables_set_ne hne n name v⟩
    · have hkey : Key.name name ≠ .name protoName := fun h => hname (Key.name.inj h)
      funext k
      show ((n.set t (.name name) v).own t (.name k)).bind _ = _
      rw [Tables.own_set n t _ v hkey, Function.update_apply]
      show _ = if k = name then _ else _
      by_cases hk : k = name
      · rw [if_pos ⟨rfl, congrArg Key.name hk⟩, if_pos hk]
        exact hv
      · rw [if_neg fun h => hk (Key.name.inj h.2), if_neg hk]
        rfl
    · have hkey : Key.name name = .name protoName := congrArg Key.name hname
      show Observation.tables.own (n.set t (.name name) v) t = Observation.tables.own n t
      rw [Tables.set, if_pos hkey]
  freeGlobal := fun _ _ _ _ _ _ _ n₂ _ _ => .refl _ n₂

end ProxyPP.Qjs
