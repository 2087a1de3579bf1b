import ProxyPP.Qjs.Runtime

/-!
# ProxyPP.Qjs.Value — `value.cpp`

A `Value` owns one handle, through a `unique_ptr` to an `Impl` with the context pointer, the handle
and the flag of ownership.  `SetProperty` and `SetElement` take their value by value: the parameter
is moved into, released to QuickJS or not, and destroyed at the end of the call.
-/

namespace ProxyPP.Qjs

open ProxyPP ProxyPP.Lib
open ProxyPP.Rules (Error ErrorCode QjsErrc)

variable {N J : Type}

/-- `Value::Impl` -/
structure Impl (J : Type) where
  context : JSContext
  value : Handle J
  ownsValue : Bool
  deriving DecidableEq, Repr

/-- `Value`: its `unique_ptr`, null in a moved-from value. -/
structure Value (J : Type) where
  impl : Option (Impl J)
  deriving DecidableEq, Repr

variable (Q : QuickJs N J)

/-- `JS_UNDEFINED` in a released `Impl`: nothing to free. -/
def noHandle : Handle J := ⟨0, nullptr, Q.undefined⟩

namespace Impl

def isValid (i : Impl J) : Bool := i.context ≠ nullptr ∧ i.ownsValue

/-- `~Impl` -/
def destroy (i : Impl J) (r : Runtime N J) : Runtime N J :=
  if i.ownsValue ∧ i.context ≠ nullptr then freeValue Q i.context i.value r else r

/-- `Release()`: the handle, and the `Impl` without it. -/
def release (i : Impl J) : Handle J × Impl J := (i.value, ⟨nullptr, noHandle Q, false⟩)

end Impl

/-- `detail::ValueAccess::Adopt` -/
def adopt (context : JSContext) (value : J) : EStateM Error (Runtime N J) (Value J) := do
  let handle ← newHandle context value
  if Q.allocates handle.id then pure ⟨some ⟨context, handle, true⟩⟩
  else
    modify (freeValue Q context handle)
    throw ⟨.internalError, ascii "failed to adopt JS value"⟩

namespace Value

/-! ## Making a value -/

/-- What the factories share: the context is checked, and the value made is adopted. -/
def create (context : JSContext) (make : EStateM Error (Runtime N J) J) :
    EStateM Error (Runtime N J) (Value J) := do
  if context = nullptr then throw (qjsError .invalidContext [])
  let value ← make
  adopt Q context value

def globalObject (context : JSContext) : EStateM Error (Runtime N J) (Value J) :=
  create Q context (call .jsInternalError (Q.getGlobalObject context))

def undefined (context : JSContext) : EStateM Error (Runtime N J) (Value J) :=
  create Q context (pure Q.undefined)

def null (context : JSContext) : EStateM Error (Runtime N J) (Value J) :=
  create Q context (pure Q.null)

def bool (context : JSContext) (value : Bool) : EStateM Error (Runtime N J) (Value J) :=
  create Q context (pure (Q.newBool context value))

def int32 (context : JSContext) (value : Int32) : EStateM Error (Runtime N J) (Value J) :=
  create Q context (pure (Q.newInt32 context value))

def string (context : JSContext) (value : Bytes) : EStateM Error (Runtime N J) (Value J) :=
  create Q context (call .jsInternalError (Q.newStringLen context value))

def object (context : JSContext) : EStateM Error (Runtime N J) (Value J) :=
  create Q context (call .jsInternalError (Q.newObject context))

def array (context : JSContext) : EStateM Error (Runtime N J) (Value J) :=
  create Q context (call .jsInternalError (Q.newArray context))

/-! ## Reading a value -/

/-- `impl_->IsValid()`, `false` for a null `unique_ptr`. -/
def isValid (v : Value J) : Bool := v.impl.any Impl.isValid

/-- `impl_->Context()` -/
def context (v : Value J) : JSContext := v.impl.elim nullptr Impl.context

/-- `impl_->NativeHandle()` -/
def nativeHandle (v : Value J) : Handle J := v.impl.elim (noHandle Q) Impl.value

def isObject (v : Value J) : Bool := v.isValid && Q.isObject (v.nativeHandle Q).value

def isArray (v : Value J) : Bool := v.isValid && Q.isArray (v.nativeHandle Q).value

/-- `~Value` -/
def destroy (v : Value J) (r : Runtime N J) : Runtime N J := v.impl.elim r fun i => i.destroy Q r

/-- `value.impl_->Release()` -/
def release (v : Value J) : Handle J × Value J :=
  (v.nativeHandle Q, ⟨v.impl.map fun i => (i.release Q).2⟩)

/-! ## Properties -/

def invalidValue (reason : Bytes) : Error := qjsError .invalidValue reason

def getProperty (v : Value J) (name : Bytes) : EStateM Error (Runtime N J) (Value J) := do
  if !v.isValid then throw (invalidValue (ascii "target is invalid"))
  let value ← call .getPropertyFailed (Q.getPropertyStr v.context (v.nativeHandle Q).value name)
  adopt Q v.context value

def getElement (v : Value J) (index : UInt32) : EStateM Error (Runtime N J) (Value J) := do
  if !v.isValid then throw (invalidValue (ascii "target is invalid"))
  if !v.isArray Q then throw (invalidValue (ascii "target is not an array"))
  let value ← call .getElementFailed (Q.getPropertyUint32 v.context (v.nativeHandle Q).value index)
  adopt Q v.context value

/-- What a setter checks and does besides the checks all setters share. -/
structure Setting (N J : Type) where
  accepts : Value J → Bool
  notAccepted : Bytes
  valueInvalid : Bytes
  failed : QjsErrc
  key : Key
  set : JSContext → J → J → EStateM Bytes N PUnit

/-- What `SetProperty` and `SetElement` share.  The parameter `value` is destroyed on every path;
after `Release` that frees nothing. -/
def store (s : Setting N J) (v value : Value J) : EStateM Error (Runtime N J) PUnit :=
  if !v.isValid then atExit (value.destroy Q) (throw (invalidValue (ascii "target is invalid")))
  else if !s.accepts v then atExit (value.destroy Q) (throw (invalidValue s.notAccepted))
  else if !value.isValid then atExit (value.destroy Q) (throw (invalidValue s.valueInvalid))
  else if v.context ≠ value.context then
    atExit (value.destroy Q) (throw (qjsError .contextMismatch []))
  else
    let (released, value) := value.release Q
    atExit (value.destroy Q) do
      modify (takeOver (v.nativeHandle Q) s.key released)
      call s.failed (s.set v.context (v.nativeHandle Q).value released.value)

def propertySetting (name : Bytes) : Setting N J where
  accepts := isObject Q
  notAccepted := ascii "target is not an object"
  valueInvalid := ascii "property value is invalid"
  failed := .setPropertyFailed
  key := .name name
  set context target value := Q.setPropertyStr context target name value

def setProperty (v : Value J) (name : Bytes) (value : Value J) :
    EStateM Error (Runtime N J) PUnit := store Q (propertySetting Q name) v value

def elementSetting (index : UInt32) : Setting N J where
  accepts := isArray Q
  notAccepted := ascii "target is not an array"
  valueInvalid := ascii "value to set is invalid"
  failed := .setElementFailed
  key := .index index
  set context target value := Q.setPropertyUint32 context target index value

def setElement (v : Value J) (index : UInt32) (value : Value J) :
    EStateM Error (Runtime N J) PUnit := store Q (elementSetting Q index) v value

/-! ## The handle a value owns -/

/-- The handle a valid value holds. -/
def owned (v : Value J) : Option (Handle J) :=
  v.impl.bind fun i => if i.isValid then some i.value else none

/-- The value that was just adopted. -/
def owner (handle : Handle J) : Value J := ⟨some ⟨handle.context, handle, true⟩⟩

variable {Q}

theorem isValid_eq (v : Value J) : v.isValid = v.owned.isSome := by
  rcases v with ⟨_ | i⟩
  · rfl
  · show i.isValid = (if i.isValid then some i.value else none).isSome
    cases i.isValid with
    | true => rfl
    | false => rfl

theorem isValid_of_owned {v : Value J} {h : Handle J} (hv : v.owned = some h) :
    v.isValid = true := by
  rw [isValid_eq, hv]; rfl

theorem exists_owned {v : Value J} (hv : v.isValid = true) : ∃ h, v.owned = some h :=
  Option.isSome_iff_exists.mp (by rw [← isValid_eq]; exact hv)

theorem context_of_isValid (v : Value J) (hv : v.isValid = true) : v.context ≠ nullptr := by
  rcases v with ⟨_ | i⟩
  · cases hv
  · have hi : i.isValid = true := hv
    have h : i.context ≠ nullptr ∧ i.ownsValue = true := by simpa [Impl.isValid] using hi
    exact h.1

theorem nativeHandle_of_owned {v : Value J} {h : Handle J} (hv : v.owned = some h) :
    v.nativeHandle Q = h := by
  rcases v with ⟨_ | i⟩
  · cases hv
  · have hi : (if i.isValid then some i.value else none) = some h := hv
    split_ifs at hi
    exact Option.some.inj hi

theorem owned_owner {h : Handle J} (hc : h.context ≠ nullptr) : (owner h).owned = some h := by
  show (if Impl.isValid ⟨h.context, h, true⟩ then some h else none) = some h
  rw [if_pos (by simp [Impl.isValid, hc])]

/-- A destructor frees the handle that is owned, if any. -/
theorem destroy_eq (v : Value J) (r : Runtime N J) :
    v.destroy Q r = v.owned.elim r fun h => freeValue Q v.context h r := by
  rcases v with ⟨_ | ⟨c, h, owns⟩⟩
  · rfl
  · show (if owns = true ∧ c ≠ nullptr then freeValue Q c h r else r)
      = (if Impl.isValid ⟨c, h, owns⟩ then some h else none).elim r fun h => freeValue Q c h r
    by_cases hv : owns = true ∧ c ≠ nullptr
    · rw [if_pos hv, if_pos (by simpa [Impl.isValid] using And.comm.mp hv)]
      rfl
    · rw [if_neg hv, if_neg (by simpa [Impl.isValid, and_comm] using hv)]
      rfl

/-- After `Release` the destructor frees nothing. -/
theorem destroy_release (v : Value J) (r : Runtime N J) : ((v.release Q).2).destroy Q r = r := by
  rcases v with ⟨_ | i⟩
  · rfl
  · show (i.release Q).2.destroy Q r = r
    rw [Impl.destroy, if_neg (by simp [Impl.release])]

end Value

/-! ## The books -/

/-- No handle was made or departed. -/
structure SameBooks (r r' : Runtime N J) : Prop where
  created : r'.created = r.created
  departures : r'.departures = r.departures

theorem SameBooks.refl (r : Runtime N J) : SameBooks r r := ⟨rfl, rfl⟩

theorem ends_call_sameBooks {α : Type} {errc : QjsErrc} {m : EStateM Bytes N α} {r : Runtime N J}
    {P : α → Prop} (h : ∀ a n, m r.native = .ok a n → P a) : Ends (call errc m) r
      (fun a r' => P a ∧ SameBooks r r') (fun _ r' => SameBooks r r') :=
  ends_call (fun a n hr => ⟨h a n hr, rfl, rfl⟩) fun _ _ _ => ⟨rfl, rfl⟩

/-- One new handle, of a value with `P` and of `context`, is with the value returned; without one
there is no new handle, or it was freed. -/
def Issues (P : J → Prop) (context : JSContext) (m : EStateM Error (Runtime N J) (Value J))
    (r : Runtime N J) : Prop :=
  Ends m r
    (fun v r' => ∃ j, P j ∧ context ≠ nullptr ∧ v = .owner ⟨r.created, context, j⟩ ∧
      r'.created = r.created + 1 ∧ r'.departures = r.departures)
    fun _ r' => SameBooks r r' ∨ ∃ j, r'.created = r.created + 1 ∧
      r'.departures = r.departures ++ [.freed ⟨r.created, context, j⟩]

variable {Q} {P : J → Prop}

theorem adopt_issues {context : JSContext} (hc : context ≠ nullptr) {j : J} (hj : P j)
    {r₀ r : Runtime N J} (hbooks : SameBooks r₀ r) : Ends (adopt Q context j) r
      (fun v r' => ∃ j, P j ∧ context ≠ nullptr ∧ v = .owner ⟨r₀.created, context, j⟩ ∧
        r'.created = r₀.created + 1 ∧ r'.departures = r₀.departures)
      (fun _ r' => SameBooks r₀ r' ∨ ∃ j, r'.created = r₀.created + 1 ∧
        r'.departures = r₀.departures ++ [.freed ⟨r₀.created, context, j⟩]) := by
  obtain ⟨hcreated, hdepartures⟩ := hbooks
  rw [← hcreated, ← hdepartures]
  refine ends_bind (Ends.of_ok (a := ⟨r.created, context, j⟩)
    (t := { r with created := r.created + 1 }) rfl ?_)
  refine ends_ite (fun _ => ends_pure ?_) fun _ => ends_bind (ends_modify (ends_throw ?_))
  · exact ⟨j, hj, hc, rfl, rfl, rfl⟩
  · exact Or.inr ⟨j, rfl, rfl⟩

/-- A value that was made, or not, is adopted. -/
theorem adopted_issues {context : JSContext} (hc : context ≠ nullptr)
    {make : EStateM Error (Runtime N J) J} {r : Runtime N J}
    (h : Ends make r (fun j r' => P j ∧ SameBooks r r') fun _ r' => SameBooks r r') :
    Issues P context (make >>= adopt Q context) r := by
  refine ends_bind (h.mono ?_ ?_)
  · rintro j r' ⟨hj, hbooks⟩
    exact adopt_issues hc hj hbooks
  · intro e r' hbooks
    exact Or.inl hbooks

theorem create_issues {context : JSContext} {make : EStateM Error (Runtime N J) J}
    {r : Runtime N J} (h : context ≠ nullptr → Ends make r (fun j r' => P j ∧ SameBooks r r')
      (fun _ r' => SameBooks r r')) : Issues P context (Value.create Q context make) r := by
  unfold Value.create
  by_cases hc : context = nullptr
  · rw [if_pos hc]
    exact ends_bind (ends_throw (Or.inl (SameBooks.refl r)))
  · rw [if_neg hc]
    exact adopted_issues hc (h hc)

/-- `GetProperty`: an invalid target is refused before anything is called. -/
theorem getProperty_issues {v : Value J} {name : Bytes} {r : Runtime N J}
    (h : ∀ j n, v.isValid = true →
      Q.getPropertyStr v.context (v.nativeHandle Q).value name r.native = .ok j n → P j) :
    Issues P v.context (v.getProperty Q name) r := by
  unfold Value.getProperty
  by_cases hv : v.isValid = true
  · rw [if_neg (by simp [hv])]
    exact adopted_issues (v.context_of_isValid hv) (ends_call_sameBooks fun j n hr => h j n hv hr)
  · rw [if_pos (by simpa using hv)]
    exact ends_bind (ends_throw (Or.inl (SameBooks.refl r)))

theorem getElement_issues {v : Value J} {index : UInt32} {r : Runtime N J}
    (h : ∀ j n, v.isValid = true →
      Q.getPropertyUint32 v.context (v.nativeHandle Q).value index r.native = .ok j n → P j) :
    Issues P v.context (v.getElement Q index) r := by
  unfold Value.getElement
  by_cases hv : v.isValid = true
  · rw [if_neg (by simp [hv])]
    by_cases harr : v.isArray Q = true
    · rw [if_neg (by simp [harr])]
      exact adopted_issues (v.context_of_isValid hv) (ends_call_sameBooks fun j n hr => h j n hv hr)
    · rw [if_pos (by simpa using harr)]
      exact ends_bind (ends_throw (Or.inl (SameBooks.refl r)))
  · rw [if_pos (by simpa using hv)]
    exact ends_bind (ends_throw (Or.inl (SameBooks.refl r)))

/-! ## Setting a property -/

/-- The setter refuses to call QuickJS. -/
def Rejected (e : Error) : Prop := e.code = .qjs .invalidValue ∨ e.code = .qjs .contextMismatch

/-- The handle of `value` is handed over to QuickJS as a property of the object that `v` holds, and
nothing else happens to the books. -/
structure HandsOver (s : Value.Setting N J) (v value : Value J) (r r' : Runtime N J) : Prop where
  accepts : s.accepts v = true
  context : v.context = value.context
  created : r'.created = r.created
  departures : ∃ t h, v.owned = some t ∧ value.owned = some h ∧
    r'.departures = r.departures ++ [.handedOver t s.key h]

/-- **`SetProperty`, `SetElement`.**  A call hands the passed handle over, whether QuickJS then
fails or not, or it is refused before QuickJS is called and the handle is freed. -/
theorem store_ends {s : Value.Setting N J} (hs : ¬ Rejected ⟨.qjs s.failed, []⟩) (v value : Value J)
    (r : Runtime N J) : Ends (Value.store Q s v value) r
      (fun _ r' => HandsOver s v value r r')
      (fun e r' => (Rejected e ∧ r' = value.destroy Q r) ∨
        (¬ Rejected e ∧ HandsOver s v value r r')) := by
  have hrefuse : ∀ e, Rejected e → Ends (atExit (value.destroy Q) (throw e)) r
      (fun (_ : PUnit) r' => HandsOver s v value r r')
      (fun e r' => (Rejected e ∧ r' = value.destroy Q r) ∨
        (¬ Rejected e ∧ HandsOver s v value r r')) :=
    fun e he => ends_atExit (ends_throw (Or.inl ⟨he, rfl⟩))
  unfold Value.store
  by_cases hv : v.isValid = true
  case neg =>
    rw [if_pos (by simpa using hv)]
    exact hrefuse _ (Or.inl rfl)
  by_cases hacc : s.accepts v = true
  case neg =>
    rw [if_neg (by simp [hv]), if_pos (by simpa using hacc)]
    exact hrefuse _ (Or.inl rfl)
  by_cases hval : value.isValid = true
  case neg =>
    rw [if_neg (by simp [hv]), if_neg (by simp [hacc]), if_pos (by simpa using hval)]
    exact hrefuse _ (Or.inl rfl)
  by_cases hctx : v.context = value.context
  case neg =>
    rw [if_neg (by simp [hv]), if_neg (by simp [hacc]), if_neg (by simp [hval]), if_pos hctx]
    exact hrefuse _ (Or.inr rfl)
  rw [if_neg (by simp [hv]), if_neg (by simp [hacc]), if_neg (by simp [hval]),
    if_neg (not_not.mpr hctx)]
  obtain ⟨t, ht⟩ := Value.exists_owned hv
  obtain ⟨h, hh⟩ := Value.exists_owned hval
  have hover : ∀ n, HandsOver s v value r ((value.release Q).2.destroy Q { r with
      native := n
      departures := r.departures
        ++ [.handedOver (v.nativeHandle Q) s.key (value.nativeHandle Q)] }) := by
    intro n
    rw [Value.destroy_release, Value.nativeHandle_of_owned ht, Value.nativeHandle_of_owned hh]
    exact ⟨hacc, hctx, rfl, t, h, ht, hh, rfl⟩
  refine ends_atExit (ends_bind (ends_modify (ends_call ?_ ?_)))
  · intro a n _
    exact hover n
  · intro message n _
    exact Or.inr ⟨hs, hover n⟩

/-- What it takes for `SetProperty` to succeed. -/
theorem setProperty_eq_ok {v value : Value J} {name : Bytes} {r r' : Runtime N J}
    (h : v.setProperty Q name value r = .ok ⟨⟩ r') : v.isValid = true ∧ v.isObject Q = true ∧
      ∃ n, Q.setPropertyStr v.context (v.nativeHandle Q).value name (value.nativeHandle Q).value
        r.native = .ok ⟨⟩ n ∧ r'.native = n := by
  have hfail (e : Error) :
      atExit (value.destroy Q) (throw e : EStateM Error (Runtime N J) PUnit) r ≠ .ok ⟨⟩ r' := by
    intro h
    obtain ⟨u, hu, -⟩ := atExit_eq_ok.mp h
    cases hu
  unfold Value.setProperty Value.store at h
  split_ifs at h with hv hacc hval hctx
  · exact absurd h (hfail _)
  · exact absurd h (hfail _)
  · exact absurd h (hfail _)
  · exact absurd h (hfail _)
  obtain ⟨r₁, hrun, hr'⟩ := atExit_eq_ok.mp h
  obtain ⟨u, r₂, hover, hset⟩ := bind_eq_ok.mp hrun
  cases hover
  obtain ⟨n, hcall, rfl⟩ := call_eq_ok.mp hset
  have hobject : (Value.propertySetting Q name).accepts v = true := by simpa using hacc
  refine ⟨by simpa using hv, hobject, n, hcall, ?_⟩
  exact congrArg Runtime.native (hr'.trans (Value.destroy_release value _))

/-- What it takes for a factory to succeed. -/
theorem create_eq_ok {context : JSContext} {make : EStateM Error (Runtime N J) J} {v : Value J}
    {r r' : Runtime N J} (h : Value.create Q context make r = .ok v r') : context ≠ nullptr ∧
      ∃ j r₁, make r = .ok j r₁ ∧ v = .owner ⟨r₁.created, context, j⟩ ∧
        r' = { r₁ with created := r₁.created + 1 } := by
  unfold Value.create at h
  by_cases hc : context = nullptr
  · rw [if_pos hc] at h
    cases h
  rw [if_neg hc] at h
  obtain ⟨j, r₁, hmake, hadopt⟩ := bind_eq_ok.mp h
  refine ⟨hc, j, r₁, hmake, ?_⟩
  obtain ⟨handle, r₂, hnew, hwrap⟩ := bind_eq_ok.mp hadopt
  cases hnew
  by_cases halloc : Q.allocates r₁.created = true
  · rw [if_pos halloc] at hwrap
    cases hwrap
    exact ⟨rfl, rfl⟩
  · rw [if_neg halloc] at hwrap
    cases hwrap

end ProxyPP.Qjs
