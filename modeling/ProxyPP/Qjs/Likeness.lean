import ProxyPP.Lib.Relational
import ProxyPP.Qjs.Api
import ProxyPP.Qjs.ObjectBuilder

/-!
# ProxyPP.Qjs.Likeness — what can be told of a shared QuickJS

A `Likeness` relates states of QuickJS, contexts and values that are the same to one user of it,
whatever contexts and handles other users have made beside.  If the calls of QuickJS keep it
(`Api.AnswersAlike`), so do the wrappers of the proxy: neither the numbers of the handles nor the
books come through in what they return.
-/

namespace ProxyPP.Qjs

open ProxyPP ProxyPP.Lib
open ProxyPP.Rules (Error ErrorCode QjsErrc)

variable {N J ε α β : Type}

/-! ## Alike to one user -/

structure Likeness (N J : Type) where
  states : N → N → Prop
  contexts : JSContext → JSContext → Prop
  values : J → J → Prop

/-- Two calls that end alike. -/
def Likeness.Calls (L : Likeness N J) (P : α → β → Prop) (f : N → α × N) (f' : N → β × N) : Prop :=
  ∀ n n', L.states n n' → P (f n).1 (f' n').1 ∧ L.states (f n).2 (f' n').2

/-- Two ways to free something that end alike. -/
def Likeness.Frees (L : Likeness N J) (f f' : N → N) : Prop :=
  ∀ n n', L.states n n' → L.states (f n) (f' n')

/-- The calls of QuickJS answer alike on contexts and values that are alike.  Memory for wrappers
does not run out. -/
structure Api.AnswersAlike (A : Api N J) (L : Likeness N J) : Prop where
  nullptr : ∀ {c c'}, L.contexts c c' → (c = nullptr ↔ c' = nullptr)
  null : L.values A.null A.null
  newBool : ∀ {c c'} b, L.contexts c c' → L.values (A.newBool c b) (A.newBool c' b)
  newInt32 : ∀ {c c'} i, L.contexts c c' → L.values (A.newInt32 c i) (A.newInt32 c' i)
  newStringLen : ∀ {c c'} s, L.contexts c c' →
    L.Calls L.values (A.newStringLen c s) (A.newStringLen c' s)
  newObject : ∀ {c c'}, L.contexts c c' → L.Calls L.values (A.newObject c) (A.newObject c')
  getGlobalObject : ∀ {c c'}, L.contexts c c' →
    L.Calls L.values (A.getGlobalObject c) (A.getGlobalObject c')
  setPropertyStr : ∀ {c c' t t' v v'} name, L.contexts c c' → L.values t t' → L.values v v' →
    L.Calls Eq (A.setPropertyStr c t name v) (A.setPropertyStr c' t' name v')
  eval : ∀ {c c'} expr file, L.contexts c c' →
    L.Calls L.values (A.eval c expr file) (A.eval c' expr file)
  toBool : ∀ {c c' v v'}, L.contexts c c' → L.values v v' →
    L.Calls Eq (A.toBool c v) (A.toBool c' v')
  toCString : ∀ {c c' v v'}, L.contexts c c' → L.values v v' →
    L.Calls Eq (A.toCString c v) (A.toCString c' v')
  getException : ∀ {c c'}, L.contexts c c' →
    L.Calls L.values (A.getException c) (A.getException c')
  freeValue : ∀ {c c' v v'}, L.contexts c c' → L.values v v' →
    L.Frees (A.freeValue c v) (A.freeValue c' v')
  freeCString : ∀ {c c'} s, L.contexts c c' → L.Frees (A.freeCString c s) (A.freeCString c' s)
  newContext : L.Calls L.contexts A.newContext A.newContext
  freeContext : ∀ {c c'}, L.contexts c c' → L.Frees (A.freeContext c) (A.freeContext c')
  isException : ∀ {v v'}, L.values v v' → A.isException v = A.isException v'
  isUndefined : ∀ {v v'}, L.values v v' → A.isUndefined v = A.isUndefined v'
  isNull : ∀ {v v'}, L.values v v' → A.isNull v = A.isNull v'
  isBool : ∀ {v v'}, L.values v v' → A.isBool v = A.isBool v'
  isObject : ∀ {v v'}, L.values v v' → A.isObject v = A.isObject v'
  allocates : ∀ id, A.allocates id = true

/-- The same of calls whose exceptions are drained. -/
structure Interpreter.AnswersAlike (I : Interpreter N J) (L : Likeness N J) : Prop where
  nullptr : ∀ {c c'}, L.contexts c c' → (c = nullptr ↔ c' = nullptr)
  null : L.values I.null I.null
  newBool : ∀ {c c'} b, L.contexts c c' → L.values (I.newBool c b) (I.newBool c' b)
  newInt32 : ∀ {c c'} i, L.contexts c c' → L.values (I.newInt32 c i) (I.newInt32 c' i)
  newStringLen : ∀ {c c'} s, L.contexts c c' →
    Corresponds L.states L.values (I.newStringLen c s) (I.newStringLen c' s)
  newObject : ∀ {c c'}, L.contexts c c' →
    Corresponds L.states L.values (I.newObject c) (I.newObject c')
  getGlobalObject : ∀ {c c'}, L.contexts c c' →
    Corresponds L.states L.values (I.getGlobalObject c) (I.getGlobalObject c')
  setPropertyStr : ∀ {c c' t t' v v'} name, L.contexts c c' → L.values t t' → L.values v v' →
    Corresponds L.states Eq (I.setPropertyStr c t name v) (I.setPropertyStr c' t' name v')
  evalGlobal : ∀ {c c'} expr file, L.contexts c c' →
    Corresponds L.states L.values (I.evalGlobal c expr file) (I.evalGlobal c' expr file)
  toBool : ∀ {c c' v v'}, L.contexts c c' → L.values v v' →
    Corresponds L.states Eq (I.toBool c v) (I.toBool c' v')
  freeValue : ∀ {c c' v v'}, L.contexts c c' → L.values v v' →
    L.Frees (I.freeValue c v) (I.freeValue c' v')
  newContext : L.Calls L.contexts I.newContext I.newContext
  freeContext : ∀ {c c'}, L.contexts c c' → L.Frees (I.freeContext c) (I.freeContext c')
  isBool : ∀ {v v'}, L.values v v' → I.isBool v = I.isBool v'
  isObject : ∀ {v v'}, L.values v v' → I.isObject v = I.isObject v'
  allocates : ∀ id, I.allocates id = true

/-! ## The checked calls -/

/-- The books on temporaries and contexts are not related. -/
def Likeness.native (L : Likeness N J) : Likeness (Native N) J where
  states n n' := L.states n.state n'.state
  contexts := L.contexts
  values := L.values

namespace Api

variable {A : Api N J} {L : Likeness N J}

theorem native_corresponds {P : α → β → Prop} {f : N → α × N} {f' : N → β × N}
    (h : L.Calls P f f') : Corresponds L.native.states P (native f : EStateM ε (Native N) α)
      (native f' : EStateM ε (Native N) β) := by
  intro n n' hn
  obtain ⟨hP, hstates⟩ := h n.state n'.state hn
  exact .ok hP hstates

theorem take_corresponds :
    Corresponds L.native.states (fun _ _ => True) (take : EStateM ε (Native N) ℕ) take :=
  fun _ _ hn => .ok trivial hn

theorem giveBack_corresponds {f f' : N → N} (h : L.Frees f f') (id id' : ℕ) :
    Corresponds L.native.states Eq (giveBack id f : EStateM ε (Native N) PUnit)
      (giveBack id' f') :=
  corresponds_modify fun n n' hn => h n.state n'.state hn

variable (hA : A.AnswersAlike L) {c c' : JSContext} (hc : L.contexts c c')

include hA hc

theorem getExceptionMessage_corresponds : Corresponds L.native.states Eq
    (A.getExceptionMessage c : EStateM ε (Native N) Bytes) (A.getExceptionMessage c') := by
  refine (native_corresponds (hA.getException hc)).bind fun exception exception' hexc => ?_
  refine take_corresponds.bind fun ref ref' _ => ?_
  rw [hA.isNull hexc, hA.isUndefined hexc]
  have hfree : ∀ id id', Corresponds L.native.states Eq
      (giveBack id (A.freeValue c exception) : EStateM ε (Native N) PUnit)
      (giveBack id' (A.freeValue c' exception')) := giveBack_corresponds (hA.freeValue hc hexc)
  refine corresponds_ite (fun _ => (hfree ref ref').bind_eq fun _ => corresponds_pure rfl)
    fun _ => ?_
  refine (native_corresponds (hA.toCString hc hexc)).bind_eq fun cStr => ?_
  cases cStr with
  | none =>
    refine (native_corresponds (hA.getException hc)).bind fun convert convert' hconvert => ?_
    refine take_corresponds.bind fun convertRef convertRef' _ => ?_
    refine (giveBack_corresponds (hA.freeValue hc hconvert) _ _).bind_eq fun _ => ?_
    exact (hfree ref ref').bind_eq fun _ => corresponds_pure rfl
  | some cStr =>
    refine take_corresponds.bind fun str str' _ => ?_
    refine (giveBack_corresponds (hA.freeCString cStr hc) _ _).bind_eq fun _ => ?_
    exact (hfree ref ref').bind_eq fun _ => corresponds_pure rfl

theorem checked_corresponds {f f' : N → J × N} (hf : L.Calls L.values f f') :
    Corresponds L.native.states L.values (A.checked c f) (A.checked c' f') := by
  refine (native_corresponds hf).bind fun value value' hvalue => ?_
  rw [hA.isException hvalue]
  refine corresponds_ite (fun _ => ?_) fun _ => corresponds_pure hvalue
  refine (getExceptionMessage_corresponds hA hc).bind_eq fun message => ?_
  refine (corresponds_modify fun n n' hn => ?_).bind_eq fun _ => corresponds_throw _
  exact hA.freeValue hc hvalue n.state n'.state hn

theorem checkedStatus_corresponds {status : α → ℤ} {f f' : N → α × N} (hf : L.Calls Eq f f') :
    Corresponds L.native.states Eq (A.checkedStatus c status f) (A.checkedStatus c' status f') := by
  refine (native_corresponds hf).bind_eq fun result => ?_
  refine corresponds_ite (fun _ => ?_) fun _ => corresponds_pure rfl
  exact (getExceptionMessage_corresponds hA hc).bind_eq fun message => corresponds_throw _

omit hc in
/-- **Checked calls** answer alike if the calls do. -/
theorem AnswersAlike.interpreter : A.interpreter.AnswersAlike L.native where
  nullptr := hA.nullptr
  null := hA.null
  newBool := hA.newBool
  newInt32 := hA.newInt32
  newStringLen s hc := checked_corresponds hA hc (hA.newStringLen s hc)
  newObject hc := checked_corresponds hA hc (hA.newObject hc)
  getGlobalObject hc := checked_corresponds hA hc (hA.getGlobalObject hc)
  setPropertyStr name hc ht hv :=
    (checkedStatus_corresponds hA hc (hA.setPropertyStr name hc ht hv)).bind_eq fun _ =>
      corresponds_pure rfl
  evalGlobal expr file hc := checked_corresponds hA hc (hA.eval expr file hc)
  toBool hc hv :=
    (checkedStatus_corresponds hA hc (hA.toBool hc hv)).bind_eq fun _ => corresponds_pure rfl
  freeValue hc hv n n' hn := hA.freeValue hc hv n.state n'.state hn
  newContext n n' hn := hA.newContext n.state n'.state hn
  freeContext hc n n' hn := hA.freeContext hc n.state n'.state hn
  isBool := hA.isBool
  isObject := hA.isObject
  allocates := hA.allocates

end Api

/-! ## Values -/

/-- The numbers of the handles and the books are not related. -/
def RuntimesAlike (L : Likeness N J) (r r' : Runtime N J) : Prop := L.states r.native r'.native

/-- Each of the values holds a handle, to values that are alike. -/
inductive HeldAlike (L : Likeness N J) (c c' : JSContext) : Value J → Value J → Prop
  | mk (id id' : ℕ) {j j' : J} (h : L.values j j') :
      HeldAlike L c c' (.owner ⟨id, c, j⟩) (.owner ⟨id', c', j'⟩)

theorem call_corresponds {L : Likeness N J} {P : α → β → Prop} {errc : QjsErrc}
    {m : EStateM Bytes N α} {m' : EStateM Bytes N β} (h : Corresponds L.states P m m') :
    Corresponds (RuntimesAlike L) P (call errc m : EStateM Error (Runtime N J) α)
      (call errc m') := by
  intro r r' hr
  have hm := h r.native r'.native hr
  unfold call
  generalize m r.native = x at hm ⊢
  generalize m' r'.native = x' at hm ⊢
  cases hm with
  | ok hP hstates => exact .ok hP hstates
  | error hstates => exact .error hstates

section Wrappers

variable {I : Interpreter N J} {L : Likeness N J} (hI : I.AnswersAlike L) {c c' : JSContext}
  (hc : L.contexts c c') (hne : c ≠ nullptr)

include hI hc

theorem freeValue_alike {id id' : ℕ} {j j' : J} (hj : L.values j j') {r r' : Runtime N J}
    (hr : RuntimesAlike L r r') : RuntimesAlike L (freeValue I.toQuickJs c ⟨id, c, j⟩ r)
      (freeValue I.toQuickJs c' ⟨id', c', j'⟩ r') :=
  hI.freeValue hc hj r.native r'.native hr

omit hc in
theorem adopt_corresponds {j j' : J} (hj : L.values j j') :
    Corresponds (RuntimesAlike L) (HeldAlike L c c') (adopt I.toQuickJs c j)
      (adopt I.toQuickJs c' j') := by
  intro r r' hr
  have hadopt : ∀ (d : JSContext) (i : J) (x : Runtime N J), adopt I.toQuickJs d i x
      = .ok (.owner ⟨x.created, d, i⟩) { x with created := x.created + 1 } := by
    intro d i x
    refine bind_ok (s := x) (t := { x with created := x.created + 1 }) rfl |>.trans ?_
    rw [if_pos (hI.allocates _)]
    rfl
  rw [hadopt, hadopt]
  exact .ok (.mk _ _ hj) hr

include hne

theorem ne_nullptr : c' ≠ nullptr := fun h => hne ((hI.nullptr hc).mpr h)

theorem create_corresponds {make make' : EStateM Error (Runtime N J) J}
    (h : Corresponds (RuntimesAlike L) L.values make make') :
    Corresponds (RuntimesAlike L) (HeldAlike L c c') (Value.create I.toQuickJs c make)
      (Value.create I.toQuickJs c' make') := by
  unfold Value.create
  rw [if_neg hne, if_neg (ne_nullptr hI hc hne)]
  exact h.bind fun j j' hj => adopt_corresponds hI hj

theorem destroy_alike {v v' : Value J} (h : HeldAlike L c c' v v') {r r' : Runtime N J}
    (hr : RuntimesAlike L r r') :
    RuntimesAlike L (v.destroy I.toQuickJs r) (v'.destroy I.toQuickJs r') := by
  have hne' := ne_nullptr hI hc hne
  obtain ⟨id, id', hj⟩ := h
  rw [Value.destroy_eq, Value.destroy_eq, Value.owned_owner hne, Value.owned_owner hne']
  exact freeValue_alike hI hc hj hr

omit hI hc in
theorem HeldAlike.isValid {d : JSContext} (hd : d ≠ nullptr) {v v' : Value J}
    (h : HeldAlike L c d v v') : v.isValid = true ∧ v'.isValid = true := by
  obtain ⟨id, id', hj⟩ := h
  exact ⟨Value.isValid_of_owned (Value.owned_owner hne),
    Value.isValid_of_owned (Value.owned_owner hd)⟩

theorem HeldAlike.isObject {v v' : Value J} (h : HeldAlike L c c' v v') :
    v.isObject I.toQuickJs = v'.isObject I.toQuickJs := by
  obtain ⟨hv, hv'⟩ := h.isValid hne (ne_nullptr hI hc hne)
  unfold Value.isObject
  rw [hv, hv', Bool.true_and, Bool.true_and]
  obtain ⟨id, id', hj⟩ := h
  exact hI.isObject hj

omit hI hc hne in
theorem HeldAlike.context {v v' value value' : Value J} (h : HeldAlike L c c' v v')
    (hvalue : HeldAlike L c c' value value') :
    v.context = value.context ∧ v'.context = value'.context := by
  obtain ⟨id, id', -⟩ := h
  obtain ⟨vid, vid', -⟩ := hvalue
  exact ⟨rfl, rfl⟩

/-- **`SetProperty`.** -/
theorem setProperty_corresponds {v v' value value' : Value J} (name : Bytes)
    (h : HeldAlike L c c' v v') (hvalue : HeldAlike L c c' value value') :
    Corresponds (RuntimesAlike L) Eq (v.setProperty I.toQuickJs name value)
      (v'.setProperty I.toQuickJs name value') := by
  have hne' := ne_nullptr hI hc hne
  obtain ⟨hv, hv'⟩ := h.isValid hne hne'
  obtain ⟨hval, hval'⟩ := hvalue.isValid hne hne'
  have hobject := h.isObject hI hc hne
  have hdestroy : ∀ r r', RuntimesAlike L r r' → RuntimesAlike L (value.destroy I.toQuickJs r)
      (value'.destroy I.toQuickJs r') := fun _ _ hr => destroy_alike hI hc hne hvalue hr
  obtain ⟨hcontext, hcontext'⟩ := h.context hvalue
  unfold Value.setProperty Value.store
  simp only [hv, hv', hval, hval', hcontext, hcontext', ne_eq, not_true, Bool.not_true,
    Bool.false_eq_true, if_false]
  show Corresponds _ _ (if !v.isObject I.toQuickJs then _ else _)
    (if !v'.isObject I.toQuickJs then _ else _)
  rw [hobject]
  refine corresponds_ite (fun _ => (corresponds_throw _).atExit hdestroy) fun _ => ?_
  obtain ⟨id, id', hj⟩ := h
  obtain ⟨vid, vid', hvj⟩ := hvalue
  refine Corresponds.atExit ?_ fun r r' hr => ?_
  · refine Corresponds.bind_eq ?_ fun _ => call_corresponds (hI.setPropertyStr name hc hj hvj)
    exact corresponds_modify fun r r' hr => hr
  · rw [Value.destroy_release, Value.destroy_release]
    exact hr

end Wrappers

/-! ## Builders -/

/-- The same call of a setter, on values that are alike. -/
inductive SetterAlike (L : Likeness N J) (c c' : JSContext) : Setter J → Setter J → Prop
  | setString (name value : Bytes) :
      SetterAlike L c c' (.setString name value) (.setString name value)
  | setBool (name : Bytes) (value : Bool) :
      SetterAlike L c c' (.setBool name value) (.setBool name value)
  | setInt32 (name : Bytes) (value : Int32) :
      SetterAlike L c c' (.setInt32 name value) (.setInt32 name value)
  | setNull (name : Bytes) : SetterAlike L c c' (.setNull name) (.setNull name)
  | setObject (name : Bytes) {object object' : Value J} (h : HeldAlike L c c' object object') :
      SetterAlike L c c' (.setObject name object) (.setObject name object')
  | setValue (name : Bytes) {value value' : Value J} (h : HeldAlike L c c' value value') :
      SetterAlike L c c' (.setValue name value) (.setValue name value')

structure BuildersAlike (L : Likeness N J) (c c' : JSContext) (b b' : ObjectBuilder J) : Prop where
  context : b.context = c
  context' : b'.context = c'
  object : HeldAlike L c c' b.object b'.object
  error : b.error = b'.error

/-- Two steps of a builder that end alike. -/
def BuilderStepsAlike (L : Likeness N J) (c c' : JSContext) (x x' : ObjectBuilder J × Runtime N J) :
    Prop :=
  BuildersAlike L c c' x.1 x'.1 ∧ RuntimesAlike L x.2 x'.2

section Builders

variable {I : Interpreter N J} {L : Likeness N J} (hI : I.AnswersAlike L) {c c' : JSContext}
  (hc : L.contexts c c') (hne : c ≠ nullptr)

include hI hc hne

theorem SetterAlike.make {s s' : Setter J} (h : SetterAlike L c c' s s') :
    Corresponds (RuntimesAlike L) (HeldAlike L c c') (s.make I.toQuickJs c)
      (s'.make I.toQuickJs c') := by
  -- a value that was passed is valid on both sides, and an object on both or on none
  have hpassed : ∀ {v v' : Value J} (e : Error), HeldAlike L c c' v v' →
      ∀ (b b' : Bool), b = b' → Corresponds (RuntimesAlike L) (HeldAlike L c c')
        (if b then atExit (v.destroy I.toQuickJs) (throw e) else pure v :
          EStateM Error (Runtime N J) (Value J))
        (if b' then atExit (v'.destroy I.toQuickJs) (throw e) else pure v') := by
    rintro v v' e hv b _ rfl
    refine corresponds_ite (fun _ => (corresponds_throw e).atExit fun r r' hr => ?_)
      fun _ => corresponds_pure hv
    exact destroy_alike hI hc hne hv hr
  cases h with
  | setString name value =>
    exact create_corresponds hI hc hne (call_corresponds (hI.newStringLen value hc))
  | setBool name value =>
    exact create_corresponds hI hc hne (corresponds_pure (hI.newBool value hc))
  | setInt32 name value =>
    exact create_corresponds hI hc hne (corresponds_pure (hI.newInt32 value hc))
  | setNull name => exact create_corresponds hI hc hne (corresponds_pure hI.null)
  | setObject name hv =>
    obtain ⟨hvalid, hvalid'⟩ := hv.isValid hne (ne_nullptr hI hc hne)
    refine hpassed _ hv _ _ ?_
    rw [hvalid, hvalid', hv.isObject hI hc hne]
  | setValue name hv =>
    obtain ⟨hvalid, hvalid'⟩ := hv.isValid hne (ne_nullptr hI hc hne)
    refine hpassed _ hv _ _ ?_
    rw [hvalid, hvalid']

theorem SetterAlike.drop {s s' : Setter J} (h : SetterAlike L c c' s s') {r r' : Runtime N J}
    (hr : RuntimesAlike L r r') :
    RuntimesAlike L (s.drop I.toQuickJs r) (s'.drop I.toQuickJs r') := by
  cases h with
  | setString name value => exact hr
  | setBool name value => exact hr
  | setInt32 name value => exact hr
  | setNull name => exact hr
  | setObject name hv => exact destroy_alike hI hc hne hv hr
  | setValue name hv => exact destroy_alike hI hc hne hv hr

theorem BuildersAlike.setProperty {b b' : ObjectBuilder J} (hb : BuildersAlike L c c' b b')
    (name : Bytes) {value value' : Value J} (hvalue : HeldAlike L c c' value value')
    {r r' : Runtime N J} (hr : RuntimesAlike L r r') :
    BuilderStepsAlike L c c' (b.setProperty I.toQuickJs name value r)
      (b'.setProperty I.toQuickJs name value' r') := by
  have hset := setProperty_corresponds hI hc hne name hb.object hvalue r r' hr
  unfold ObjectBuilder.setProperty
  generalize b.object.setProperty I.toQuickJs name value r = x at hset ⊢
  generalize b'.object.setProperty I.toQuickJs name value' r' = x' at hset ⊢
  cases hset with
  | ok _ hr => exact ⟨hb, hr⟩
  | error hr => exact ⟨⟨hb.context, hb.context', hb.object, rfl⟩, hr⟩

/-- One setter, in front of an error or behind it. -/
theorem BuildersAlike.apply {b b' : ObjectBuilder J} (hb : BuildersAlike L c c' b b')
    {s s' : Setter J} (hs : SetterAlike L c c' s s') {r r' : Runtime N J}
    (hr : RuntimesAlike L r r') :
    BuilderStepsAlike L c c' (b.apply I.toQuickJs s r) (b'.apply I.toQuickJs s' r') := by
  have hname : s.name = s'.name := by cases hs <;> rfl
  unfold ObjectBuilder.apply
  rw [hb.error, hb.context, hb.context']
  by_cases herror : b'.error.isSome = true
  · rw [if_pos herror, if_pos herror]
    exact ⟨hb, hs.drop hI hc hne hr⟩
  · rw [if_neg herror, if_neg herror]
    have hmake := hs.make hI hc hne r r' hr
    generalize s.make I.toQuickJs c r = x at hmake ⊢
    generalize s'.make I.toQuickJs c' r' = x' at hmake ⊢
    cases hmake with
    | ok hvalue hr =>
      dsimp only
      rw [hname]
      exact hb.setProperty hI hc hne s'.name hvalue hr
    | error hr => exact ⟨⟨rfl, rfl, hb.object, rfl⟩, hr⟩

theorem applyAll_alike {ss ss' : List (Setter J)} (h : List.Forall₂ (SetterAlike L c c') ss ss')
    {b b' : ObjectBuilder J} (hb : BuildersAlike L c c' b b') {r r' : Runtime N J}
    (hr : RuntimesAlike L r r') :
    BuilderStepsAlike L c c' (ObjectBuilder.applyAll I.toQuickJs ss b r)
      (ObjectBuilder.applyAll I.toQuickJs ss' b' r') := by
  induction h generalizing b b' r r' with
  | nil => exact ⟨hb, hr⟩
  | cons hs _ ih =>
    obtain ⟨hb', hr'⟩ := hb.apply hI hc hne hs hr
    exact ih hb' hr'

theorem create_builder_corresponds : Corresponds (RuntimesAlike L) (BuildersAlike L c c')
    (ObjectBuilder.create I.toQuickJs c) (ObjectBuilder.create I.toQuickJs c') :=
  (create_corresponds hI hc hne (call_corresponds (hI.newObject hc))).bind fun _ _ h =>
    corresponds_pure ⟨rfl, rfl, h, rfl⟩

/-- **`Build`.** -/
theorem BuildersAlike.build {b b' : ObjectBuilder J} (hb : BuildersAlike L c c' b b') :
    Corresponds (RuntimesAlike L) (HeldAlike L c c') (b.build I.toQuickJs)
      (b'.build I.toQuickJs) := by
  unfold ObjectBuilder.build
  rw [hb.error]
  cases b'.error with
  | none => exact corresponds_pure hb.object
  | some e =>
    exact (corresponds_throw e).atExit fun r r' hr => destroy_alike hI hc hne hb.object hr

end Builders

/-! ## Property tables -/

/-- Property tables with the same pending exception.  Objects may be different ones, as nothing that
is compared here looks into them. -/
def Likeness.tables : Likeness Api.Pending (Option JsValue) where
  states n n' := n.2 = n'.2
  contexts c c' := c ≠ nullptr ∧ c' ≠ nullptr
  values v v' := v = v' ∨ ∃ c c' ref ref' isArray,
    v = some (.object c ref isArray) ∧ v' = some (.object c' ref' isArray)

/-- A call that raises its error, or none, whatever the tables are. -/
theorem Likeness.tables_raising {m m' : EStateM Bytes Tables JsValue}
    (h : ∀ t t', ResultsAlike (fun _ _ => True)
      (fun v v' => Likeness.tables.values (some v) (some v')) (m t) (m' t')) :
    Likeness.tables.Calls Likeness.tables.values (Api.raising m) (Api.raising m') := by
  intro n n' hn
  have hm := h n.1 n'.1
  unfold Api.raising
  generalize m n.1 = r at hm ⊢
  generalize m' n'.1 = r' at hm ⊢
  cases hm with
  | ok hv _ => exact ⟨hv, hn⟩
  | error _ => exact ⟨Or.inl rfl, rfl⟩

/-- What does not tell objects apart. -/
theorem Likeness.tables_values {f : Option JsValue → β} (h : ∀ c c' ref ref' isArray,
      f (some (.object c ref isArray)) = f (some (.object c' ref' isArray)))
    {v v' : Option JsValue} (hv : Likeness.tables.values v v') : f v = f v' := by
  rcases hv with rfl | ⟨c, c', ref, ref', isArray, rfl, rfl⟩
  · rfl
  · exact h c c' ref ref' isArray

theorem Api.tables_answersAlike : Api.tables.AnswersAlike Likeness.tables where
  nullptr h := iff_of_false h.1 h.2
  null := Or.inl rfl
  newBool _ _ := Or.inl rfl
  newInt32 _ _ := Or.inl rfl
  newStringLen s _ := Likeness.tables_raising fun _ _ => .ok (Or.inl rfl) trivial
  newObject _ := Likeness.tables_raising fun _ _ =>
    .ok (Or.inr ⟨_, _, _, _, false, rfl, rfl⟩) trivial
  getGlobalObject _ := Likeness.tables_raising fun _ _ =>
    .ok (Or.inr ⟨_, _, 0, 0, false, rfl, rfl⟩) trivial
  setPropertyStr _ _ _ _ _ _ hn := ⟨rfl, hn⟩
  eval expr _ _ := by
    refine Likeness.tables_raising fun t t' => ?_
    unfold Api.evalLiteral
    split_ifs
    · exact .ok (Or.inl rfl) trivial
    · exact .ok (Or.inl rfl) trivial
    · exact .error trivial
  toBool _ hv _ _ hn :=
    ⟨Likeness.tables_values (f := fun v => if v = some (.bool true) then 1 else 0)
      (fun _ _ _ _ _ => rfl) hv, hn⟩
  toCString _ hv _ _ hn :=
    ⟨Likeness.tables_values (f := Option.map JsValue.text) (fun _ _ _ _ _ => rfl) hv, hn⟩
  getException _ n n' hn := by
    refine ⟨Or.inl ?_, rfl⟩
    show some (n.2.elim JsValue.null JsValue.string) = some (n'.2.elim JsValue.null JsValue.string)
    rw [show n.2 = n'.2 from hn]
  freeValue _ _ _ _ hn := hn
  freeCString _ _ _ _ hn := hn
  newContext n n' hn := ⟨⟨Nat.succ_ne_zero _, Nat.succ_ne_zero _⟩, hn⟩
  freeContext _ _ _ hn := hn
  isException := Likeness.tables_values fun _ _ _ _ _ => rfl
  isUndefined := Likeness.tables_values fun _ _ _ _ _ => rfl
  isNull := Likeness.tables_values fun _ _ _ _ _ => rfl
  isBool := Likeness.tables_values fun _ _ _ _ _ => rfl
  isObject := Likeness.tables_values fun _ _ _ _ _ => rfl
  allocates _ := rfl

end ProxyPP.Qjs
