import ProxyPP.Lib.Ledger
import ProxyPP.Qjs.Evaluator
import ProxyPP.Qjs.PlainObjects

/-!
# ProxyPP.Qjs.Api — `exception_message.cpp`, and the check behind every call

QuickJS as its C interface has it: a call returns a value that may be `JS_EXCEPTION`, or a negative
status, and the exception itself is pending until `JS_GetException` takes it.  The proxy checks each
call and drains the exception into a text with `GetExceptionMessage`.  `Api.interpreter` is the
interpreter that these checks make of the interface.

`Native` has the books on what `GetExceptionMessage` takes, references to exceptions and C strings,
and on the contexts.  However its three paths go, no exception is pending behind it and it has given
back all it took (`getExceptionMessage_settles`); so every call of the interpreter keeps that
(`Api.respects`).
-/

namespace ProxyPP.Qjs

open ProxyPP ProxyPP.Lib
open ProxyPP.Rules (Error ErrorCode QjsErrc)

/-! ## The interface -/

/-- The QuickJS functions the proxy calls. -/
structure Api (N J : Type) where
  undefined : J
  null : J
  newBool : JSContext → Bool → J
  newInt32 : JSContext → Int32 → J
  newStringLen : JSContext → Bytes → N → J × N
  newObject : JSContext → N → J × N
  newArray : JSContext → N → J × N
  getGlobalObject : JSContext → N → J × N
  getPropertyStr : JSContext → J → Bytes → N → J × N
  getPropertyUint32 : JSContext → J → UInt32 → N → J × N
  setPropertyStr : JSContext → J → Bytes → J → N → ℤ × N
  setPropertyUint32 : JSContext → J → UInt32 → J → N → ℤ × N
  eval : JSContext → Bytes → Bytes → N → J × N
  toBool : JSContext → J → N → ℤ × N
  /-- `JS_ToInt32 (ctx, &result, value)`: the status and the result. -/
  toInt32 : JSContext → J → N → (ℤ × Int32) × N
  /-- `JS_ToCString`, without the NUL at the end; it may return `nullptr`. -/
  toCString : JSContext → J → N → Option Bytes × N
  getException : JSContext → N → J × N
  freeValue : JSContext → J → N → N
  freeCString : JSContext → Bytes → N → N
  newContext : N → JSContext × N
  freeContext : JSContext → N → N
  isException : J → Bool
  isUndefined : J → Bool
  isNull : J → Bool
  isBool : J → Bool
  isNumber : J → Bool
  isObject : J → Bool
  isArray : J → Bool
  /-- Does `new (std::nothrow)` find memory for the wrapper of the handle with this number? -/
  allocates : ℕ → Bool

inductive ContextEvent
  | created (context : JSContext)
  | destroyed (context : JSContext)
  deriving DecidableEq, Repr

/-- QuickJS with the (ghost) books on temporaries and on contexts. -/
structure Native (N : Type) where
  state : N
  taken : ℕ
  givenBack : List ℕ
  contexts : List ContextEvent
  deriving DecidableEq, Repr

variable {N J α ε : Type}

/-- A call. -/
def native (f : N → α × N) : EStateM ε (Native N) α := fun n =>
  .ok (f n.state).1 { n with state := (f n.state).2 }

/-- A call that returned something to be given back. -/
def take : EStateM ε (Native N) ℕ := fun n => .ok n.taken { n with taken := n.taken + 1 }

def giveBack (id : ℕ) (f : N → N) : EStateM ε (Native N) PUnit :=
  modify fun n => { n with state := f n.state, givenBack := n.givenBack ++ [id] }

namespace Api

variable (A : Api N J)

/-! ## The code -/

/-- `detail::GetExceptionMessage` -/
def getExceptionMessage (context : JSContext) : EStateM ε (Native N) Bytes := do
  let exception ← native (A.getException context)
  let ref ← take
  if A.isNull exception || A.isUndefined exception then
    giveBack ref (A.freeValue context exception)
    pure (ascii "<unknown QuickJS exception>")
  else
    match ← native (A.toCString context exception) with
    | none =>
      let convertException ← native (A.getException context)
      let convertRef ← take
      giveBack convertRef (A.freeValue context convertException)
      giveBack ref (A.freeValue context exception)
      pure (ascii "<failed to convert QuickJS exception to string>")
    | some cStr =>
      let str ← take
      giveBack str (A.freeCString context cStr)
      giveBack ref (A.freeValue context exception)
      -- `std::string { c_str }` ends at the first NUL
      pure (cStr.takeWhile (· ≠ 0))

/-- A call whose result is checked with `JS_IsException`. -/
def checked (context : JSContext) (f : N → J × N) : EStateM Bytes (Native N) J := do
  let value ← native f
  if A.isException value then
    let message ← A.getExceptionMessage context
    modify fun n => { n with state := A.freeValue context value n.state }
    throw message
  else pure value

/-- A call whose status is checked. -/
def checkedStatus (context : JSContext) (status : α → ℤ) (f : N → α × N) :
    EStateM Bytes (Native N) α := do
  let result ← native f
  if status result < 0 then throw (← A.getExceptionMessage context)
  else pure result

/-- QuickJS as the proxy uses it. -/
def interpreter : Interpreter (Native N) J where
  undefined := A.undefined
  null := A.null
  newBool := A.newBool
  newInt32 := A.newInt32
  newStringLen context value := A.checked context (A.newStringLen context value)
  newObject context := A.checked context (A.newObject context)
  newArray context := A.checked context (A.newArray context)
  getGlobalObject context := A.checked context (A.getGlobalObject context)
  getPropertyStr context target name := A.checked context (A.getPropertyStr context target name)
  getPropertyUint32 context target index :=
    A.checked context (A.getPropertyUint32 context target index)
  setPropertyStr context target name value := do
    let _ ← A.checkedStatus context id (A.setPropertyStr context target name value)
  setPropertyUint32 context target index value := do
    let _ ← A.checkedStatus context id (A.setPropertyUint32 context target index value)
  freeValue context value n := { n with state := A.freeValue context value n.state }
  isObject := A.isObject
  isArray := A.isArray
  newContext n :=
    let (context, state) := A.newContext n.state
    (context, { n with
      state := state
      contexts := n.contexts ++ if context = nullptr then [] else [.created context] })
  allocates := A.allocates
  evalGlobal context expr fileName := A.checked context (A.eval context expr fileName)
  toBool context value := do
    let result ← A.checkedStatus context id (A.toBool context value)
    pure (result ≠ 0)
  toInt32 context value := do
    let result ← A.checkedStatus context Prod.fst (A.toInt32 context value)
    pure result.2
  isBool := A.isBool
  isNumber := A.isNumber
  freeContext context n :=
    { n with
      state := A.freeContext context n.state, contexts := n.contexts ++ [.destroyed context] }

/-! ## What QuickJS promises of exceptions -/

/-- A call that does not fail leaves no exception pending. -/
def Quiet (pending : N → Bool) (fails : α → Bool) (f : N → α × N) : Prop :=
  ∀ n, pending n = false → fails (f n).1 = false → pending (f n).2 = false

structure Lawful (pending : N → Bool) : Prop where
  newStringLen : ∀ c s, Quiet pending A.isException (A.newStringLen c s)
  newObject : ∀ c, Quiet pending A.isException (A.newObject c)
  newArray : ∀ c, Quiet pending A.isException (A.newArray c)
  getGlobalObject : ∀ c, Quiet pending A.isException (A.getGlobalObject c)
  getPropertyStr : ∀ c t name, Quiet pending A.isException (A.getPropertyStr c t name)
  getPropertyUint32 : ∀ c t i, Quiet pending A.isException (A.getPropertyUint32 c t i)
  setPropertyStr : ∀ c t name v, Quiet pending (· < 0) (A.setPropertyStr c t name v)
  setPropertyUint32 : ∀ c t i v, Quiet pending (· < 0) (A.setPropertyUint32 c t i v)
  eval : ∀ c expr file, Quiet pending A.isException (A.eval c expr file)
  toBool : ∀ c v, Quiet pending (· < 0) (A.toBool c v)
  toInt32 : ∀ c v, Quiet pending (fun r => r.1 < 0) (A.toInt32 c v)
  toCString : ∀ c v, Quiet pending Option.isNone (A.toCString c v)
  /-- `JS_GetException` takes the pending exception. -/
  getException : ∀ c n, pending (A.getException c n).2 = false
  freeValue : ∀ c v n, pending n = false → pending (A.freeValue c v n) = false
  freeCString : ∀ c s n, pending n = false → pending (A.freeCString c s n) = false
  newContext : ∀ n, pending n = false → pending (A.newContext n).2 = false
  freeContext : ∀ c n, pending n = false → pending (A.freeContext c n) = false

end Api

/-! ## Settling -/

namespace Native

/-- The books on temporaries. -/
def regime : Regime (Native N) ℕ where
  ledger n := ⟨n.taken, n.givenBack⟩
  token := id
  allowed _ := True
  invariant _ := True

/-- From `n` to `n'`, whatever was taken was given back, and no context was created or destroyed. -/
structure Settled (n n' : Native N) : Prop where
  temporaries : regime.Settles 0 0 n n'
  contexts : n'.contexts = n.contexts

namespace Settled

theorem trans {n n' n'' : Native N} (h : Settled n n') (h' : Settled n' n'') : Settled n n'' :=
  ⟨h.temporaries.trans h'.temporaries, h'.contexts.trans h.contexts⟩

/-- A call alone. -/
theorem call (n : Native N) (s : N) : Settled n { n with state := s } :=
  ⟨.idle (fun _ => trivial) rfl, rfl⟩

/-- One temporary, given back. -/
theorem one (n : Native N) (s : N) :
    Settled n
      { n with state := s, taken := n.taken + 1, givenBack := n.givenBack ++ [n.taken] } := by
  have hissue : regime.Settles 0 {n.taken} n { n with taken := n.taken + 1 } :=
    .issue (fun _ => trivial) rfl rfl
  exact ⟨hissue.trans (.spend (e := n.taken) (fun _ => trivial) rfl rfl trivial), rfl⟩

/-- Two of them, the second one given back first. -/
theorem two (n : Native N) (s : N) : Settled n { n with
    state := s
    taken := n.taken + 1 + 1
    givenBack := n.givenBack ++ [n.taken + 1] ++ [n.taken] } := by
  have hissue : regime.Settles 0 {n.taken} n { n with taken := n.taken + 1 } :=
    .issue (fun _ => trivial) rfl rfl
  have hinner : regime.Settles 0 0 { n with taken := n.taken + 1 }
      { n with taken := n.taken + 1 + 1, givenBack := n.givenBack ++ [n.taken + 1] } :=
    (one ({ n with taken := n.taken + 1 } : Native N) n.state).temporaries
  have hframe := hinner.frame {n.taken}
  rw [zero_add] at hframe
  exact ⟨(hissue.trans hframe).trans
    (.spend (e := n.taken) (fun _ => trivial) rfl rfl trivial), rfl⟩

end Settled

end Native

namespace Api

variable {A : Api N J} {pending : N → Bool}

/-- **`GetExceptionMessage`**, on each of its paths. -/
theorem getExceptionMessage_settles (hA : A.Lawful pending) (context : JSContext) (n : Native N)
    (E : ε → Native N → Prop) : Ends (A.getExceptionMessage context) n
      (fun _ n' => n.Settled n' ∧ pending n'.state = false) E := by
  have hquiet := hA.getException context n.state
  unfold getExceptionMessage
  refine ends_bind (Ends.of_ok (a := (A.getException context n.state).1) rfl ?_)
  refine ends_bind (Ends.of_ok (a := n.taken) rfl ?_)
  refine ends_ite (fun _ => ?_) fun _ => ends_bind ?_
  · refine ends_bind (ends_modify (ends_pure ⟨.one n _, ?_⟩))
    exact hA.freeValue _ _ _ hquiet
  · refine Ends.of_ok
      (a := (A.toCString context (A.getException context n.state).1
        (A.getException context n.state).2).1) rfl ?_
    have hstring := hA.toCString context (A.getException context n.state).1 _ hquiet
    cases hs : (A.toCString context (A.getException context n.state).1
        (A.getException context n.state).2).1 with
    | none =>
      -- the exception of the conversion is drained as well
      refine ends_bind (Ends.of_ok rfl (ends_bind (Ends.of_ok (a := n.taken + 1) rfl ?_)))
      refine ends_bind (ends_modify (ends_bind (ends_modify (ends_pure ⟨.two n _, ?_⟩))))
      exact hA.freeValue _ _ _ (hA.freeValue _ _ _ (hA.getException _ _))
    | some cStr =>
      rw [hs] at hstring
      refine ends_bind (Ends.of_ok (a := n.taken + 1) rfl ?_)
      refine ends_bind (ends_modify (ends_bind (ends_modify (ends_pure ⟨.two n _, ?_⟩))))
      exact hA.freeValue _ _ _ (hA.freeCString _ _ _ (hstring rfl))

/-- Since `n₀` all that was taken was given back, and no exception is pending. -/
def Calm (pending : N → Bool) (n₀ n : Native N) : Prop :=
  n₀.Settled n ∧ pending n.state = false

variable {n₀ : Native N}

theorem calm_refl {n : Native N} (h : pending n.state = false) : Calm pending n n :=
  ⟨⟨.refl 0 n, rfl⟩, h⟩

theorem Calm.state {n : Native N} (h : Calm pending n₀ n) {s : N} (hs : pending s = false) :
    Calm pending n₀ { n with state := s } :=
  ⟨h.1.trans (.call n s), hs⟩

/-- A call that fails is drained. -/
theorem checked_keeps (hA : A.Lawful pending) {context : JSContext} {f : N → J × N}
    (hf : Quiet pending A.isException f) : Keeps (Calm pending n₀) (A.checked context f) := by
  intro n hn
  refine ends_bind (Ends.of_ok (a := (f n.state).1) rfl (ends_ite (fun _ => ?_) fun hok => ?_))
  · refine (getExceptionMessage_settles hA context _ _).bind ?_
    rintro message n' ⟨hsettled, hquiet⟩
    have hcalm : Calm pending n₀ n' := ⟨(hn.1.trans (.call n _)).trans hsettled, hquiet⟩
    exact ends_bind (ends_modify (ends_throw (hcalm.state (hA.freeValue _ _ _ hquiet))))
  · exact ends_pure (hn.state (hf _ hn.2 (by simpa using hok)))

theorem checkedStatus_keeps (hA : A.Lawful pending) {context : JSContext} {status : α → ℤ}
    {f : N → α × N} (hf : Quiet pending (fun a => status a < 0) f) :
    Keeps (Calm pending n₀) (A.checkedStatus context status f) := by
  intro n hn
  refine ends_bind (Ends.of_ok (a := (f n.state).1) rfl (ends_ite (fun _ => ?_) fun hok => ?_))
  · refine (getExceptionMessage_settles hA context _ _).bind ?_
    rintro message n' ⟨hsettled, hquiet⟩
    exact ends_throw ⟨(hn.1.trans (.call n _)).trans hsettled, hquiet⟩
  · exact ends_pure (hn.state (hf _ hn.2 (by simpa using hok)))

/-- **Every call of the interpreter** leaves no exception pending and nothing taken. -/
theorem respects (hA : A.Lawful pending) : A.interpreter.Respects (Calm pending n₀) where
  newStringLen c s := checked_keeps hA (hA.newStringLen c s)
  newObject c := checked_keeps hA (hA.newObject c)
  newArray c := checked_keeps hA (hA.newArray c)
  getGlobalObject c := checked_keeps hA (hA.getGlobalObject c)
  getPropertyStr c t name := checked_keeps hA (hA.getPropertyStr c t name)
  getPropertyUint32 c t i := checked_keeps hA (hA.getPropertyUint32 c t i)
  setPropertyStr c t name v n hn :=
    (checkedStatus_keeps hA (hA.setPropertyStr c t name v) n hn).bind fun _ _ h => ends_pure h
  setPropertyUint32 c t i v n hn :=
    (checkedStatus_keeps hA (hA.setPropertyUint32 c t i v) n hn).bind fun _ _ h => ends_pure h
  freeValue c v _ hn := hn.state (hA.freeValue c v _ hn.2)
  evalGlobal c expr file := checked_keeps hA (hA.eval c expr file)
  toBool c v n hn :=
    (checkedStatus_keeps hA (hA.toBool c v) n hn).bind fun _ _ h => ends_pure h
  toInt32 c v n hn :=
    (checkedStatus_keeps hA (hA.toInt32 c v) n hn).bind fun _ _ h => ends_pure h

end Api

/-! ## Property tables with exceptions -/

/-- `ToString` -/
def JsValue.text : JsValue → Bytes
  | undefined => ascii "undefined"
  | null => ascii "null"
  | bool value => if value then ascii "true" else ascii "false"
  | int32 value => ascii (toString value.toInt)
  | string text => text
  | object _ _ _ => ascii "[object Object]"

/-- `ToInt32`, of numbers. -/
def JsValue.number : JsValue → Int32
  | int32 value => value
  | _ => 0

namespace Api

/-- Property tables with the text of the pending exception, if any. -/
abbrev Pending := Tables × Option Bytes

/-- A call that raises its error; `none` is `JS_EXCEPTION`. -/
def raising (m : EStateM Bytes Tables JsValue) (n : Pending) : Option JsValue × Pending :=
  match m n.1 with
  | .ok v t => (some v, t, n.2)
  | .error message t => (none, t, some message)

def raisingStatus (m : EStateM Bytes Tables PUnit) (n : Pending) : ℤ × Pending :=
  match m n.1 with
  | .ok _ t => (0, t, n.2)
  | .error message t => (-1, t, some message)

/-- The scripts `true` and `false` have values; on any other the parser gives up. -/
def evalLiteral (expr : Bytes) : EStateM Bytes Tables JsValue :=
  if expr = ascii "true" then pure (.bool true)
  else if expr = ascii "false" then pure (.bool false)
  else throw (ascii "SyntaxError: unexpected token")

/-- The calls that raise nothing but their errors. -/
def calls : QuickJs Tables JsValue := QuickJs.tables fun _ => true

/-- QuickJS over property tables. -/
def tables : Api Pending (Option JsValue) where
  undefined := some .undefined
  null := some .null
  newBool _ value := some (.bool value)
  newInt32 _ value := some (.int32 value)
  newStringLen c value := raising (calls.newStringLen c value)
  newObject c := raising (calls.newObject c)
  newArray c := raising (calls.newArray c)
  getGlobalObject c := raising (calls.getGlobalObject c)
  getPropertyStr c t name := raising (calls.getPropertyStr c (t.getD .undefined) name)
  getPropertyUint32 c t index := raising (calls.getPropertyUint32 c (t.getD .undefined) index)
  setPropertyStr c t name v :=
    raisingStatus (calls.setPropertyStr c (t.getD .undefined) name (v.getD .undefined))
  setPropertyUint32 c t index v :=
    raisingStatus (calls.setPropertyUint32 c (t.getD .undefined) index (v.getD .undefined))
  eval _ expr _ := raising (evalLiteral expr)
  toBool _ v n := (if v = some (.bool true) then 1 else 0, n)
  toInt32 _ v n := ((0, v.elim 0 JsValue.number), n)
  toCString _ v n := (v.map JsValue.text, n)
  getException _ n := (some (n.2.elim .null .string), n.1, none)
  freeValue _ _ n := n
  freeCString _ _ n := n
  newContext n := (n.1.contexts + 1, { n.1 with contexts := n.1.contexts + 1 }, n.2)
  freeContext _ n := n
  isException := Option.isNone
  isUndefined v := v = some .undefined
  isNull v := v = some .null
  isBool v := v = some (.bool true) ∨ v = some (.bool false)
  isNumber v := v = some (.int32 (v.elim 0 JsValue.number))
  isObject v := v.any JsValue.isObject
  isArray v := v.any JsValue.isArray
  allocates _ := true

theorem raising_quiet (m : EStateM Bytes Tables JsValue) :
    Quiet (fun n : Pending => n.2.isSome) Option.isNone (raising m) := by
  intro n hn hok
  unfold raising at hok ⊢
  cases hr : m n.1 with
  | ok v t => exact hn
  | error message t =>
    rw [hr] at hok
    cases hok

theorem raisingStatus_quiet (m : EStateM Bytes Tables PUnit) :
    Quiet (fun n : Pending => n.2.isSome) (· < 0) (raisingStatus m) := by
  intro n hn hok
  unfold raisingStatus at hok ⊢
  cases hr : m n.1 with
  | ok v t => exact hn
  | error message t =>
    rw [hr] at hok
    cases hok

/-- The property tables keep the promises. -/
theorem tables_lawful : tables.Lawful fun n => n.2.isSome where
  newStringLen c s := raising_quiet (calls.newStringLen c s)
  newObject c := raising_quiet (calls.newObject c)
  newArray c := raising_quiet (calls.newArray c)
  getGlobalObject c := raising_quiet (calls.getGlobalObject c)
  getPropertyStr c t name := raising_quiet (calls.getPropertyStr c (t.getD .undefined) name)
  getPropertyUint32 c t i := raising_quiet (calls.getPropertyUint32 c (t.getD .undefined) i)
  setPropertyStr _ _ _ _ := raisingStatus_quiet _
  setPropertyUint32 _ _ _ _ := raisingStatus_quiet _
  eval _ _ _ := raising_quiet _
  toBool _ _ _ hn _ := hn
  toInt32 _ _ _ hn _ := hn
  toCString _ _ _ hn _ := hn
  getException _ _ := rfl
  freeValue _ _ _ hn := hn
  freeCString _ _ _ hn := hn
  newContext _ hn := hn
  freeContext _ _ hn := hn

end Api

end ProxyPP.Qjs
