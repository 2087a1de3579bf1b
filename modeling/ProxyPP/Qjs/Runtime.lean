import ProxyPP.Lib.Program
import ProxyPP.Rules.Model

/-!
# ProxyPP.Qjs.Runtime — QuickJS as the proxy uses it

QuickJS is a parameter, `QuickJs N J`: its state `N` is hidden, so any of its calls can fail at any
time, and so are its values `J`.  A failed call comes with the text that `GetExceptionMessage`
drains from it; `JS_EXCEPTION` itself refers to nothing, and freeing it does nothing.

A `JSValue` the proxy gets from a call is a reference it has to free or to hand over.  `Runtime` is
the state of QuickJS with the books on these references: each gets a number when it is made
(`Handle`), and `departures` lists those that were handed over or freed.
-/

namespace ProxyPP.Qjs

open ProxyPP ProxyPP.Lib
open ProxyPP.Rules (Error ErrorCode QjsErrc)

/-- A `JSContext*`, by its address. -/
abbrev JSContext := ℕ

def nullptr : JSContext := 0

/-- What a property is set under. -/
inductive Key
  | name (name : Bytes)
  | index (index : UInt32)
  deriving DecidableEq, Repr

/-- The QuickJS calls the proxy makes.  A property name is the byte string it is passed as. -/
structure QuickJs (N J : Type) where
  undefined : J
  null : J
  newBool : JSContext → Bool → J
  newInt32 : JSContext → Int32 → J
  newStringLen : JSContext → Bytes → EStateM Bytes N J
  newObject : JSContext → EStateM Bytes N J
  newArray : JSContext → EStateM Bytes N J
  getGlobalObject : JSContext → EStateM Bytes N J
  getPropertyStr : JSContext → J → Bytes → EStateM Bytes N J
  getPropertyUint32 : JSContext → J → UInt32 → EStateM Bytes N J
  /-- `JS_SetPropertyStr (ctx, this, name, value)`, which takes over `value`. -/
  setPropertyStr : JSContext → J → Bytes → J → EStateM Bytes N PUnit
  setPropertyUint32 : JSContext → J → UInt32 → J → EStateM Bytes N PUnit
  freeValue : JSContext → J → N → N
  isObject : J → Bool
  isArray : J → Bool
  /-- `JS_NewContext`, which may return `nullptr`. -/
  newContext : N → JSContext × N
  /-- Does `new (std::nothrow)` find memory for the wrapper of the handle with this number? -/
  allocates : ℕ → Bool

/-- A reference to a value: its number and the context it was made in. -/
structure Handle (J : Type) where
  id : ℕ
  context : JSContext
  value : J
  deriving DecidableEq, Repr

/-- How a handle leaves the proxy: `JS_SetPropertyStr` or `JS_SetPropertyUint32` takes it over as a
property of `target`, or it is freed. -/
inductive Departure (J : Type)
  | handedOver (target : Handle J) (key : Key) (handle : Handle J)
  | freed (handle : Handle J)
  deriving DecidableEq, Repr

def Departure.handle {J : Type} : Departure J → Handle J
  | handedOver _ _ handle => handle
  | freed handle => handle

structure Runtime (N J : Type) where
  native : N
  /-- How many handles were made. -/
  created : ℕ
  departures : List (Departure J)
  deriving DecidableEq, Repr

variable {N J α : Type}

/-! ## Errors -/

/-- `QjsErrorCategory::message` -/
def messageOf : QjsErrc → Bytes
  | .createRuntimeFailed => ascii "failed to create QuickJS runtime"
  | .createContextFailed => ascii "failed to create QuickJS context"
  | .invalidRuntime => ascii "invalid runtime"
  | .invalidContext => ascii "invalid context"
  | .invalidValue => ascii "invalid value"
  | .contextMismatch => ascii "context mismatch"
  | .convertValueFailed => ascii "convert value failed"
  | .executeScriptFailed => ascii "execute script failed"
  | .getPropertyFailed => ascii "failed to get JavaScript property"
  | .setPropertyFailed => ascii "failed to set JavaScript property"
  | .getElementFailed => ascii "get element from array failed"
  | .setElementFailed => ascii "set element to array failed"
  | .jsInternalError => ascii "javascript runtime internal error"

/-- `Error { errc, message }`; without a message it has that of its code. -/
def qjsError (errc : QjsErrc) (message : Bytes) : Error :=
  ⟨.qjs errc, if message = [] then messageOf errc else message⟩

/-! ## Calls -/

/-- A QuickJS call that fails with `errc`. -/
def call (errc : QjsErrc) (m : EStateM Bytes N α) : EStateM Error (Runtime N J) α := fun r =>
  match m r.native with
  | .ok a n => .ok a { r with native := n }
  | .error message n => .error (qjsError errc message) { r with native := n }

/-- A reference that a call returned. -/
def newHandle (context : JSContext) (value : J) : EStateM Error (Runtime N J) (Handle J) := fun r =>
  .ok ⟨r.created, context, value⟩ { r with created := r.created + 1 }

/-- `JS_FreeValue` -/
def freeValue (Q : QuickJs N J) (context : JSContext) (handle : Handle J) (r : Runtime N J) :
    Runtime N J :=
  { r with
    native := Q.freeValue context handle.value r.native
    departures := r.departures ++ [.freed handle] }

/-- The passed value is taken over, in all cases. -/
def takeOver (target : Handle J) (key : Key) (handle : Handle J) (r : Runtime N J) : Runtime N J :=
  { r with departures := r.departures ++ [.handedOver target key handle] }

/-! ## `Context` -/

/-- `Context::Create`; a `Context` is its native handle, `nullptr` when it was moved from. -/
def createContext (Q : QuickJs N J) : EStateM Error (Runtime N J) JSContext := fun r =>
  let (context, native) := Q.newContext r.native
  if context = nullptr then
    .error (qjsError .createContextFailed []) { r with native := native }
  else .ok context { r with native := native }

/-! ## Rules -/

theorem ends_call {errc : QjsErrc} {m : EStateM Bytes N α} {r : Runtime N J}
    {P : α → Runtime N J → Prop} {E : Error → Runtime N J → Prop}
    (hok : ∀ a n, m r.native = .ok a n → P a { r with native := n })
    (herror : ∀ message n, m r.native = .error message n →
      E (qjsError errc message) { r with native := n }) : Ends (call errc m) r P E := by
  unfold Ends call
  cases hr : m r.native with
  | ok a n => exact hok a n hr
  | error message n => exact herror message n hr

theorem call_eq_ok {errc : QjsErrc} {m : EStateM Bytes N α} {r r' : Runtime N J} {a : α} :
    call errc m r = .ok a r' ↔ ∃ n, m r.native = .ok a n ∧ r' = { r with native := n } := by
  unfold call
  cases hr : m r.native with
  | ok b n => simp [eq_comm]
  | error message n => simp

end ProxyPP.Qjs
