import ProxyPP.Qjs.Value

/-!
# ProxyPP.Qjs.Evaluator — `evaluator.cpp`, and reading values back

`Interpreter` adds to `QuickJs` the calls that run a script and convert its result, and the end of a
context.  `Respects P`: the state predicate `P` is kept by every call that works on values.
-/

namespace ProxyPP.Qjs

open ProxyPP ProxyPP.Lib
open ProxyPP.Rules (Error ErrorCode QjsErrc)

variable {N J : Type}

/-- QuickJS with the calls that evaluate. -/
structure Interpreter (N J : Type) extends QuickJs N J where
  /-- `JS_Eval (ctx, input, input_len, filename, JS_EVAL_TYPE_GLOBAL)` -/
  evalGlobal : JSContext → Bytes → Bytes → EStateM Bytes N J
  toBool : JSContext → J → EStateM Bytes N Bool
  toInt32 : JSContext → J → EStateM Bytes N Int32
  isBool : J → Bool
  isNumber : J → Bool
  freeContext : JSContext → N → N

variable (I : Interpreter N J)

/-- `~Context` -/
def destroyContext (context : JSContext) (r : Runtime N J) : Runtime N J :=
  if context = nullptr then r else { r with native := I.freeContext context r.native }

namespace Value

def isBool (v : Value J) : Bool := v.isValid && I.isBool (v.nativeHandle I.toQuickJs).value

def isNumber (v : Value J) : Bool := v.isValid && I.isNumber (v.nativeHandle I.toQuickJs).value

/-- What the conversions share. -/
def convert {α : Type} (v : Value J) (read : JSContext → J → EStateM Bytes N α) :
    EStateM Error (Runtime N J) α := do
  if !v.isValid then throw (invalidValue (ascii "value is invalid"))
  call .convertValueFailed (read v.context (v.nativeHandle I.toQuickJs).value)

def toBool (v : Value J) : EStateM Error (Runtime N J) Bool := v.convert I I.toBool

def toInt32 (v : Value J) : EStateM Error (Runtime N J) Int32 := v.convert I I.toInt32

def arrayLength (v : Value J) : EStateM Error (Runtime N J) UInt32 := do
  if !v.isValid then throw (invalidValue (ascii "target is invalid"))
  if !v.isArray I.toQuickJs then throw (invalidValue (ascii "target is not an array"))
  let value ← call .getPropertyFailed
    (I.getPropertyStr v.context (v.nativeHandle I.toQuickJs).value (ascii "length"))
  let adoptedValue ← adopt I.toQuickJs v.context value
  atExit (adoptedValue.destroy I.toQuickJs) do
    if !adoptedValue.isNumber I then
      throw (qjsError .jsInternalError (ascii "array length is not a number"))
    let lengthResult ← adoptedValue.toInt32 I
    pure lengthResult.toUInt32

end Value

namespace Evaluator

/-- The default of `file_name`. -/
def defaultFileName : Bytes := ascii "<proxypp-qjs>"

/-- `Evaluator::Eval` -/
def eval (context : JSContext) (expr fileName : Bytes) :
    EStateM Error (Runtime N J) (Value J) := do
  if context = nullptr then throw (qjsError .invalidContext [])
  let result ← call .executeScriptFailed <|
    EStateM.adaptExcept (fun message => message ++ ascii ", from " ++ fileName) <|
      I.evalGlobal context expr fileName
  adopt I.toQuickJs context result

end Evaluator

/-! ## What the calls keep -/

/-- `m` keeps `P`, whether it succeeds or not. -/
def Keeps {α : Type} (P : N → Prop) (m : EStateM Bytes N α) : Prop :=
  ∀ n, P n → Ends m n (fun _ n' => P n') (fun _ n' => P n')

structure QuickJs.Respects (Q : QuickJs N J) (P : N → Prop) : Prop where
  newStringLen : ∀ c s, Keeps P (Q.newStringLen c s)
  newObject : ∀ c, Keeps P (Q.newObject c)
  newArray : ∀ c, Keeps P (Q.newArray c)
  getGlobalObject : ∀ c, Keeps P (Q.getGlobalObject c)
  getPropertyStr : ∀ c t name, Keeps P (Q.getPropertyStr c t name)
  getPropertyUint32 : ∀ c t i, Keeps P (Q.getPropertyUint32 c t i)
  setPropertyStr : ∀ c t name v, Keeps P (Q.setPropertyStr c t name v)
  setPropertyUint32 : ∀ c t i v, Keeps P (Q.setPropertyUint32 c t i v)
  freeValue : ∀ c v n, P n → P (Q.freeValue c v n)

structure Interpreter.Respects (P : N → Prop) : Prop extends I.toQuickJs.Respects P where
  evalGlobal : ∀ c expr file, Keeps P (I.evalGlobal c expr file)
  toBool : ∀ c v, Keeps P (I.toBool c v)
  toInt32 : ∀ c v, Keeps P (I.toInt32 c v)

end ProxyPP.Qjs
