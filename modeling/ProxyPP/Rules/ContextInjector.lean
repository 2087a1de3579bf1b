import ProxyPP.Qjs.ObjectBuilder
import ProxyPP.Rules.Apply

/-!
# ProxyPP.Rules.ContextInjector — `match_context.cpp`, `context_injector.cpp`

How a match context is filled from a message: the headers object, the request and response objects,
and the object `ctx` on the global object.  Objects that were made and not passed on are destroyed
on every error path.
-/

namespace ProxyPP.Rules

open ProxyPP ProxyPP.Lib ProxyPP.Http ProxyPP.Qjs

variable {N J : Type} (Q : QuickJs N J)

/-! ## `MatchContext` -/

structure MatchContext where
  scriptContext : JSContext
  deriving DecidableEq, Repr

def preparationFailed (message : Bytes) : Error := ⟨.rule .ruleContextPreparationFailed, message⟩

namespace MatchContext

def addGlobalValue (context : MatchContext) (name : Bytes) (value : Value J) :
    EStateM Error (Runtime N J) PUnit := do
  let global ← onError (value.destroy Q) <|
    EStateM.adaptExcept (fun e => preparationFailed e.message) <|
      Value.globalObject Q context.scriptContext
  atExit (global.destroy Q) <|
    EStateM.adaptExcept (fun e => preparationFailed e.message) (global.setProperty Q name value)

def addObject (context : MatchContext) (name : Bytes) (object : Value J) :
    EStateM Error (Runtime N J) PUnit :=
  if !object.isValid then
    atExit (object.destroy Q) (throw (preparationFailed (ascii "value is invalid")))
  else if !object.isObject Q then
    atExit (object.destroy Q) (throw (preparationFailed (ascii "value is not an object")))
  else context.addGlobalValue Q name object

end MatchContext

/-! ## The objects -/

/-- A builder, a chain of setters and `Build`.  Without a builder, `cleanup` destroys the objects
that were made before. -/
def buildObject (cleanup : Runtime N J → Runtime N J) (context : JSContext)
    (setters : List (Setter J)) : EStateM Error (Runtime N J) (Value J) := do
  let builder ← onError cleanup (ObjectBuilder.create Q context)
  let builder ← modifyGet (ObjectBuilder.applyAll Q setters builder)
  builder.build Q

/-- The setters of the headers object: names in lower case, in the order of the fields. -/
def headerSetters (fields : Fields) : List (Setter J) :=
  fields.map fun f => .setString (toLower f.name) f.value

def buildHeaderObject (fields : Fields) (context : JSContext) :
    EStateM Error (Runtime N J) (Value J) := buildObject Q id context (headerSetters fields)

def requestSetters (request : RequestHeader) (headerObject : Value J) : List (Setter J) :=
  [.setString (ascii "method") request.method,
    .setString (ascii "target") request.target,
    .setInt32 (ascii "version") (Int32.ofNat request.version),
    .setObject (ascii "headers") headerObject]

def buildRequestObject (request : RequestHeader) (context : JSContext) :
    EStateM Error (Runtime N J) (Value J) := do
  let headerObject ← buildHeaderObject Q request.fields context
  buildObject Q (headerObject.destroy Q) context (requestSetters request headerObject)

/-- `Reason()` is the reason as Beast reports it, never empty for a known status. -/
def responseSetters (B : Beast) (response : ResponseHeader) (headerObject : Value J) :
    List (Setter J) :=
  [.setInt32 (ascii "status") (Int32.ofNat response.status),
    .setString (ascii "reason") (B.onWire response).reason,
    .setInt32 (ascii "version") (Int32.ofNat response.version),
    .setObject (ascii "headers") headerObject]

def buildResponseObject (B : Beast) (response : ResponseHeader) (context : JSContext) :
    EStateM Error (Runtime N J) (Value J) := do
  let headerObject ← buildHeaderObject Q response.fields context
  buildObject Q (headerObject.destroy Q) context (responseSetters B response headerObject)

/-! ## Injection -/

def requestContextSetters (requestObj : Value J) : List (Setter J) :=
  [.setString (ascii "phase") (ascii "request"), .setObject (ascii "request") requestObj]

def injectRequestContext (context : MatchContext) (request : RequestHeader) :
    EStateM Error (Runtime N J) PUnit := do
  let requestObj ← buildRequestObject Q request context.scriptContext
  let ctxObj ← buildObject Q (requestObj.destroy Q) context.scriptContext
    (requestContextSetters requestObj)
  context.addObject Q (ascii "ctx") ctxObj

def responseContextSetters (requestObj responseObj : Value J) : List (Setter J) :=
  [.setString (ascii "phase") (ascii "response"), .setObject (ascii "request") requestObj,
    .setObject (ascii "response") responseObj]

def injectResponseContext (B : Beast) (context : MatchContext) (request : RequestHeader)
    (response : ResponseHeader) : EStateM Error (Runtime N J) PUnit := do
  let requestObj ← buildRequestObject Q request context.scriptContext
  let responseObj ← onError (requestObj.destroy Q)
    (buildResponseObject Q B response context.scriptContext)
  let ctxObj ← buildObject Q (fun r => requestObj.destroy Q (responseObj.destroy Q r))
    context.scriptContext (responseContextSetters requestObj responseObj)
  context.addObject Q (ascii "ctx") ctxObj

/-! ## The engine -/

/-- The evaluation of expressions, which comes after the injection. -/
structure Evaluator (N J : Type) where
  Value : Type
  eval : MatchContext → Bytes → EStateM Error (Runtime N J) Value
  isBool : Value → Bool
  toBool : Value → Except Error Bool

/-- The rule engine over QuickJS. -/
def qjsEngine (B : Beast) (E : Evaluator N J) : Engine (Runtime N J) where
  script :=
    { Context := MatchContext
      Value := E.Value
      createContext := do
        let context ← createContext Q
        pure ⟨context⟩
      eval := E.eval
      isBool := E.isBool
      toBool := E.toBool }
  injectRequestContext context request := do
    injectRequestContext Q context request
    pure context
  injectResponseContext context request response := do
    injectResponseContext Q B context request response
    pure context

end ProxyPP.Rules
