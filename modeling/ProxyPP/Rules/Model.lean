import ProxyPP.Bytes

/-!
# ProxyPP.Rules.Model — rules, actions and errors

The data of `rule/http/model.h`, `rule/op.h` and `rule/match.h`, and the errors the rule engine
returns.
-/

namespace ProxyPP.Rules

open ProxyPP

inductive Op
  | notSet
  | set
  | add
  | remove
  | replace
  deriving DecidableEq, Repr

inductive Phase
  | notSet
  | request
  | response
  deriving DecidableEq, Repr

inductive Target
  | notSet
  | header
  deriving DecidableEq, Repr

/-- `std::variant<data::HeaderNameData, data::HeaderNameValueData>` -/
inductive ActionData
  | headerName (name : Bytes)
  | headerNameValue (name value : Bytes)
  deriving DecidableEq, Repr

structure Action where
  op : Op
  target : Target
  data : ActionData
  deriving DecidableEq, Repr

structure Match where
  expr : Bytes
  deriving DecidableEq, Repr

structure Rule where
  name : Bytes
  enabled : Bool
  phase : Phase
  match_ : Option Match
  actions : List Action
  deriving DecidableEq, Repr

structure Config where
  rules : Option (List Rule)
  deriving DecidableEq, Repr

/-! ## Errors -/

/-- `rule::Errc` -/
inductive Errc
  | invalidRule
  | ruleEngineInitializationFailed
  | ruleContextPreparationFailed
  | invalidMatchExpression
  | matchEvaluationFailed
  | matchResultNotBoolean
  | invalidAction
  | actionExecutionFailed
  deriving DecidableEq, Repr

/-- `script::qjs::Errc` -/
inductive QjsErrc
  | createRuntimeFailed
  | createContextFailed
  | invalidRuntime
  | invalidContext
  | invalidValue
  | contextMismatch
  | convertValueFailed
  | executeScriptFailed
  | getPropertyFailed
  | setPropertyFailed
  | getElementFailed
  | setElementFailed
  | jsInternalError
  deriving DecidableEq, Repr

/-- An error code and its category. -/
inductive ErrorCode
  | rule (errc : Errc)
  | qjs (errc : QjsErrc)
  /-- `proxypp::Errc::InternalError` -/
  | internalError
  deriving DecidableEq, Repr

structure Error where
  code : ErrorCode
  message : Bytes
  deriving DecidableEq, Repr

end ProxyPP.Rules
