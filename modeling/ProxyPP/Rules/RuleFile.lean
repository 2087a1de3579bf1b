import ProxyPP.Rules.Apply
import ProxyPP.Rules.RuleSchema

/-!
# ProxyPP.Rules.RuleFile — `LoadRulesFromFile`

A rule file is read, validated against the schema, parsed, and converted to a `rule::Config` by the
member traits of `model.h` and `config.h`.  What jsoncons does for them is a parameter.
-/

namespace ProxyPP.Rules

open ProxyPP ProxyPP.Lib ProxyPP.Http

/-! ## JSON conversions -/

/-- What a conversion throws: a `conv_error`, or another exception. -/
inductive Thrown
  | convError (what : Bytes)
  | exception (what : Bytes)
  deriving DecidableEq, Repr

/-- The parts of jsoncons that are used. -/
structure Jsoncons where
  /-- `json::parse`; it fails with a text. -/
  parse : Bytes → Except Bytes Json
  /-- `ojson::parse` -/
  parseOrdered : Bytes → Except Bytes Json
  /-- The text of a `validation_error`. -/
  violation : Json → Bytes
  asString : Json → Except Thrown Bytes
  asBool : Json → Except Thrown Bool
  asInt : Json → Except Thrown ℤ
  /-- `JSONCONS_ENUM_NAME_TRAITS` with these names. -/
  asEnum : {E : Type} → List (E × Bytes) → Json → Except Thrown E

/-- What the conversions promise of values of their kind. -/
structure Jsoncons.Lawful (J : Jsoncons) : Prop where
  parse_same : ∀ text doc, J.parse text = .ok doc → J.parseOrdered text = .ok doc
  asString_str : ∀ s, J.asString (.str s) = .ok s
  asBool_bool : ∀ b, J.asBool (.bool b) = .ok b
  asInt_num : ∀ n : ℤ, -2 ^ 31 ≤ n → n < 2 ^ 31 → J.asInt (.num n) = .ok n
  asEnum_name : ∀ (E : Type) (names : List (E × Bytes)) (e : E) (s : Bytes),
    names.find? (fun p => p.2 = s) = some (e, s) → J.asEnum names (.str s) = .ok e

section Traits

variable {α : Type}

/-- The members of an object, as the member traits take them. -/
def asObject (j : Json) : Except Thrown Unit :=
  match j with
  | .obj _ => .ok ()
  | _ => .error (.convError (ascii "expected object"))

/-- A mandatory member. -/
def mandatory (name : Bytes) (as : Json → Except Thrown α) (j : Json) : Except Thrown α :=
  match j.member name with
  | none => .error (.convError (ascii "missing required member " ++ name))
  | some v => as v

/-- A member with a default. -/
def defaulted (name : Bytes) (as : Json → Except Thrown α) (default : α) (j : Json) :
    Except Thrown α :=
  match j.member name with
  | none => .ok default
  | some v => as v

/-- A `std::optional` member. -/
def optional (name : Bytes) (as : Json → Except Thrown α) (j : Json) : Except Thrown (Option α) :=
  match j.member name with
  | none => .ok none
  | some (.scalar .null) => .ok none
  | some v => some <$> as v

/-- `j.at(name)` throws `key_not_found`, which is not a `conv_error`. -/
def at_ (name : Bytes) (j : Json) : Except Thrown Json :=
  match j.member name with
  | none => .error (.exception (ascii "key not found"))
  | some v => .ok v

def asVector (as : Json → Except Thrown α) : Json → Except Thrown (List α)
  | .arr elems => elems.mapM as
  | _ => .error (.convError (ascii "not a vector"))

end Traits

section Convert

variable (J : Jsoncons)

def asOp : Json → Except Thrown Op :=
  J.asEnum [(.set, ascii "set"), (.add, ascii "add"), (.remove, ascii "remove"),
    (.replace, ascii "replace")]

def asPhase : Json → Except Thrown Phase :=
  J.asEnum [(.request, ascii "request"), (.response, ascii "response")]

def asTarget : Json → Except Thrown Target := J.asEnum [(.header, ascii "header")]

def asMatch (j : Json) : Except Thrown Match := do
  asObject j
  let expr ← mandatory (ascii "expr") J.asString j
  pure ⟨expr⟩

def asHeaderNameData (j : Json) : Except Thrown ActionData := do
  asObject j
  let name ← mandatory (ascii "name") J.asString j
  pure (.headerName name)

def asHeaderNameValueData (j : Json) : Except Thrown ActionData := do
  asObject j
  let name ← mandatory (ascii "name") J.asString j
  let value ← mandatory (ascii "value") J.asString j
  pure (.headerNameValue name value)

/-- `json_type_traits<Json, Action>::as` -/
def asAction (j : Json) : Except Thrown Action := do
  let op ← at_ (ascii "op") j >>= asOp J
  let target ← at_ (ascii "target") j >>= asTarget J
  let dataJson ← at_ (ascii "data") j
  if target = .header then
    if op = .add ∨ op = .set ∨ op = .replace then
      let data ← asHeaderNameValueData J dataJson
      pure ⟨op, target, data⟩
    else if op = .remove then
      let data ← asHeaderNameData J dataJson
      pure ⟨op, target, data⟩
    else throw (.convError (ascii "invalid action op"))
  else throw (.convError (ascii "unsupported action target"))

def asRule (j : Json) : Except Thrown Rule := do
  asObject j
  let name ← mandatory (ascii "name") J.asString j
  let phase ← mandatory (ascii "phase") (asPhase J) j
  let actions ← mandatory (ascii "actions") (asVector (asAction J)) j
  let enabled ← defaulted (ascii "enabled") J.asBool true j
  let match_ ← optional (ascii "match") (asMatch J) j
  pure ⟨name, enabled, phase, match_, actions⟩

def asHttpConfig (j : Json) : Except Thrown Config := do
  asObject j
  let rules ← optional (ascii "rules") (asVector (asRule J)) j
  pure ⟨rules⟩

/-- `rule::Config` -/
structure RuleConfig where
  schema : Option Bytes
  version : ℤ
  http : Option Config
  deriving DecidableEq, Repr

def asRuleConfig (j : Json) : Except Thrown RuleConfig := do
  asObject j
  let version ← mandatory (ascii "version") J.asInt j
  let schema ← optional (ascii "$schema") J.asString j
  let http ← optional (ascii "http") (asHttpConfig J) j
  pure ⟨schema, version, http⟩

/-! ## Loading -/

/-- The codes of `proxypp::Errc` that occur here. -/
inductive CommonErrc
  | internalError
  | invalidArgument
  | jsonParseFailed
  | jsonConversionFailed
  | jsonSchemaValidationFailed
  deriving DecidableEq, Repr

structure CommonError where
  code : CommonErrc
  message : Bytes
  deriving DecidableEq, Repr

/-- `ValidateJsonBySchema`; that the schema itself is one is settled when it is written. -/
def validateJsonBySchema (schema : Schema) (documentText : Bytes) : Except CommonError Unit :=
  match J.parse documentText with
  | .error what => .error ⟨.jsonParseFailed, ascii "invalid rule file JSON: " ++ what⟩
  | .ok document =>
    if schema document then .ok ()
    else .error ⟨.jsonSchemaValidationFailed,
      ascii "schema validation failed: " ++ J.violation document⟩

def parseJson (content : Bytes) : Except CommonError Json :=
  match J.parseOrdered content with
  | .error what => .error ⟨.jsonParseFailed, what⟩
  | .ok document => .ok document

/-- `Convert<rule::Config>` -/
def convert (jv : Json) : Except CommonError RuleConfig :=
  match asRuleConfig J jv with
  | .ok config => .ok config
  | .error (.convError _) => .error ⟨.jsonConversionFailed, ascii "convert json failed"⟩
  | .error (.exception _) => .error ⟨.internalError, ascii "unexpected json conversion error"⟩

def loadRulesFromFile (readTextFile : Bytes → Except CommonError Bytes) (filePath : Bytes) :
    Except CommonError RuleConfig := do
  let readFile ← readTextFile filePath
  validateJsonBySchema J RuleSchema.kRuleSchema readFile
  let parsed ← parseJson J readFile
  convert J parsed

end Convert

end ProxyPP.Rules
