import ProxyPP.Lib.JsonSchema

/-!
# ProxyPP.Rules.RuleSchema — the schema of rule files

`kRuleSchema` of `rule_file.cpp`, each definition of it under its name.  `description`, `title`,
`default`, `$schema` and `$id` of the schema are annotations and are left out.
-/

namespace ProxyPP.Rules.RuleSchema

open ProxyPP ProxyPP.Lib ProxyPP.Lib.Schema

/-- Names of a scalar string. -/
def strings (names : List String) : List Scalar := names.map fun name => .str (ascii name)

/-- `#/$defs/match` -/
def match_ : Schema := all
  [type .object, noAdditionalProperties [ascii "expr"], required [ascii "expr"],
    properties [(ascii "expr", all [type .string, minLength 1])]]

/-- `#/$defs/op` -/
def op : Schema := all [type .string, enum (strings ["set", "add", "replace", "remove"])]

/-- `#/$defs/http/$defs/phase` -/
def phase : Schema := all [type .string, enum (strings ["request", "response"])]

/-- `#/$defs/http/$defs/target` -/
def target : Schema := all [type .string, enum (strings ["header"])]

/-- `[!#$%&'*+.^_`|~0-9A-Za-z-]` -/
def isNameChar (c : UInt8) : Bool :=
  (ascii "!#$%&'*+.^_`|~-").contains c || (48 ≤ c && c ≤ 57) || (65 ≤ c && c ≤ 90) ||
    (97 ≤ c && c ≤ 122)

/-- `^[...]+$`: one or more of them, from the start of the string to its end. -/
def namePattern (s : Bytes) : Bool := s != [] && s.all isNameChar

/-- `#/$defs/http/$defs/header/$defs/name` -/
def headerName : Schema := all [type .string, minLength 1, pattern namePattern]

/-- `#/$defs/http/$defs/header/$defs/value` -/
def headerValue : Schema := all [type .string]

/-- `#/$defs/http/$defs/data/$defs/headerName` -/
def dataHeaderName : Schema := all
  [type .object, noAdditionalProperties [ascii "name"], required [ascii "name"],
    properties [(ascii "name", headerName)]]

/-- `#/$defs/http/$defs/data/$defs/headerNameValue` -/
def dataHeaderNameValue : Schema := all
  [type .object, noAdditionalProperties [ascii "name", ascii "value"],
    required [ascii "name", ascii "value"],
    properties [(ascii "name", headerName), (ascii "value", headerValue)]]

/-- The condition of the two shapes of `data`: the target is a header, and the operation this. -/
def ifOp (op : Schema) : Schema := all
  [required [ascii "target", ascii "op"],
    properties [(ascii "target", const (.str (ascii "header"))), (ascii "op", op)]]

/-- `#/$defs/http/$defs/action` -/
def action : Schema := all
  [type .object, noAdditionalProperties [ascii "op", ascii "target", ascii "data"],
    required [ascii "op", ascii "target", ascii "data"],
    properties [(ascii "op", op), (ascii "target", target), (ascii "data", all [])],
    -- "allOf"
    all
      [ifThen (ifOp (enum (strings ["set", "add", "replace"])))
          (properties [(ascii "data", dataHeaderNameValue)]),
        ifThen (ifOp (const (.str (ascii "remove"))))
          (properties [(ascii "data", dataHeaderName)])]]

/-- `#/$defs/http/$defs/rule` -/
def rule : Schema := all
  [type .object,
    noAdditionalProperties
      [ascii "name", ascii "enabled", ascii "phase", ascii "match", ascii "actions"],
    required [ascii "name", ascii "phase", ascii "actions"],
    properties
      [(ascii "name", all [type .string, minLength 1]), (ascii "enabled", all [type .boolean]),
        (ascii "phase", phase), (ascii "match", match_),
        (ascii "actions", all [type .array, minItems 1, items action])]]

/-- `#/$defs/http/$defs/config` -/
def config : Schema := all
  [type .object, noAdditionalProperties [ascii "rules"], required [],
    properties [(ascii "rules", all [type .array, items rule])]]

def kRuleSchema : Schema := all
  [type .object, noAdditionalProperties [ascii "$schema", ascii "version", ascii "http"],
    required [ascii "version"],
    properties
      [(ascii "$schema", all [type .string]),
        (ascii "version", all [type .integer, const (.num 1)]), (ascii "http", config)]]

end ProxyPP.Rules.RuleSchema
