import ProxyPP.Bytes
import ProxyPP.Lib.MultiMap

/-!
# ProxyPP.Http.Message — message headers as Beast keeps them

Beast's `basic_fields` is an ordered multimap from field names, compared up to ASCII case, to
values: `insert` keeps existing fields of the name, `set` replaces them, `erase` removes them.  Here
all of them store what they are given; Beast's also trim the blanks around a value, and throw on a
field of more than 64 KB.  A header is the start line and the fields.

What the session uses of Beast beyond that is a parameter, `Beast`: which method tokens and status
codes have an enumerator, the head parsers and the serializers.
-/

namespace ProxyPP.Http

open ProxyPP ProxyPP.Lib

/-! ## Fields -/

structure Field where
  name : Bytes
  value : Bytes
  deriving DecidableEq, Repr

/-- Field names are compared case-insensitively. -/
def Field.key (f : Field) : Bytes := toLower f.name

abbrev Fields := List Field

namespace Fields

/-- The values of the fields of a name, in order. -/
def values (name : Bytes) (fields : Fields) : List Bytes :=
  (MultiMap.withKey Field.key (toLower name) fields).map Field.value

def contains (name : Bytes) (fields : Fields) : Bool :=
  MultiMap.hasKey Field.key (toLower name) fields

/-- The value of the first field of a name. -/
def find (name : Bytes) (fields : Fields) : Option Bytes := (values name fields).head?

def insert (name value : Bytes) (fields : Fields) : Fields :=
  MultiMap.insert Field.key ⟨name, value⟩ fields

def set (name value : Bytes) (fields : Fields) : Fields :=
  MultiMap.set Field.key ⟨name, value⟩ fields

def erase (name : Bytes) (fields : Fields) : Fields :=
  MultiMap.erase Field.key (toLower name) fields

/-- The fields of `source` inserted one by one, by name and value. -/
def insertAll (source fields : Fields) : Fields :=
  source.foldl (fun fields f => insert f.name f.value fields) fields

theorem values_insertAll (name : Bytes) (source : Fields) :
    values name (insertAll source []) = values name source := by
  have h : MultiMap.withKey Field.key (toLower name) (MultiMap.insertAll Field.key source [])
      = MultiMap.withKey Field.key (toLower name) source := by
    rw [MultiMap.withKey_insertAll, MultiMap.withKey_nil, List.nil_append]
  show (MultiMap.withKey Field.key (toLower name)
    (MultiMap.insertAll Field.key source [])).map _ = _
  rw [h, values]

theorem insertAll_perm (source : Fields) : (insertAll source []).Perm source := by
  have h : (MultiMap.insertAll Field.key source []).Perm (source ++ []) :=
    MultiMap.insertAll_perm source []
  rwa [List.append_nil] at h

theorem values_erase_ne {name name' : Bytes} (h : toLower name ≠ toLower name') (fields : Fields) :
    values name' (erase name fields) = values name' fields := by
  rw [values, erase, MultiMap.withKey_erase_ne h, values]

theorem values_set_ne {name name' : Bytes} (h : toLower name ≠ toLower name') (value : Bytes)
    (fields : Fields) : values name' (set name value fields) = values name' fields := by
  have hkey : Field.key ⟨name, value⟩ ≠ toLower name' := h
  rw [values, set, MultiMap.withKey_set_ne hkey, values]

end Fields

/-! ## Headers -/

/-- `http_::request_header<>`: method token, HTTP version (`10`, `11`), target and fields. -/
structure RequestHeader where
  method : Bytes
  version : ℕ
  target : Bytes
  fields : Fields
  deriving DecidableEq, Repr

/-- `http_::response_header<>` -/
structure ResponseHeader where
  version : ℕ
  status : ℕ
  reason : Bytes
  fields : Fields
  deriving DecidableEq, Repr

/-- The value of a `http_::verb`: an enumerator, which stands for its token, or `verb::unknown`. -/
inductive Verb
  | named (token : Bytes)
  | unknown
  deriving DecidableEq, Repr

/-- A parsed request head: `get().base()` and the framing attributes of the parser. -/
structure RequestParser where
  header : RequestHeader
  chunked : Bool
  contentLength : Option UInt64
  keepAlive : Bool
  deriving DecidableEq, Repr

/-- A parsed response head. -/
structure ResponseParser where
  header : ResponseHeader
  chunked : Bool
  contentLength : Option UInt64
  keepAlive : Bool
  deriving DecidableEq, Repr

/-- What a head parser says about the readable bytes: more are needed, they are not a head, or the
first `consumed` of them are the head `value`. -/
inductive ParseResult (α : Type)
  | needMore
  | failed
  | done (value : α) (consumed : ℕ)
  deriving DecidableEq, Repr

/-- Beast, as far as the session relies on it. -/
structure Beast where
  /-- `string_to_verb` finds an enumerator for this token. -/
  knownVerb : Bytes → Bool
  /-- `int_to_status` finds an enumerator for this code. -/
  knownStatus : ℕ → Bool
  /-- The reason phrase the serializer writes when the message has none. -/
  obsoleteReason : ℕ → Bytes
  parseRequest : Bytes → ParseResult RequestParser
  parseResponse : Bytes → ParseResult ResponseParser
  serializeRequest : RequestHeader → Bytes
  serializeResponse : ResponseHeader → Bytes

namespace Beast

variable (B : Beast)

/-- `header.method()` -/
def method (header : RequestHeader) : Verb :=
  if B.knownVerb header.method then .named header.method else .unknown

/-- `header.result()`: `status::unknown`, which is `0`, for a code without an enumerator. -/
def result (header : ResponseHeader) : ℕ := if B.knownStatus header.status then header.status else 0

/-- The head the serializer writes for a response: an empty reason is replaced. -/
def onWire (response : ResponseHeader) : ResponseHeader :=
  { response with
    reason := if response.reason = [] then B.obsoleteReason response.status else response.reason }

end Beast

/-- `header.method(verb)`, which throws `std::invalid_argument` on `verb::unknown`. -/
def setMethod (verb : Verb) (header : RequestHeader) : Except Bytes RequestHeader :=
  match verb with
  | .named token => .ok { header with method := token }
  | .unknown => .error (ascii "unknown verb")

end ProxyPP.Http
