import ProxyPP.Http.Message

/-!
# ProxyPP.Http.HeadTable — Beast on a table of heads

A `Beast` whose parsers know the heads of a table and whose serializers write heads as Beast does.
It runs the model on concrete sessions.
-/

namespace ProxyPP.Http

open ProxyPP

structure HeadTable where
  verbs : List Bytes
  /-- Status codes with their standard reason phrases. -/
  statuses : List (ℕ × Bytes)
  requests : List (Bytes × RequestParser)
  responses : List (Bytes × ResponseParser)

namespace HeadTable

variable {α : Type}

/-- The first head of the table in front of the buffer; more bytes are needed as long as they can
still complete one. -/
def parse (heads : List (Bytes × α)) (buffer : Bytes) : ParseResult α :=
  match heads.find? (fun h => h.1.isPrefixOf buffer) with
  | some h => .done h.2 h.1.length
  | none => if heads.any (fun h => buffer.isPrefixOf h.1) then .needMore else .failed

/-- Three decimal digits. -/
def statusDigits (status : ℕ) : Bytes :=
  [status / 100, status / 10, status].map (fun n => (48 + n % 10).toUInt8)

def httpVersion (version : ℕ) : Bytes :=
  ascii "HTTP/" ++ [(48 + version / 10).toUInt8, 46, (48 + version % 10).toUInt8]

def serializeFields (fields : Fields) : Bytes :=
  fields.flatMap (fun f => f.name ++ ascii ": " ++ f.value ++ crlf) ++ crlf

def serializeRequest (header : RequestHeader) : Bytes :=
  header.method ++ ascii " " ++ header.target ++ ascii " " ++ httpVersion header.version ++ crlf
    ++ serializeFields header.fields

def serializeResponse (header : ResponseHeader) : Bytes :=
  httpVersion header.version ++ ascii " " ++ statusDigits header.status ++ ascii " "
    ++ header.reason ++ crlf ++ serializeFields header.fields

def beast (table : HeadTable) : Beast where
  knownVerb token := table.verbs.contains token
  knownStatus status := table.statuses.any (fun s => s.1 == status)
  obsoleteReason status := match table.statuses.find? (fun s => s.1 == status) with
    | some s => s.2
    | none => ascii "<unknown-status>"
  parseRequest := parse table.requests
  parseResponse := parse table.responses
  serializeRequest := serializeRequest
  serializeResponse := serializeResponse

/-- A table with `GET`, `200 OK` and no heads. -/
def minimal : HeadTable := ⟨[ascii "GET"], [(200, ascii "OK")], [], []⟩

end HeadTable

end ProxyPP.Http
