import ProxyPP.Http.Message

/-!
# ProxyPP.Http.BodyInfo — `body_info.cpp`

How the body of a request or a response is delimited, from the parsed heads.  `verb::head` and
`verb::connect` are compared as the tokens they stand for.
-/

namespace ProxyPP.Http

open ProxyPP

inductive RequestBodyFraming
  | none
  | contentLength
  | chunked
  deriving DecidableEq, Repr

inductive ResponseBodyFraming
  | none
  | contentLength
  | chunked
  | closeDelimited
  | tunnel
  deriving DecidableEq, Repr

structure RequestBodyInfo where
  framing : RequestBodyFraming
  contentLength : UInt64 := 0
  deriving DecidableEq, Repr

structure ResponseBodyInfo where
  framing : ResponseBodyFraming
  contentLength : UInt64 := 0
  deriving DecidableEq, Repr

/-- `DetermineBodyInfo` of a request. -/
def determineRequestBodyInfo (requestParser : RequestParser) : RequestBodyInfo :=
  if requestParser.chunked then { framing := .chunked }
  else match requestParser.contentLength with
    | some contentLength => { framing := .contentLength, contentLength := contentLength }
    | none => { framing := .none }

/-- `DetermineBodyInfo` of a response, which also depends on the method of its request. -/
def determineResponseBodyInfo (requestParser : RequestParser) (responseParser : ResponseParser) :
    ResponseBodyInfo :=
  let statusCode := responseParser.header.status
  if requestParser.header.method = ascii "HEAD" then { framing := .none }
  else if statusCode ≥ 100 ∧ statusCode < 200 then { framing := .none }
  else if statusCode = 204 ∨ statusCode = 304 then { framing := .none }
  else if requestParser.header.method = ascii "CONNECT" ∧ statusCode ≥ 200 ∧ statusCode < 300 then
    { framing := .tunnel }
  else if responseParser.chunked then { framing := .chunked }
  else match responseParser.contentLength with
    | some contentLength => { framing := .contentLength, contentLength := contentLength }
    | none => { framing := .closeDelimited }

/-- An interim response has no body. -/
theorem framing_interim {requestParser : RequestParser} {responseParser : ResponseParser}
    (h : 100 ≤ responseParser.header.status) (h' : responseParser.header.status < 200) :
    (determineResponseBodyInfo requestParser responseParser).framing = .none := by
  unfold determineResponseBodyInfo
  by_cases hhead : requestParser.header.method = ascii "HEAD"
  · rw [if_pos hhead]
  · rw [if_neg hhead, if_pos ⟨h, h'⟩]

end ProxyPP.Http
