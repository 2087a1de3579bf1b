import ProxyPP.Http.Message

/-!
# ProxyPP.Http.RemoteInfo — the remote of a request

`ParseRemoteInfo` over the parsers of `boost::urls`, which are parameters.
-/

namespace ProxyPP.Http

open ProxyPP

structure RemoteInfo where
  scheme : Bytes
  host : Bytes
  port : Bytes
  forwardTarget : Bytes
  deriving DecidableEq, Repr

/-- What `parse_absolute_uri` found. -/
structure AbsoluteUri where
  scheme : Bytes
  host : Bytes
  port : Bytes
  encodedTarget : Bytes
  encodedPath : Bytes
  hasQuery : Bool
  encodedQuery : Bytes
  deriving DecidableEq, Repr

/-- What `parse_authority` found. -/
structure Authority where
  host : Bytes
  port : Bytes
  deriving DecidableEq, Repr

structure Urls where
  parseAbsoluteUri : Bytes → Option AbsoluteUri
  parseAuthority : Bytes → Option Authority

variable (U : Urls)

def parseConnectRemoteInfo (clientRequestHeader : RequestHeader) : Option RemoteInfo :=
  match U.parseAuthority clientRequestHeader.target with
  | none => none
  | some authority =>
    if authority.host = [] then none
    else if authority.port = [] then none
    else some ⟨ascii "tunnel", authority.host, authority.port, []⟩

def parseHttpRemoteInfo (clientRequestHeader : RequestHeader) : Option RemoteInfo :=
  match U.parseAbsoluteUri clientRequestHeader.target with
  | some uri =>
    if uri.scheme ≠ ascii "http" then none
    else if uri.encodedTarget = [] then none
    else if uri.host = [] then none
    else
      let forwardTarget := if uri.encodedPath = [] then ascii "/" else uri.encodedPath
      some
        { scheme := uri.scheme
          host := uri.host
          port := if uri.port = [] then ascii "80" else uri.port
          forwardTarget :=
            if uri.hasQuery then forwardTarget ++ ascii "?" ++ uri.encodedQuery
            else forwardTarget }
  -- origin-form, authority-form and asterisk-form are told apart for the log only
  | none => none

/-- `verb::connect` is the token `CONNECT`. -/
def isConnect (header : RequestHeader) : Bool := header.method = ascii "CONNECT"

def parseRemoteInfo (clientRequestHeader : RequestHeader) : Option RemoteInfo :=
  if isConnect clientRequestHeader then parseConnectRemoteInfo U clientRequestHeader
  else parseHttpRemoteInfo U clientRequestHeader

end ProxyPP.Http
