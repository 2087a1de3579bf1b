import Mathlib.Data.List.Dedup
import ProxyPP.Http.Chunked
import ProxyPP.Http.ReadHeader
import ProxyPP.Rules.Apply

/-!
# ProxyPP.Http.Session — `HttpProxySession`

The members of a session and its coroutines, down to the exchange and `Run`; the tunnel of a CONNECT
exchange runs under a schedule.  The outside is scripted: `dials` are the outcomes of the next
resolutions and connects, in order, each with what the remote then does.  `resolutions` and
`nextConnection` are ghost: what was resolved, and the number of the next remote connection.

A socket that failed to connect is not told apart from a closed one: no operation succeeds on
either.  Closing a socket leaves the read buffers alone, as in the source.
-/

namespace ProxyPP.Http

open ProxyPP ProxyPP.Lib ProxyPP.Rules

/-! ## State -/

structure RemoteConnectionState where
  host : Bytes
  port : Bytes
  connected : Bool
  deriving DecidableEq, Repr

/-- What a remote does on a connection: the outcomes of reads from and writes to it. -/
structure RemotePeer where
  incoming : List ReadOutcome
  atEof : Bool
  writes : List WriteOutcome
  deriving DecidableEq, Repr

/-- The outcome of one `async_resolve`, and of connecting to its endpoints one after the other. -/
structure Dial where
  endpoints : Option (List Endpoint)
  attempts : List (Option RemotePeer)
  deriving DecidableEq, Repr

/-- A successful resolution. -/
structure Resolution where
  host : Bytes
  port : Bytes
  endpoints : List Endpoint
  deriving DecidableEq, Repr

inductive ExchangeResult
  | continue
  | close
  deriving DecidableEq, Repr

structure Session (η : Type) where
  clientSock : Socket
  remoteSock : Socket
  clientReadBuffer : List Octet
  remoteReadBuffer : List Octet
  remoteState : RemoteConnectionState
  closed : Bool
  script : η
  dials : List Dial
  resolutions : List Resolution
  nextConnection : ℕ
  deriving DecidableEq, Repr

/-- Which coroutine of a tunnel moves next. -/
inductive Direction
  | clientToRemote
  | remoteToClient
  deriving DecidableEq, Repr

/-- What a session is given and does not change: Beast, the URL parsers, the rule engine with its
configuration, the schedule of the tunnel, and the bound of the observation for each loop. -/
structure Env (η : Type) where
  beast : Beast
  urls : Urls
  ruleEngine : Engine η
  ruleHttpConfig : Option Config
  schedule : List Direction
  fuel : ℕ

variable {η : Type}

namespace Session

/-- The view of the forwarding functions from the client to the remote. -/
def upLink (s : Session η) : Link := ⟨s.clientReadBuffer, s.clientSock, s.remoteSock⟩

def putUpLink (l : Link) (s : Session η) : Session η :=
  { s with clientReadBuffer := l.readBuffer, clientSock := l.fromPeer, remoteSock := l.targetPeer }

/-- The view of the forwarding functions from the remote to the client. -/
def downLink (s : Session η) : Link := ⟨s.remoteReadBuffer, s.remoteSock, s.clientSock⟩

def putDownLink (l : Link) (s : Session η) : Session η :=
  { s with remoteReadBuffer := l.readBuffer, remoteSock := l.fromPeer, clientSock := l.targetPeer }

end Session

def onUpLink {α : Type} (m : EStateM Stop Link α) : EStateM Stop (Session η) α :=
  zoom Session.upLink Session.putUpLink m

def onDownLink {α : Type} (m : EStateM Stop Link α) : EStateM Stop (Session η) α :=
  zoom Session.downLink Session.putDownLink m

/-! ## Closing -/

/-- `CloseSocket`; on a closed socket it only logs. -/
def Socket.close (s : Socket) : Socket := { s with isOpen := false }

def resetRemoteState : EStateM Stop (Session η) PUnit :=
  modify fun s => { s with remoteState := ⟨[], [], false⟩ }

def closeRemote : EStateM Stop (Session η) PUnit := do
  modify fun s => { s with remoteSock := s.remoteSock.close }
  resetRemoteState

def closeClient : EStateM Stop (Session η) PUnit :=
  modify fun s => { s with clientSock := s.clientSock.close }

def close : EStateM Stop (Session η) PUnit := do
  let s ← get
  if s.closed then pure ⟨⟩
  else do
    modify fun s => { s with closed := true }
    closeRemote
    closeClient

/-! ## The remote connection -/

/-- `ResolveRemote`: the endpoints, if the resolution succeeds with at least one. -/
def resolveRemote (remoteInfo : RemoteInfo) :
    EStateM Stop (Session η) (Option (List Endpoint)) := do
  let s ← get
  match s.dials with
  | [] => throw .blocked
  | dial :: _ =>
    match dial.endpoints with
    | none => do
      modify fun s => { s with dials := s.dials.tail }
      pure none
    | some endpoints =>
      if endpoints = [] then do
        modify fun s => { s with dials := s.dials.tail }
        pure none
      else do
        modify fun s => { s with
          resolutions := s.resolutions ++ [⟨remoteInfo.host, remoteInfo.port, endpoints⟩] }
        pure (some endpoints)

/-- `async_connect` on a range: the first endpoint whose attempt succeeds. -/
def connectFirst (endpoints : List Endpoint) (attempts : List (Option RemotePeer)) :
    Option (Endpoint × RemotePeer) :=
  (endpoints.zip attempts).findSome? fun p => p.2.map fun peer => (p.1, peer)

/-- `ConnectRemote`, on the attempts of the dial just resolved. -/
def connectRemote (endpoints : List Endpoint) : EStateM Stop (Session η) Bool := do
  let s ← get
  modify fun s => { s with dials := s.dials.tail }
  match connectFirst endpoints (s.dials.head?.elim [] Dial.attempts) with
  | none => pure false
  | some (endpoint, peer) => do
    modify fun s => { s with
      remoteSock := { isOpen := true, connection := ⟨s.nextConnection, endpoint⟩,
                      incoming := peer.incoming, atEof := peer.atEof, writes := peer.writes,
                      sent := s.remoteSock.sent }
      nextConnection := s.nextConnection + 1 }
    pure true

/-- The open connection is one to this remote. -/
def Session.reuses (s : Session η) (remoteInfo : RemoteInfo) : Bool :=
  s.remoteState.connected && s.remoteSock.isOpen && s.remoteState.host = remoteInfo.host
    && s.remoteState.port = remoteInfo.port

def ensureRemoteConnected (remoteInfo : RemoteInfo) : EStateM Stop (Session η) Bool := do
  let s ← get
  if s.reuses remoteInfo then pure true
  else do
    closeRemote
    match ← resolveRemote remoteInfo with
    | none => pure false
    | some endpoints =>
      if ← connectRemote endpoints then do
        modify fun s => { s with remoteState := ⟨remoteInfo.host, remoteInfo.port, true⟩ }
        pure true
      else pure false

/-! ## Heads -/

/-- The octets of a head the session made from the octets `raw` of a received one. -/
def madeFrom (raw : List Octet) (bytes : Bytes) : List Octet :=
  bytes.map fun b => ⟨b, (raw.flatMap Octet.origins).dedup⟩

section Exchange

variable (env : Env η)

def readClientRequestHeader : EStateM Stop (Session η) (Option (RequestParser × List Octet)) :=
  onUpLink (asyncReadHeader env.beast.parseRequest env.fuel)

def readRemoteResponseHeader : EStateM Stop (Session η) (Option (ResponseParser × List Octet)) :=
  onDownLink (asyncReadHeader env.beast.parseResponse env.fuel)

def writeToRemote (octets : List Octet) : EStateM Stop (Session η) Bool := do
  let (ec, _) ← zoom Session.remoteSock (fun r s => { s with remoteSock := r }) (asyncWrite octets)
  pure (!ec)

def writeToClient (octets : List Octet) : EStateM Stop (Session η) Bool := do
  let (ec, _) ← zoom Session.clientSock (fun c s => { s with clientSock := c }) (asyncWrite octets)
  pure (!ec)

/-- An exception of the source. -/
def orThrow {α : Type} : Except Bytes α → EStateM Stop (Session η) α
  | .ok a => pure a
  | .error what => throw (.thrown what)

def writeRemoteRequestHeader (raw : List Octet) (remoteRequestHeader : RequestHeader) :
    EStateM Stop (Session η) Bool := do
  let request ← orThrow (remoteRequest env.beast remoteRequestHeader)
  writeToRemote (madeFrom raw (env.beast.serializeRequest request))

def writeRemoteResponseHeaderToClient (raw : List Octet) (remoteResponseHeader : ResponseHeader) :
    EStateM Stop (Session η) Bool :=
  writeToClient (madeFrom raw
    (env.beast.serializeResponse (relayedResponse env.beast remoteResponseHeader)))

/-- The response to a CONNECT request; the session makes it without hearing from the remote. -/
def connectEstablished : ResponseHeader :=
  ⟨11, 200, ascii "Connection Established",
    Fields.set (ascii "Proxy-Connection") (ascii "keep-alive") []⟩

def writeConnectEstablishedResponseToClient : EStateM Stop (Session η) Bool :=
  writeToClient (madeFrom []
    (env.beast.serializeResponse (env.beast.onWire connectEstablished)))

/-! ## Bodies -/

def forwardRequestBody (clientRequestParser : RequestParser) : EStateM Stop (Session η) Bool :=
  let info := determineRequestBodyInfo clientRequestParser
  match info.framing with
  | .contentLength => onUpLink (forwardExactly env.fuel info.contentLength)
  | .chunked => onUpLink (forwardChunked env.fuel)
  | .none => pure true

def forwardResponseBody (clientRequestParser : RequestParser)
    (remoteResponseParser : ResponseParser) : EStateM Stop (Session η) Bool :=
  let info := determineResponseBodyInfo clientRequestParser remoteResponseParser
  match info.framing with
  | .contentLength => onDownLink (forwardExactly env.fuel info.contentLength)
  | .chunked => onDownLink (forwardChunked env.fuel)
  | .closeDelimited => onDownLink (forwardUntilEof env.fuel)
  | .tunnel => pure false
  | .none => pure true

def shouldKeepAlive (clientRequestParser : RequestParser) (remoteResponseParser : ResponseParser) :
    EStateM Stop (Session η) Bool := do
  let s ← get
  pure (clientRequestParser.keepAlive && remoteResponseParser.keepAlive && s.clientSock.isOpen
    && s.remoteSock.isOpen)

/-! ## CONNECT -/

/-- One operation of `ForwardViaTunnel`; `false` leaves its loop. -/
def forwardViaTunnelStep : EStateM Stop Link Bool := do
  let l ← get
  if l.readBuffer.length = 0 then
    match ← readSomeFromPeer with
    | none => pure false
    | some readResult => pure (!readResult.eof)
  else
    match ← writeToPeer l.readBuffer.length with
    | none => pure false
    | some _ => pure true

/-- `ClientToRemoteTunnel` and `RemoteToClientTunnel`, one operation. -/
def viaTunnel : Direction → EStateM Stop (Session η) Bool
  | .clientToRemote => onUpLink forwardViaTunnelStep
  | .remoteToClient => onDownLink forwardViaTunnelStep

/-- One operation of the coroutine of a direction: whether it is still running.  While its read is
not answered it waits; when its loop is left it closes the session. -/
def tunnelStep (direction : Direction) : EStateM Stop (Session η) Bool := fun s =>
  match viaTunnel direction s with
  | .ok true t => .ok true t
  | .ok false t => (do close; pure false) t
  | .error .blocked _ => .ok true s
  | .error e t => .error e t

/-- A coroutine that has ended stays where it is. -/
def resume (direction : Direction) (running : Bool) : EStateM Stop (Session η) Bool :=
  if running then tunnelStep direction else pure false

/-- `RelayTunnelBidirectional`: the two coroutines (which of them are still running) under a
schedule; the observation ends with it. -/
def relayTunnelBidirectional : List Direction → Bool → Bool → EStateM Stop (Session η) PUnit
  | [], up, down => if up || down then throw .outOfFuel else pure ⟨⟩
  | .clientToRemote :: schedule, up, down => do
    let up ← resume .clientToRemote up
    relayTunnelBidirectional schedule up down
  | .remoteToClient :: schedule, up, down => do
    let down ← resume .remoteToClient down
    relayTunnelBidirectional schedule up down

def handleConnectExchange (requestHeader : RequestHeader) :
    EStateM Stop (Session η) ExchangeResult :=
  match parseRemoteInfo env.urls requestHeader with
  | none => pure .close
  | some remoteInfo => do
    if ← ensureRemoteConnected remoteInfo then
      if ← writeConnectEstablishedResponseToClient env then do
        relayTunnelBidirectional env.schedule true true
        pure .close
      else pure .close
    else pure .close

/-! ## Exchanges -/

/-- The request rules, run on the session's script state. -/
def applyRequestRules (header : RequestHeader) : EStateM Stop (Session η) RequestHeader := do
  let s ← get
  let w := ruledRequest env.ruleEngine env.ruleHttpConfig ⟨s.script, header⟩
  set { s with script := w.script }
  pure w.message

def applyResponseRules (request : RequestHeader) (header : ResponseHeader) :
    EStateM Stop (Session η) ResponseHeader := do
  let s ← get
  let w := ruledResponse env.ruleEngine env.ruleHttpConfig request ⟨s.script, header⟩
  set { s with script := w.script }
  pure w.message

/-- The upstream half of an exchange with a connected remote: the request that was sent, if all of
it was. -/
def forwardRequest (parser : RequestParser) (raw : List Octet) (remoteInfo : RemoteInfo) :
    EStateM Stop (Session η) (Option RequestHeader) := do
  let header ← orThrow (buildRemoteRequestHeader env.beast parser.header remoteInfo)
  let header ← applyRequestRules env header
  if ← writeRemoteRequestHeader env raw header then
    if ← forwardRequestBody env parser then pure (some header) else pure none
  else pure none

/-- The downstream half. -/
def forwardResponse (parser : RequestParser) (request : RequestHeader) :
    EStateM Stop (Session η) ExchangeResult := do
  match ← readRemoteResponseHeader env with
  | none => pure .close
  | some (response, raw) => do
    let header ← applyResponseRules env request response.header
    if ← writeRemoteResponseHeaderToClient env raw header then
      if ← forwardResponseBody env parser response then
        if ← shouldKeepAlive parser response then pure .continue else pure .close
      else pure .close
    else pure .close

def handleHttpExchange (parser : RequestParser) (raw : List Octet) :
    EStateM Stop (Session η) ExchangeResult :=
  match parseRemoteInfo env.urls parser.header with
  | none => pure .close
  | some remoteInfo => do
    if ← ensureRemoteConnected remoteInfo then
      match ← forwardRequest env parser raw remoteInfo with
      | none => pure .close
      | some request => forwardResponse env parser request
    else pure .close

def handleOneExchange : EStateM Stop (Session η) ExchangeResult := do
  match ← readClientRequestHeader env with
  | none => pure .close
  | some (parser, raw) =>
    if isConnect parser.header then handleConnectExchange env parser.header
    else handleHttpExchange env parser raw

/-- One turn of the loop of `Run`. -/
def runStep (_ : Unit) : EStateM Stop (Session η) (Unit ⊕ Unit) := do
  match ← handleOneExchange env with
  | .continue => pure (.inl ())
  | .close => pure (.inr ())

def run : EStateM Stop (Session η) PUnit := do
  whileLoop .outOfFuel (runStep env) env.fuel ()
  close

end Exchange

end ProxyPP.Http
