import ProxyPP.Http.Attribution
import ProxyPP.Http.Progress

/-!
# ProxyPP.Http.Completion — sessions get done

A client sends requests and then closes its side; the requests in a row that are for one remote are
a `Visit`.  If each remote can be reached, answers, and both sides keep their connections alive, the
session comes to its end: every request has been forwarded and every response has come back, in
order, with one connection for each visit (`run_completes`).

One exchange is `serve_returns`: the halves return by `Progress`, and what they did is what
`Pipelining` and `Attribution` say of halves that returned.  The run is an induction on what the
client has yet to send.
-/

namespace ProxyPP.Http

open ProxyPP ProxyPP.Lib ProxyPP.Rules

variable {η : Type}

/-! ## Sockets of a session -/

/-- The scripts of the sockets of `t` are what is left of those of `s`. -/
structure Session.Follows (s t : Session η) : Prop where
  client : s.clientSock.Follows t.clientSock
  remote : s.remoteSock.Follows t.remoteSock

instance : IsPreorder (Session η) Session.Follows where
  refl s := ⟨.refl s.clientSock, .refl s.remoteSock⟩
  trans _ _ _ h h' :=
    ⟨IsTrans.trans _ _ _ h.client h'.client, IsTrans.trans _ _ _ h.remote h'.remote⟩

/-- The client sends until it closes its side, and takes what it is sent. -/
structure ClientReady (fuel : ℕ) (s : Session η) : Prop where
  reads : s.clientSock.DeliversAll
  writes : s.clientSock.WritesOk
  enough : 3 * s.upLink.left + 2 < fuel

/-- The remote sends what it has to send, and takes what it is sent. -/
structure RemoteReady (fuel : ℕ) (s : Session η) : Prop where
  reads : s.remoteSock.Delivers
  writes : s.remoteSock.WritesOk
  enough : 3 * s.downLink.left + 2 < fuel

section Ready

variable {fuel : ℕ} {s t : Session η}

theorem Session.Follows.clientReady (h : s.Follows t) (hs : ClientReady fuel s)
    (hahead : t.upLink.ahead.length ≤ s.upLink.ahead.length) : ClientReady fuel t := by
  refine ⟨⟨h.client.delivers hs.reads.delivers, h.client.atEof.trans hs.reads.atEof⟩,
    h.client.writesOk hs.writes, ?_⟩
  have hin := h.client.incoming.length_le
  have henough := hs.enough
  rw [Link.left] at henough ⊢
  simp only [Session.upLink] at henough ⊢ hahead
  omega

theorem Session.Follows.remoteReady (h : s.Follows t) (hs : RemoteReady fuel s)
    (hahead : t.downLink.ahead.length ≤ s.downLink.ahead.length) : RemoteReady fuel t := by
  refine ⟨h.remote.delivers hs.reads, h.remote.writesOk hs.writes, ?_⟩
  have hin := h.remote.incoming.length_le
  have henough := hs.enough
  rw [Link.left] at henough ⊢
  simp only [Session.downLink] at henough ⊢ hahead
  omega

theorem ClientReady.upLink (h : ClientReady fuel s) (h' : RemoteReady fuel s) :
    s.upLink.Ready fuel := ⟨⟨h.reads.delivers, h'.writes⟩, h.enough⟩

theorem ClientReady.downLink (h : ClientReady fuel s) (h' : RemoteReady fuel s) :
    s.downLink.Ready fuel := ⟨⟨h'.reads, h.writes⟩, h'.enough⟩

end Ready

/-! ### The halves only take from the scripts -/

section Halves

variable (env : Env η)

theorem follows_onUpLink {α : Type} {m : EStateM Stop Link α} (h : Within Link.Follows m) :
    Within Session.Follows (onUpLink m : EStateM Stop (Session η) α) :=
  h.zoom fun _ _ hl => ⟨hl.source, hl.target⟩

theorem follows_onDownLink {α : Type} {m : EStateM Stop Link α} (h : Within Link.Follows m) :
    Within Session.Follows (onDownLink m : EStateM Stop (Session η) α) :=
  h.zoom fun _ _ hl => ⟨hl.target, hl.source⟩

theorem follows_writeToRemote (octets : List Octet) :
    Within Session.Follows (writeToRemote octets : EStateM Stop (Session η) Bool) :=
  Within.bind ((follows_asyncWrite octets).zoom fun s _ h => ⟨.refl s.clientSock, h⟩)
    fun _ => within_pure _

theorem follows_writeToClient (octets : List Octet) :
    Within Session.Follows (writeToClient octets : EStateM Stop (Session η) Bool) :=
  Within.bind ((follows_asyncWrite octets).zoom fun s _ h => ⟨h, .refl s.remoteSock⟩)
    fun _ => within_pure _

theorem follows_orThrow {α : Type} (r : Except Bytes α) :
    Within Session.Follows (orThrow r : EStateM Stop (Session η) α) := by
  cases r with
  | ok a => exact within_pure a
  | error what => exact within_throw _

theorem follows_script (s : Session η) (h : η) : s.Follows { s with script := h } :=
  ⟨.refl s.clientSock, .refl s.remoteSock⟩

theorem follows_forwardRequestBody (parser : RequestParser) :
    Within Session.Follows (forwardRequestBody env parser) := by
  unfold forwardRequestBody
  rcases determineRequestBodyInfo parser with ⟨framing, contentLength⟩
  cases framing with
  | none => exact within_pure true
  | contentLength => exact follows_onUpLink (follows_forwardExactly _ _)
  | chunked => exact follows_onUpLink (follows_forwardChunked _)

theorem follows_forwardRequest (parser : RequestParser) (raw : List Octet) (info : RemoteInfo) :
    Within Session.Follows (forwardRequest env parser raw info) := by
  refine Within.bind (follows_orThrow _) fun built => ?_
  refine Within.bind (fun s => follows_script s _) fun header => ?_
  refine Within.bind (Within.bind (follows_orThrow _) fun _ => follows_writeToRemote _) fun ok => ?_
  refine within_ite (fun _ => ?_) fun _ => within_pure _
  refine Within.bind (follows_forwardRequestBody env parser) fun ok => ?_
  exact within_ite (fun _ => within_pure _) fun _ => within_pure _

theorem follows_forwardResponseBody (parser : RequestParser) (response : ResponseParser) :
    Within Session.Follows (forwardResponseBody env parser response) := by
  unfold forwardResponseBody
  rcases determineResponseBodyInfo parser response with ⟨framing, contentLength⟩
  cases framing with
  | none => exact within_pure true
  | contentLength => exact follows_onDownLink (follows_forwardExactly _ _)
  | chunked => exact follows_onDownLink (follows_forwardChunked _)
  | closeDelimited => exact follows_onDownLink (follows_forwardUntilEof _)
  | tunnel => exact within_pure false

theorem follows_forwardResponse (parser : RequestParser) (request : RequestHeader) :
    Within Session.Follows (forwardResponse env parser request) := by
  refine Within.bind (follows_onDownLink (follows_asyncReadHeader _ _)) fun r => ?_
  rcases r with _ | ⟨response, raw⟩
  · exact within_pure _
  refine Within.bind (fun s => follows_script s _) fun header => ?_
  refine Within.bind (follows_writeToClient _) fun ok =>
    within_ite (fun _ => ?_) fun _ => within_pure _
  refine Within.bind (follows_forwardResponseBody env parser response) fun ok =>
    within_ite (fun _ => ?_) fun _ => within_pure _
  refine Within.bind (Within.bind within_get fun _ => within_pure _) fun keep => ?_
  exact within_ite (fun _ => within_pure _) fun _ => within_pure _

end Halves

/-! ## One exchange -/

section Exchange

variable {env : Env η}

/-- An exchange that goes well: its request is for `(host, port)`, the first response is the final
one, chunks are not too large to be forwarded, and both sides keep the connection alive. -/
structure AnsweredRequest.Smooth (host port : Bytes) (x : AnsweredRequest env) : Prop where
  known : env.beast.knownVerb x.request.parser.header.method = true
  remote : ∃ info, parseHttpRemoteInfo env.urls x.request.parser.header = some info ∧
    info.host = host ∧ info.port = port
  requestHead : x.request.head ≠ []
  requestChunks : (determineRequestBodyInfo x.request.parser).framing = .chunked →
    ChunkedBody maxChunkSize x.request.body
  interims : x.interims = []
  responseHead : x.final.head ≠ []
  responseChunks : (determineResponseBodyInfo x.request.parser x.final.parser).framing = .chunked →
    ChunkedBody maxChunkSize x.final.body
  keepAlive : x.request.parser.keepAlive = true ∧ x.final.parser.keepAlive = true

/-- A write of a head to a remote that takes it. -/
theorem writeToRemote_returns (octets : List Octet) {s : Session η} (h : s.remoteSock.WritesOk) :
    Returns (writeToRemote octets) s fun ok t =>
      ok = true ∧ s.Follows t ∧ t.upLink.ahead = s.upLink.ahead := by
  have hok : Returns (writeToRemote octets) s fun ok _ => ok = true := by
    refine Returns.bind (P := fun r _ => r.1 = false) (returns_zoom (asyncWrite_returns h)) ?_
    rintro ⟨ec, n⟩ t hec
    have hec : ec = false := hec
    subst hec
    exact returns_pure rfl
  refine ((hok.ends (writeToRemote_ends octets s)).ends (follows_writeToRemote octets s)).mono ?_
  rintro ok t ⟨⟨hok, hahead, -⟩, hfollows⟩
  exact ⟨hok, hfollows, hahead⟩

theorem writeToClient_returns (octets : List Octet) {s : Session η} (h : s.clientSock.WritesOk) :
    Returns (writeToClient octets) s fun ok t =>
      ok = true ∧ s.Follows t ∧ t.downLink.ahead = s.downLink.ahead := by
  have hok : Returns (writeToClient octets) s fun ok _ => ok = true := by
    refine Returns.bind (P := fun r _ => r.1 = false) (returns_zoom (asyncWrite_returns h)) ?_
    rintro ⟨ec, n⟩ t hec
    have hec : ec = false := hec
    subst hec
    exact returns_pure rfl
  obtain ⟨ok, t, hr, rfl, hfollows⟩ := hok.ends (follows_writeToClient octets s)
  exact ⟨true, t, hr, rfl, hfollows, (writeToClient_ok hr).2⟩

/-- A body that is ahead on a link that is ready is forwarded. -/
theorem forwardRequestBody_returns {parser : RequestParser} {body rest : Bytes} {s : Session η}
    (hready : s.upLink.Ready env.fuel) (hahead : s.upLink.ahead = body ++ rest)
    (hbody : RequestBody (determineRequestBodyInfo parser) body)
    (hchunks : (determineRequestBodyInfo parser).framing = .chunked →
      ChunkedBody maxChunkSize body) :
    Returns (forwardRequestBody env parser) s fun ok _ => ok = true := by
  unfold forwardRequestBody
  unfold RequestBody at hbody
  generalize determineRequestBodyInfo parser = info at hbody hchunks ⊢
  rcases info with ⟨framing, contentLength⟩
  cases framing with
  | none => exact returns_pure rfl
  | contentLength =>
    refine returns_zoom (forwardExactly_returns hready ?_)
    have hlen : body.length = contentLength.toNat := hbody
    rw [hahead, List.length_append, hlen]
    exact Nat.le_add_right _ _
  | chunked =>
    obtain ⟨ts, hts, -⟩ := (hchunks rfl).framed
    exact returns_zoom (forwardChunked_flows hready hts hahead)

theorem forwardResponseBody_returns {parser : RequestParser} {response : ResponseParser}
    {body rest : Bytes} {s : Session η} (hready : s.downLink.Ready env.fuel)
    (hahead : s.downLink.ahead = body ++ rest)
    (hbody : ResponseBody (determineResponseBodyInfo parser response) body)
    (hchunks : (determineResponseBodyInfo parser response).framing = .chunked →
      ChunkedBody maxChunkSize body)
    (hclose : (determineResponseBodyInfo parser response).framing ≠ .closeDelimited) :
    Returns (forwardResponseBody env parser response) s fun ok _ => ok = true := by
  unfold forwardResponseBody
  unfold ResponseBody at hbody
  generalize determineResponseBodyInfo parser response = info at hbody hchunks hclose ⊢
  rcases info with ⟨framing, contentLength⟩
  cases framing with
  | none => exact returns_pure rfl
  | contentLength =>
    refine returns_zoom (forwardExactly_returns hready ?_)
    have hlen : body.length = contentLength.toNat := hbody
    rw [hahead, List.length_append, hlen]
    exact Nat.le_add_right _ _
  | chunked =>
    obtain ⟨ts, hts, -⟩ := (hchunks rfl).framed
    exact returns_zoom (forwardChunked_flows hready hts hahead)
  | closeDelimited => exact absurd rfl hclose
  | tunnel => exact hbody.elim

/-- The upstream half of an exchange that goes well. -/
theorem forwardRequest_returns {x : AnsweredRequest env} {host port rest : Bytes}
    (raw : List Octet) (info : RemoteInfo) {s : Session η} (hx : x.Smooth host port)
    (hready : s.upLink.Ready env.fuel) (hahead : s.upLink.ahead = x.request.body ++ rest) :
    Returns (forwardRequest env x.request.parser raw info) s fun q _ => q.isSome = true := by
  obtain ⟨head, hhead⟩ := exists_rebuiltHead env hx.known info s.script
  obtain ⟨built, request, hbuilt, hrequest, -⟩ := (rebuiltHead_eq_ok env).mp hhead
  unfold forwardRequest writeRemoteRequestHeader
  rw [hbuilt]
  refine Returns.after rfl (Returns.after rfl ?_)
  rw [hrequest]
  generalize ruledRequest env.ruleEngine env.ruleHttpConfig ⟨s.script, built⟩ = ruled
  obtain ⟨ok, t, hwrite, rfl, hfollows, hahead'⟩ := writeToRemote_returns
    (madeFrom raw (env.beast.serializeRequest request)) (s := { s with script := ruled.script })
    hready.target
  refine Returns.after (a := true) (t := t) hwrite ?_
  rw [if_pos rfl]
  have hbody : t.upLink.ahead = x.request.body ++ rest := hahead'.trans hahead
  have hready' : t.upLink.Ready env.fuel := by
    refine hready.follows ⟨hfollows.client, hfollows.remote⟩ ?_
    rw [hbody, hahead]
  refine Returns.bind (forwardRequestBody_returns hready' hbody x.request.framed
    hx.requestChunks) ?_
  rintro ok u rfl
  exact returns_pure rfl

/-- The downstream half of an exchange that goes well. -/
theorem forwardResponse_returns {x : AnsweredRequest env} {host port rest : Bytes}
    (request : RequestHeader) {s : Session η} (hx : x.Smooth host port)
    (hready : s.downLink.Ready env.fuel) (hahead : s.downLink.ahead = x.answer ++ rest) :
    Returns (forwardResponse env x.request.parser request) s fun r _ => r = .continue := by
  have hsplit : s.downLink.ahead = x.final.head ++ (x.final.body ++ rest) := by
    rw [hahead, AnsweredRequest.answer, hx.interims, List.flatMap_nil, List.nil_append,
      List.append_assoc]
  have hin : s.downLink.fromPeer.incoming.length < env.fuel := by
    have henough := hready.enough
    rw [Link.left] at henough
    omega
  obtain ⟨q, l, hread, hsome, hlink⟩ := (asyncReadHeader_returns hready.source x.final.delimits
    hx.responseHead hsplit hin).ends (follows_asyncReadHeader _ _ s.downLink)
  obtain ⟨p, rfl⟩ := Option.isSome_iff_exists.mp hsome
  obtain ⟨htarget, hparsed⟩ :=
    (asyncReadHeader_delimits x.final.delimits hsplit env.fuel).ok hread
  obtain ⟨hp, -, hahead₁⟩ := hparsed p rfl
  obtain ⟨response, raw⟩ := p
  obtain rfl : response = x.final.parser := hp
  unfold forwardResponse
  refine Returns.after (a := some (x.final.parser, raw)) (t := s.putDownLink l) (zoom_ok hread) ?_
  refine Returns.after rfl ?_
  generalize ruledResponse env.ruleEngine env.ruleHttpConfig request
    ⟨(s.putDownLink l).script, x.final.parser.header⟩ = ruled
  have hready₁ : l.Ready env.fuel := by
    refine hready.follows hlink ?_
    rw [hahead₁, hsplit]
    simp only [List.length_append]
    omega
  obtain ⟨ok, t, hwrite, rfl, hfollows, hahead₂⟩ := writeToClient_returns
    (madeFrom raw (env.beast.serializeResponse (relayedResponse env.beast ruled.message)))
    (s := { s.putDownLink l with script := ruled.script }) hready₁.target
  refine Returns.after (a := true) (t := t) hwrite ?_
  rw [if_pos rfl]
  have hbody : t.downLink.ahead = x.final.body ++ rest := hahead₂.trans hahead₁
  have hready₂ : t.downLink.Ready env.fuel := by
    refine hready₁.follows ⟨hfollows.remote, hfollows.client⟩ ?_
    rw [hbody, hahead₁]
  have hclose : (determineResponseBodyInfo x.request.parser x.final.parser).framing
      ≠ .closeDelimited := fun hcd => by
    have hkeep := hx.keepAlive.2
    rw [x.final.closes hcd] at hkeep
    cases hkeep
  refine Returns.bind ((forwardResponseBody_returns hready₂ hbody x.final.framed
    hx.responseChunks hclose).ends (follows_forwardResponseBody env _ _ t)) ?_
  rintro ok u ⟨rfl, hfollows'⟩
  rw [if_pos rfl]
  have hopen : u.clientSock.isOpen = true ∧ u.remoteSock.isOpen = true :=
    ⟨hfollows'.client.isOpen.trans hready₂.target.1, hfollows'.remote.isOpen.trans hready₂.source.1⟩
  refine Returns.after (a := true) (t := u) ?_ (returns_pure rfl)
  rw [shouldKeepAlive, bind_ok (get_run u), hx.keepAlive.1, hx.keepAlive.2, hopen.1, hopen.2]
  rfl

/-- From `s`, connected for the exchange `x`, to `t`: `x` was served, and `rest` and `tail` are
ahead. -/
structure RoundTrip (x : AnsweredRequest env) (info : RemoteInfo) (rest tail : Bytes)
    (s t : Session η) : Prop where
  client : ClientReady env.fuel t
  remote : RemoteReady env.fuel t
  upstream : t.upLink.ahead = rest
  downstream : t.downLink.ahead = tail
  sent : ∃ head, rebuiltHead env x.request.parser.header info s.script = .ok head ∧
    SentToRemote s t (head ++ x.request.body)
  got : ∃ head, relayedHead env x.request.parser.header info s.script x.final.parser.header
    = .ok head ∧ SentToClient s t (head ++ x.final.body)
  frame : t.remoteState = s.remoteState ∧ t.dials = s.dials ∧ t.resolutions = s.resolutions ∧
    t.closed = s.closed

/-- **One exchange** with the connected remote: both halves return, and it continues. -/
theorem serve_returns {x : AnsweredRequest env} {host port rest tail : Bytes} {raw : List Octet}
    {info : RemoteInfo} {s : Session η} (hx : x.Smooth host port)
    (hclient : ClientReady env.fuel s) (hremote : RemoteReady env.fuel s)
    (hahead : s.upLink.ahead = x.request.body ++ rest)
    (hanswer : s.downLink.ahead = x.answer ++ tail) :
    Returns (do
        match ← forwardRequest env x.request.parser raw info with
        | none => pure .close
        | some request => forwardResponse env x.request.parser request) s
      fun r t => r = .continue ∧ RoundTrip x info rest tail s t := by
  obtain ⟨q, t, hrequest, ⟨hsome, hfollows⟩, hup⟩ :=
    ((forwardRequest_returns raw info hx (hclient.upLink hremote) hahead).ends
      (follows_forwardRequest env _ _ _ s)).ends (upstream_forwardRequest env _ _ _ s)
  obtain ⟨request, rfl⟩ := Option.isSome_iff_exists.mp hsome
  refine Returns.after hrequest ?_
  obtain ⟨hruled, head, hhead⟩ := forwardRequest_some env hrequest
  obtain ⟨w, hw, -, hdone⟩ := (forwardRequest_ends env hhead x.request.framed hahead).ok hrequest
  obtain ⟨rfl, hrest⟩ := hdone rfl
  have hclient₁ : ClientReady env.fuel t := by
    refine hfollows.clientReady hclient ?_
    rw [hrest, hahead]
    exact (List.suffix_append _ _).length_le
  have hremote₁ : RemoteReady env.fuel t := by
    refine hfollows.remoteReady hremote ?_
    rw [hup.downLink_ahead]
  have hanswer₁ : t.downLink.ahead = x.answer ++ tail := hup.downLink_ahead.trans hanswer
  obtain ⟨r, u, hresponse, ⟨rfl, hfollows'⟩, hdown⟩ :=
    ((forwardResponse_returns request hx (hclient₁.downLink hremote₁) hanswer₁).ends
      (follows_forwardResponse env _ _ t)).ends (downstream_forwardResponse env _ _ t)
  refine ⟨.continue, u, hresponse, rfl, ?_⟩
  have hsplit : t.downLink.ahead = x.final.head ++ (x.final.body ++ tail) := by
    rw [hanswer₁, AnsweredRequest.answer, hx.interims, List.flatMap_nil, List.nil_append,
      List.append_assoc]
  obtain ⟨hsent, htail, -, -⟩ := forwardResponse_ok env x.final.delimits x.final.framed
    x.final.closes hsplit hresponse
  have hrelayed : relayedHead env x.request.parser.header info s.script x.final.parser.header
      = .ok (env.beast.serializeResponse (relayedResponse env.beast (ruledResponse env.ruleEngine
        env.ruleHttpConfig request ⟨t.script, x.final.parser.header⟩).message)) := by
    rw [relayedHead, hruled]
    rfl
  refine ⟨hfollows'.clientReady hclient₁ ?_, hfollows'.remoteReady hremote₁ ?_, ?_, htail,
    ⟨head, hhead, hw.trans_nil hdown.remote_sent⟩,
    ⟨_, hrelayed, (sentToClient_nil hup.client_sent).trans hsent⟩, ?_⟩
  · rw [hdown.upLink_ahead]
  · rw [htail, hanswer₁]
    exact (List.suffix_append _ _).length_le
  · rw [hdown.upLink_ahead, hrest]
  · rw [hdown, hup]
    exact ⟨rfl, rfl, rfl, rfl⟩

/-! ## Visits -/

variable (env) in
/-- The requests in a row that are for one remote, how it is resolved and connected to, and what it
does then. -/
structure Visit where
  host : Bytes
  port : Bytes
  endpoints : List Endpoint
  attempts : List (Option RemotePeer)
  endpoint : Endpoint
  peer : RemotePeer
  exchanges : List (AnsweredRequest env)

def Visit.dial (v : Visit env) : Dial := ⟨some v.endpoints, v.attempts⟩

def Visit.resolution (v : Visit env) : Resolution := ⟨v.host, v.port, v.endpoints⟩

/-- The remote is reached, and answers its requests, at least one, on the one connection. -/
structure Visit.Served (v : Visit env) : Prop where
  connects : connectFirst v.endpoints v.attempts = some (v.endpoint, v.peer)
  reads : ∀ r ∈ v.peer.incoming, r.ec = none ∧ r.bytes ≠ []
  writes : ∀ w ∈ v.peer.writes, w = .ok
  stream : v.peer.stream = v.exchanges.flatMap AnsweredRequest.answer
  nonempty : v.exchanges ≠ []
  smooth : ∀ x ∈ v.exchanges, x.Smooth v.host v.port
  enough : 3 * (v.peer.incoming.length + v.peer.stream.length) + 2 < env.fuel

/-- The next visit is to another remote. -/
def Visit.Leaves (v w : Visit env) : Prop := ¬ (v.host = w.host ∧ v.port = w.port)

/-- The bytes of the requests. -/
def requestBytes (exchanges : List (AnsweredRequest env)) : Bytes :=
  (exchanges.map AnsweredRequest.request).flatMap ClientRequest.bytes

/-- The connection between two exchanges: none yet, or the one of the last visit, with the answers
to `xs` ahead. -/
def Connected (visited later : List (Visit env)) (xs : List (AnsweredRequest env))
    (s : Session η) : Prop :=
  visited = [] ∧ xs = [] ∧ s.remoteState.connected = false ∧ s.remoteReadBuffer = [] ∧
    later.IsChain Visit.Leaves ∨
  ∃ v, v ∈ visited.getLast? ∧ s.remoteState = ⟨v.host, v.port, true⟩ ∧ RemoteReady env.fuel s ∧
    s.downLink.ahead = xs.flatMap AnsweredRequest.answer ∧
    (∀ x ∈ xs, x.Smooth v.host v.port) ∧ (v :: later).IsChain Visit.Leaves

/-- Between two exchanges of a session: the visits begun and those to come, the exchanges that are
done and those left of the visit begun last. -/
structure Between (visited later : List (Visit env)) (done xs : List (AnsweredRequest env))
    (s : Session η) : Prop where
  split : visited.flatMap Visit.exchanges = done ++ xs
  served : ∀ v ∈ later, v.Served
  client : ClientReady env.fuel s
  ahead : s.upLink.ahead = requestBytes (xs ++ later.flatMap Visit.exchanges)
  connected : Connected visited later xs s
  dials : s.dials = later.map Visit.dial
  resolutions : s.resolutions = visited.map Visit.resolution
  isOpen : s.closed = false
  sent : Relayed env (done.map AnsweredRequest.request) (text s.remoteSock.sentOctets)
  got : Answered env done (text s.clientSock.sentOctets)

/-- The head of the next request is read. -/
theorem readClientRequestHeader_returns {x : AnsweredRequest env} {host port rest : Bytes}
    {s : Session η} (hx : x.Smooth host port) (hclient : ClientReady env.fuel s)
    (hahead : s.upLink.ahead = x.request.bytes ++ rest) :
    Returns (readClientRequestHeader env) s fun q t => ∃ raw, q = some (x.request.parser, raw) ∧
      HeadOnly s t ∧ ClientReady env.fuel t ∧ t.upLink.ahead = x.request.body ++ rest := by
  have hsplit : s.upLink.ahead = x.request.head ++ (x.request.body ++ rest) := by
    rw [hahead, ClientRequest.bytes, List.append_assoc]
  have hin : s.upLink.fromPeer.incoming.length < env.fuel := by
    have henough := hclient.enough
    rw [Link.left] at henough
    omega
  have hhead : Returns (readClientRequestHeader env) s fun q _ => q.isSome = true :=
    returns_zoom (asyncReadHeader_returns hclient.reads.delivers x.request.delimits
      hx.requestHead hsplit hin)
  obtain ⟨q, t, hread, ⟨hsome, honly, hq⟩, hfollows⟩ :=
    (hhead.ends (readClientRequestHeader_request env hahead)).ends
      (follows_onUpLink (follows_asyncReadHeader _ _) s)
  obtain ⟨p, rfl⟩ := Option.isSome_iff_exists.mp hsome
  obtain ⟨hparser, hbody⟩ := hq p rfl
  refine ⟨some p, t, hread, p.2, by rw [← hparser], honly, ?_, hbody⟩
  refine hfollows.clientReady hclient ?_
  rw [hbody, hsplit]
  exact (List.suffix_append _ _).length_le

/-- **One exchange**, once connecting for it is known to succeed. -/
theorem handleOneExchange_returns {x : AnsweredRequest env} {host port rest : Bytes} (tail : Bytes)
    {s : Session η} (hx : x.Smooth host port) (hclient : ClientReady env.fuel s)
    (hahead : s.upLink.ahead = x.request.bytes ++ rest)
    (hconnect : ∀ info s₀, info.host = host → info.port = port → HeadOnly s s₀ → ∃ s₁,
      ensureRemoteConnected info s₀ = .ok true s₁ ∧ RemoteReady env.fuel s₁ ∧
        s₁.downLink.ahead = x.answer ++ tail) :
    Returns (handleOneExchange env) s fun r t => r = .continue ∧ ∃ info s₀ s₁,
      parseHttpRemoteInfo env.urls x.request.parser.header = some info ∧ info.host = host ∧
      info.port = port ∧ HeadOnly s s₀ ∧ Connects info s₀ s₁ ∧
      RoundTrip x info rest tail s₁ t := by
  obtain ⟨info, hinfo, hhost, hport⟩ := hx.remote
  obtain ⟨q, s₀, hread, raw, rfl, honly, hclient₀, hbody⟩ :=
    readClientRequestHeader_returns hx hclient hahead
  refine Returns.after hread ?_
  simp only [x.request.http, Bool.false_eq_true, if_false]
  unfold handleHttpExchange
  rw [x.request.parseRemoteInfo, hinfo]
  obtain ⟨s₁, hensure, hremote, hanswer⟩ := hconnect info s₀ hhost hport honly
  have hconnects : Connects info s₀ s₁ := (ensureRemoteConnected_ends info s₀).ok hensure
  refine Returns.after (a := true) (t := s₁) hensure ?_
  rw [if_pos rfl]
  have hclient₁ : ClientReady env.fuel s₁ := by
    rw [hconnects.frame.1]
    exact ⟨hclient₀.reads, hclient₀.writes, hclient₀.enough⟩
  have hbody₁ : s₁.upLink.ahead = x.request.body ++ rest := by
    rw [hconnects.frame.1]
    exact hbody
  refine (serve_returns hx hclient₁ hremote hbody₁ hanswer).mono ?_
  rintro r t ⟨rfl, hdone⟩
  exact ⟨rfl, info, s₀, s₁, rfl, hhost, hport, honly, hconnects, hdone⟩

/-! ## Runs -/

theorem ensureRemoteConnected_opens {info : RemoteInfo} {s : Session η} {dial : Dial}
    {dials : List Dial} {endpoints : List Endpoint} {endpoint : Endpoint} {peer : RemotePeer}
    (h : s.reuses info = false) (hdials : s.dials = dial :: dials)
    (hends : dial.endpoints = some endpoints)
    (hfirst : connectFirst endpoints dial.attempts = some (endpoint, peer)) :
    Returns (ensureRemoteConnected info) s fun ok _ => ok = true := by
  have hne : endpoints ≠ [] := by
    rintro rfl
    cases hfirst
  have hresolve : ∀ u : Session η, u.dials = dial :: dials → Returns (resolveRemote info) u
      fun r t => r = some endpoints ∧ t.dials = dial :: dials := by
    intro u hu
    refine returns_get ?_
    rw [hu]
    dsimp only
    rw [hends]
    dsimp only
    rw [if_neg hne]
    exact returns_modify (returns_pure ⟨rfl, hu⟩)
  have hconnect : ∀ u : Session η, u.dials = dial :: dials →
      Returns (connectRemote endpoints) u fun ok _ => ok = true := by
    intro u hu
    refine returns_get (returns_modify ?_)
    rw [hu]
    dsimp only [List.head?_cons, Option.elim_some]
    rw [hfirst]
    exact returns_modify (returns_pure rfl)
  refine returns_get ?_
  rw [h, if_neg (by simp)]
  refine Returns.after (t := { s with
    remoteSock := s.remoteSock.close, remoteState := ⟨[], [], false⟩ }) rfl ?_
  refine Returns.bind (hresolve _ hdials) ?_
  rintro r t ⟨rfl, ht⟩
  refine Returns.bind (hconnect t ht) ?_
  rintro ok u rfl
  exact returns_modify (returns_pure rfl)

/-- The first exchange left of the visit `v`, which is connected to. -/
structure Begun (visited later : List (Visit env)) (v : Visit env)
    (done : List (AnsweredRequest env)) (x : AnsweredRequest env)
    (xs : List (AnsweredRequest env)) (s : Session η) : Prop where
  last : v ∈ visited.getLast?
  split : visited.flatMap Visit.exchanges = done ++ x :: xs
  served : ∀ w ∈ later, w.Served
  smooth : ∀ y ∈ xs, y.Smooth v.host v.port
  chain : (v :: later).IsChain Visit.Leaves
  remoteState : s.remoteState = ⟨v.host, v.port, true⟩
  dials : s.dials = later.map Visit.dial
  resolutions : s.resolutions = visited.map Visit.resolution
  isOpen : s.closed = false
  sent : Relayed env (done.map AnsweredRequest.request) (text s.remoteSock.sentOctets)
  got : Answered env done (text s.clientSock.sentOctets)

theorem Begun.finished {visited later : List (Visit env)} {v : Visit env}
    {done xs : List (AnsweredRequest env)} {x : AnsweredRequest env} {info : RemoteInfo}
    {s t : Session η} (h : Begun visited later v done x xs s)
    (hinfo : parseHttpRemoteInfo env.urls x.request.parser.header = some info)
    (hdone : RoundTrip x info (requestBytes (xs ++ later.flatMap Visit.exchanges))
      (xs.flatMap AnsweredRequest.answer) s t) : Between visited later (done ++ [x]) xs t := by
  obtain ⟨hstate, hdials, hres, hclosed⟩ := hdone.frame
  obtain ⟨head, hhead, hsent⟩ := hdone.sent
  obtain ⟨head', hhead', hgot⟩ := hdone.got
  refine ⟨?_, h.served, hdone.client, hdone.upstream, Or.inr ⟨v, h.last, hstate.trans h.remoteState,
    hdone.remote, hdone.downstream, h.smooth, h.chain⟩, hdials.trans h.dials,
    hres.trans h.resolutions, hclosed.trans h.isOpen, ?_, ?_⟩
  · rw [h.split, List.append_assoc]
    rfl
  · have hsent : text t.remoteSock.sentOctets = _ := hsent
    rw [hsent, List.map_append]
    exact Relayed.snoc h.sent hinfo hhead
  · have hgot : text t.clientSock.sentOctets = _ := hgot
    rw [hgot]
    exact Answered.snoc h.got hinfo hhead'

theorem requestBytes_cons (x : AnsweredRequest env) (xs : List (AnsweredRequest env)) :
    requestBytes (x :: xs) = x.request.bytes ++ requestBytes xs := by
  rw [requestBytes, List.map_cons, List.flatMap_cons, requestBytes]

/-- The next exchange of the visit begun last: the connection is reused. -/
theorem Between.continues {visited later : List (Visit env)} {done xs : List (AnsweredRequest env)}
    {x : AnsweredRequest env} {s : Session η} (h : Between visited later done (x :: xs) s) :
    Returns (handleOneExchange env) s fun r t =>
      r = .continue ∧ Between visited later (done ++ [x]) xs t ∧
        t.upLink.ahead.length < s.upLink.ahead.length := by
  rcases h.connected with ⟨-, hnil, -⟩ | ⟨v, hv, hstate, hremote, hdown, hsmooth, hchain⟩
  · cases hnil
  have hx := hsmooth x List.mem_cons_self
  have hahead : s.upLink.ahead = x.request.bytes
      ++ requestBytes (xs ++ later.flatMap Visit.exchanges) := by
    rw [h.ahead, List.cons_append, requestBytes_cons]
  have hreuses : ∀ (info : RemoteInfo) s₀, info.host = v.host → info.port = v.port →
      HeadOnly s s₀ → s₀.reuses info = true := by
    intro info s₀ hhost hport honly
    rw [honly, Session.reuses]
    simp [hstate, hremote.reads.1, hhost, hport]
  refine (handleOneExchange_returns (xs.flatMap AnsweredRequest.answer) hx h.client hahead
    ?_).mono ?_
  · intro info s₀ hhost hport honly
    refine ⟨s₀, ensureRemoteConnected_reuses (hreuses info s₀ hhost hport honly), ?_, ?_⟩
    · rw [honly]
      exact ⟨hremote.reads, hremote.writes, hremote.enough⟩
    · rw [honly]
      exact hdown.trans List.flatMap_cons
  · rintro r t ⟨rfl, info, s₀, s₁, hinfo, hhost, hport, honly, hconnects, hdone⟩
    have hreused : s₁ = s₀ := by
      rcases hconnects with ⟨-, hs⟩ | ⟨hr, -⟩
      · exact hs
      · rw [hreuses info s₀ hhost hport honly] at hr
        cases hr
    subst hreused
    have hbegun : Begun visited later v done x xs s₁ := by
      refine ⟨hv, h.split, h.served, fun y hy => hsmooth y (List.mem_cons_of_mem _ hy), hchain,
        ?_, ?_, ?_, ?_, ?_, ?_⟩
      · rw [honly]; exact hstate
      · rw [honly]; exact h.dials
      · rw [honly]; exact h.resolutions
      · rw [honly]; exact h.isOpen
      · rw [honly]; exact h.sent
      · rw [honly]; exact h.got
    refine ⟨rfl, hbegun.finished hinfo hdone, ?_⟩
    rw [hdone.upstream, hahead, List.length_append, ClientRequest.bytes, List.length_append]
    have hpos := List.length_pos_iff.mpr hx.requestHead
    omega

/-- In front of a visit nothing of the last one is left, and its connection is not reused. -/
theorem Connected.leaves {visited later : List (Visit env)} {v : Visit env} {s : Session η}
    (h : Connected visited (v :: later) [] s) : s.remoteReadBuffer = [] ∧
      (v :: later).IsChain Visit.Leaves ∧ ∀ info : RemoteInfo, info.host = v.host →
        info.port = v.port → s.reuses info = false := by
  rcases h with ⟨-, -, hlost, hempty, hchain⟩ | ⟨w, -, hstate, -, hdown, -, hchain⟩
  · refine ⟨hempty, hchain, fun info _ _ => ?_⟩
    rw [Session.reuses, hlost]
    rfl
  · obtain ⟨hleaves, hchain⟩ := List.isChain_cons_cons.mp hchain
    refine ⟨List.map_eq_nil_iff.mp (List.append_eq_nil_iff.mp hdown).1, hchain, ?_⟩
    intro info hhost hport
    rw [Session.reuses, hstate, hhost, hport, Bool.eq_false_iff]
    intro hr
    simp only [Bool.and_eq_true, decide_eq_true_eq] at hr
    exact hleaves ⟨hr.1.2, hr.2⟩

/-- The first exchange of the next visit: a connection to its remote is opened. -/
theorem Between.visits {visited later : List (Visit env)} {v : Visit env}
    {done : List (AnsweredRequest env)} {s : Session η}
    (h : Between visited (v :: later) done [] s) :
    Returns (handleOneExchange env) s fun r t => r = .continue ∧ ∃ x xs,
      Between (visited ++ [v]) later (done ++ [x]) xs t ∧
        t.upLink.ahead.length < s.upLink.ahead.length := by
  have hv : v.Served := h.served v List.mem_cons_self
  obtain ⟨x, xs, hxs⟩ := List.exists_cons_of_ne_nil hv.nonempty
  have hx : x.Smooth v.host v.port := hv.smooth x (by rw [hxs]; exact List.mem_cons_self)
  obtain ⟨hempty, hchain, hleaves⟩ := h.connected.leaves
  have hahead : s.upLink.ahead = x.request.bytes
      ++ requestBytes (xs ++ later.flatMap Visit.exchanges) := by
    rw [h.ahead, List.nil_append, List.flatMap_cons, hxs, List.cons_append, requestBytes_cons]
  -- what connecting to the remote of `v` leads to
  have hopens : ∀ (info : RemoteInfo) s₀ s₁, info.host = v.host → info.port = v.port →
      HeadOnly s s₀ → Connects info s₀ s₁ → s₁ = { s₀ with
        remoteSock := ⟨true, ⟨s₀.nextConnection, v.endpoint⟩, v.peer.incoming, v.peer.atEof,
          v.peer.writes, s₀.remoteSock.sent⟩
        remoteState := ⟨v.host, v.port, true⟩
        dials := later.map Visit.dial
        resolutions := s₀.resolutions ++ [v.resolution]
        nextConnection := s₀.nextConnection + 1 } := by
    intro info s₀ s₁ hhost hport honly hconnects
    have hdials : s₀.dials = v.dial :: later.map Visit.dial := by rw [honly]; exact h.dials
    rcases hconnects with ⟨hr, -⟩ | ⟨-, dial, endpoints, endpoint, peer, hdial, hends, hfirst, hs⟩
    · have hno := hleaves info hhost hport
      rw [honly] at hr
      exact absurd hr (by simpa [Session.reuses] using hno)
    · rw [hdials] at hdial
      obtain rfl := Option.some.inj hdial
      obtain rfl := Option.some.inj hends
      have hsome := hfirst.symm.trans hv.connects
      obtain ⟨rfl, rfl⟩ := Prod.mk.inj (Option.some.inj hsome)
      rw [hs, hhost, hport, hdials]
      rfl
  refine (handleOneExchange_returns (xs.flatMap AnsweredRequest.answer) hx h.client hahead
    ?_).mono ?_
  · intro info s₀ hhost hport honly
    have hno : s₀.reuses info = false := by
      rw [honly]
      simpa [Session.reuses] using hleaves info hhost hport
    have hdials : s₀.dials = v.dial :: later.map Visit.dial := by rw [honly]; exact h.dials
    obtain ⟨ok, s₁, hensure, rfl⟩ := ensureRemoteConnected_opens hno hdials rfl hv.connects
    have hs₁ := hopens info s₀ s₁ hhost hport honly
      ((ensureRemoteConnected_ends info s₀).ok hensure)
    have hbuf : s₀.remoteReadBuffer = [] := by rw [honly]; exact hempty
    have hstream : s₁.downLink.ahead = v.peer.stream := by
      rw [hs₁]
      show text s₀.remoteReadBuffer ++ v.peer.stream = v.peer.stream
      rw [hbuf]
      rfl
    refine ⟨s₁, hensure, ⟨?_, ?_, ?_⟩, ?_⟩
    · rw [hs₁]; exact ⟨rfl, hv.reads⟩
    · rw [hs₁]; exact ⟨rfl, hv.writes⟩
    · rw [Link.left, hstream, hs₁]
      exact hv.enough
    · rw [hstream, hv.stream, hxs]
      rfl
  · rintro r t ⟨rfl, info, s₀, s₁, hinfo, hhost, hport, honly, hconnects, hdone⟩
    have hs₁ := hopens info s₀ s₁ hhost hport honly hconnects
    have hbegun : Begun (visited ++ [v]) later v done x xs s₁ := by
      refine ⟨by simp, ?_, fun w hw => h.served w (List.mem_cons_of_mem _ hw),
        fun y hy => hv.smooth y (by rw [hxs]; exact List.mem_cons_of_mem _ hy), hchain, ?_, ?_, ?_,
        ?_, ?_, ?_⟩
      · rw [List.flatMap_append, h.split, List.append_nil, List.flatMap_singleton, hxs]
      · rw [hs₁]
      · rw [hs₁]
      · rw [hs₁, honly, List.map_append, ← h.resolutions]
        rfl
      · rw [hs₁, honly]; exact h.isOpen
      · rw [hs₁, honly]; exact h.sent
      · rw [hs₁, honly]; exact h.got
    refine ⟨rfl, x, xs, hbegun.finished hinfo hdone, ?_⟩
    rw [hdone.upstream, hahead, List.length_append, ClientRequest.bytes, List.length_append]
    have hpos := List.length_pos_iff.mpr hx.requestHead
    omega

/-- **One turn of the loop of `Run`**: as long as there is an exchange left it continues, with less
to read from the client; at the end of the client's stream it is left. -/
theorem Between.turn {visited later : List (Visit env)} {done xs : List (AnsweredRequest env)}
    {s : Session η} (h : Between visited later done xs s) :
    Returns (runStep env ()) s fun r t => Sum.elim
      (fun _ => (∃ visited' later' done' xs', visited' ++ later' = visited ++ later ∧
        Between visited' later' done' xs' t) ∧ t.upLink.ahead.length < s.upLink.ahead.length)
      (fun _ => later = [] ∧ xs = [] ∧ t = s) r := by
  cases xs with
  | cons x xs =>
    refine Returns.bind h.continues ?_
    rintro r t ⟨rfl, hnext, hlt⟩
    exact returns_pure ⟨⟨visited, later, _, xs, rfl, hnext⟩, hlt⟩
  | nil =>
    cases later with
    | cons v later =>
      refine Returns.bind h.visits ?_
      rintro r t ⟨rfl, x, xs, hnext, hlt⟩
      refine returns_pure ⟨⟨visited ++ [v], later, _, xs, ?_, hnext⟩, hlt⟩
      rw [List.append_assoc]
      rfl
    | nil =>
      have hread : readClientRequestHeader env s = .ok none s :=
        zoom_ok (asyncReadHeader_eof h.client.reads h.ahead (by have := h.client.enough; omega))
      have hclose : handleOneExchange env s = .ok .close s := bind_ok hread
      exact Returns.after hclose (returns_pure ⟨rfl, rfl, rfl⟩)

/-- **Sessions get done.**  A client sends requests for remotes that can all be reached and answer
every request, on connections that stay alive, and then closes its side; no read or write fails.
Then `Run` returns.  Every request was forwarded and every response came back, in order; each remote
was resolved once for its requests in a row, in order; and the session is closed. -/
theorem run_completes (env : Env η) (clientSock : Socket) (script : η) (plan : List (Visit env))
    (hreads : clientSock.DeliversAll) (hwrites : clientSock.WritesOk) (hnew : clientSock.sent = [])
    (hstream : clientSock.stream = requestBytes (plan.flatMap Visit.exchanges))
    (hserved : ∀ v ∈ plan, v.Served) (hchain : plan.IsChain Visit.Leaves)
    (henough : 3 * (clientSock.incoming.length + clientSock.stream.length) + 2 < env.fuel) :
    ∃ t, run env (Session.new clientSock script (plan.map Visit.dial)) = .ok ⟨⟩ t ∧
      Relayed env ((plan.flatMap Visit.exchanges).map AnsweredRequest.request)
        (text t.remoteSock.sentOctets) ∧
      Answered env (plan.flatMap Visit.exchanges) (text t.clientSock.sentOctets) ∧
      t.resolutions = plan.map Visit.resolution ∧ t.dials = [] ∧
      t.closed = true ∧ t.clientSock.isOpen = false ∧ t.remoteSock.isOpen = false := by
  have hstart : Between [] plan [] [] (Session.new clientSock script (plan.map Visit.dial)) := by
    refine ⟨rfl, hserved, ⟨hreads, hwrites, henough⟩, hstream, Or.inl ⟨rfl, rfl, rfl, rfl, hchain⟩,
      rfl, rfl, rfl, Relayed.nil, ?_⟩
    show Answered env [] (text clientSock.sentOctets)
    rw [Socket.sentOctets, hnew]
    exact Answered.nil
  have hfuel : (Session.new clientSock script (plan.map Visit.dial)).upLink.ahead.length
      < env.fuel := by
    show clientSock.stream.length < env.fuel
    omega
  have hloop : Returns (whileLoop .outOfFuel (runStep env) env.fuel ())
      (Session.new clientSock script (plan.map Visit.dial))
      fun _ t => ∃ done, Between plan [] done [] t := by
    refine returns_whileLoop (fun _ s => ∃ visited later done xs, visited ++ later = plan ∧
      Between visited later done xs s) (fun _ s => s.upLink.ahead.length) ?_
      ⟨[], plan, [], [], rfl, hstart⟩ hfuel
    rintro - s ⟨visited, later, done, xs, rfl, hs⟩
    refine hs.turn.mono ?_
    rintro (_ | _) t hr
    · exact hr
    · obtain ⟨rfl, rfl, rfl⟩ := hr
      exact ⟨done, by rw [List.append_nil]; exact hs⟩
  obtain ⟨_, s, hr, done, hs⟩ := hloop
  have hdone : plan.flatMap Visit.exchanges = done := by rw [hs.split, List.append_nil]
  refine ⟨_, (bind_ok hr).trans (close_run s), ?_⟩
  rw [hs.isOpen, if_neg (by simp), hdone]
  exact ⟨hs.sent, hs.got, hs.resolutions, hs.dials, rfl, rfl, rfl⟩

end Exchange

/-! ### A run with two remotes -/

/-- Sessions with requests to `a` and `b`, observed long enough. -/
def twoRemotes : Env (List (Except Error Bool)) :=
  { Env.ofHosts [ascii "a", ascii "b"] [emptyOk] with fuel := 400 }

theorem requestBody_getOf (host : Bytes) :
    RequestBody (determineRequestBodyInfo (getOf host).2) [] := rfl

theorem status_emptyOk : 200 ≤ emptyOk.2.header.status := by decide

theorem responseBody_emptyOk (host : Bytes) :
    ResponseBody (determineResponseBodyInfo (getOf host).2 emptyOk.2) [] := rfl

/-- A request to `a` or `b`, answered with a response without content. -/
def exchangeWith (host : Bytes) (hmem : getOf host ∈ [getOf (ascii "a"), getOf (ascii "b")])
    (hfree : ∀ h ∈ [getOf (ascii "a"), getOf (ascii "b")],
      h.1 <+: (getOf host).1 ∨ (getOf host).1 <+: h.1 → h = getOf host) :
    AnsweredRequest twoRemotes where
  request := ⟨(getOf host).2, (getOf host).1, [], HeadTable.delimits hmem hfree, rfl,
    requestBody_getOf host⟩
  interims := []
  final :=
    { parser := emptyOk.2
      head := emptyOk.1
      delimits := @HeadTable.delimits _ [emptyOk] _ _ List.mem_cons_self
        fun _ hh _ => List.mem_singleton.mp hh
      body := []
      final := status_emptyOk
      framed := responseBody_emptyOk host
      closes := fun h => by cases (show ResponseBodyFraming.contentLength = _ from h) }

def exchangeWithA : AnsweredRequest twoRemotes := exchangeWith (ascii "a") (by decide) (by decide)

def exchangeWithB : AnsweredRequest twoRemotes := exchangeWith (ascii "b") (by decide) (by decide)

theorem smooth_exchangeWith {host : Bytes} {hmem hfree} (hremote : parseHttpRemoteInfo
    twoRemotes.urls (getOf host).2.header = some ⟨ascii "http", host, ascii "80", ascii "/"⟩) :
    (exchangeWith host hmem hfree).Smooth host (ascii "80") where
  known := rfl
  remote := ⟨_, hremote, rfl, rfl⟩
  requestHead := List.append_ne_nil_of_right_ne_nil _ (by decide)
  requestChunks := fun h => by cases (show RequestBodyFraming.none = _ from h)
  interims := rfl
  responseHead := show emptyOk.1 ≠ [] by decide
  responseChunks := fun h => by cases (show ResponseBodyFraming.contentLength = _ from h)
  keepAlive := ⟨rfl, rfl⟩

/-- A visit to a remote that sends each response in one read. -/
def visitTo (host : Bytes) (exchanges : List (AnsweredRequest twoRemotes)) : Visit twoRemotes where
  host := host
  port := ascii "80"
  endpoints := [⟨host, 80⟩]
  attempts := [some ⟨exchanges.map fun _ => ⟨none, emptyOk.1⟩, true, []⟩]
  endpoint := ⟨host, 80⟩
  peer := ⟨exchanges.map fun _ => ⟨none, emptyOk.1⟩, true, []⟩
  exchanges := exchanges

/-- Two requests to `a` and one to `b` in one read. -/
theorem run_completes_twoRemotes : ∃ t, run twoRemotes (Session.new
      (scriptedSocket 0 [⟨none, requestBytes [exchangeWithA, exchangeWithA, exchangeWithB]⟩]) []
      ([visitTo (ascii "a") [exchangeWithA, exchangeWithA],
        visitTo (ascii "b") [exchangeWithB]].map Visit.dial)) = .ok ⟨⟩ t ∧
    t.resolutions.map Resolution.host = [ascii "a", ascii "b"] := by
  have hleaves : ¬ (ascii "a" = ascii "b" ∧ ascii "80" = ascii "80") := by decide
  have hserved : ∀ v ∈ [visitTo (ascii "a") [exchangeWithA, exchangeWithA],
      visitTo (ascii "b") [exchangeWithB]], v.Served := by
    intro v hv
    simp only [List.mem_cons, List.not_mem_nil, or_false] at hv
    rcases hv with rfl | rfl
    · refine ⟨rfl, by decide, by decide, by decide, by simp [visitTo], fun x hx => ?_, by decide⟩
      obtain rfl : x = exchangeWithA := by simpa [visitTo] using hx
      exact smooth_exchangeWith (by decide)
    · refine ⟨rfl, by decide, by decide, by decide, by simp [visitTo], fun x hx => ?_, by decide⟩
      obtain rfl : x = exchangeWithB := by simpa [visitTo] using hx
      exact smooth_exchangeWith (by decide)
  obtain ⟨t, hr, -, -, hres, -⟩ := run_completes twoRemotes
    (scriptedSocket 0 [⟨none, requestBytes [exchangeWithA, exchangeWithA, exchangeWithB]⟩]) []
    [visitTo (ascii "a") [exchangeWithA, exchangeWithA], visitTo (ascii "b") [exchangeWithB]]
    ⟨⟨rfl, by decide⟩, rfl⟩ ⟨rfl, by decide⟩ rfl (by decide) hserved
    (.cons_cons hleaves (.singleton _)) (by decide)
  exact ⟨t, hr, by rw [hres]; rfl⟩

end ProxyPP.Http
