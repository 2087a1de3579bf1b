import ProxyPP.Http.Pipelining

/-!
# ProxyPP.Http.Attribution — whose response the client gets

A server answers each request with interim responses and one final response.  An exchange reads one
response head.  If that is the final response the client gets the answer to its own request, and the
next answer is ahead; over a run, answer `k` goes to request `k` (`responses_attributed`).  If it is
an interim one, the exchange forwards that and continues, and the final response becomes the
response of the next request (`interim_shifts_responses`).
-/

namespace ProxyPP.Http

open ProxyPP ProxyPP.Lib ProxyPP.Rules

variable {η : Type} (env : Env η)

/-! ## Answers -/

/-- A response head for the parser. -/
structure ResponseHead where
  parser : ResponseParser
  head : Bytes
  delimits : Delimits env.beast.parseResponse head parser

/-- An interim response; it has no body. -/
structure InterimResponse extends ResponseHead env where
  interim : 100 ≤ parser.header.status ∧ parser.header.status < 200
  notSwitching : parser.header.status ≠ 101

/-- A final response to a request, with a body of the framing its head announces.  Beast does not
keep a connection alive whose end delimits the body. -/
structure FinalResponse (request : RequestParser) extends ResponseHead env where
  body : Bytes
  final : 200 ≤ parser.header.status
  framed : ResponseBody (determineResponseBodyInfo request parser) body
  closes : (determineResponseBodyInfo request parser).framing = .closeDelimited →
    parser.keepAlive = false

/-- A request and what the server answers to it. -/
structure AnsweredRequest where
  request : ClientRequest env
  interims : List (InterimResponse env)
  final : FinalResponse env request.parser

variable {env}

def AnsweredRequest.answer (x : AnsweredRequest env) : Bytes :=
  x.interims.flatMap (fun i => i.head) ++ (x.final.head ++ x.final.body)

/-- The first response of the answer is the final one, or the exchange does not continue after. -/
def AnsweredRequest.FinalFirst (x : AnsweredRequest env) : Prop :=
  ∀ i ∈ x.interims.head?, (x.request.parser.keepAlive && i.parser.keepAlive) = false

variable (env)

/-- The head of a response as the client gets it, after the request rules ran from `script` and then
the response rules. -/
def relayedHead (header : RequestHeader) (info : RemoteInfo) (script : η)
    (response : ResponseHeader) : Except Bytes Bytes := do
  let ruled ← ruledHeader env header info script
  pure (env.beast.serializeResponse (relayedResponse env.beast
    (ruledResponse env.ruleEngine env.ruleHttpConfig ruled.message
      ⟨ruled.script, response⟩).message))

/-- The bytes are the relayed final responses to the requests, in order. -/
inductive Answered : List (AnsweredRequest env) → Bytes → Prop
  | nil : Answered [] []
  | snoc {exchanges : List (AnsweredRequest env)} {bytes head : Bytes} {x : AnsweredRequest env}
      {info : RemoteInfo} {script : η} : Answered exchanges bytes →
      parseHttpRemoteInfo env.urls x.request.parser.header = some info →
      relayedHead env x.request.parser.header info script x.final.parser.header = .ok head →
      Answered (exchanges ++ [x]) (bytes ++ (head ++ x.final.body))

/-! ## What the client gets -/

/-- From `s` to `t` the bytes `w` were sent to the client. -/
def SentToClient (s t : Session η) (w : Bytes) : Prop :=
  text t.clientSock.sentOctets = text s.clientSock.sentOctets ++ w

theorem SentToClient.trans {s t u : Session η} {w w' : Bytes} (h : SentToClient s t w)
    (h' : SentToClient t u w') : SentToClient s u (w ++ w') := by
  unfold SentToClient at *
  rw [h', h, List.append_assoc]

/-- From `s` to `t` the client got this response to its request. -/
def Gets (r : ClientRequest env) (response : ResponseParser) (body : Bytes) (s t : Session η) :
    Prop :=
  ∃ info head, parseHttpRemoteInfo env.urls r.parser.header = some info ∧
    relayedHead env r.parser.header info s.script response.header = .ok head ∧
    SentToClient s t (head ++ body)

theorem sentToClient_nil {s t : Session η} (h : t.clientSock.sent = s.clientSock.sent) :
    SentToClient s t [] := by
  rw [SentToClient, Socket.sentOctets, h, List.append_nil, Socket.sentOctets]

theorem writeToClient_ok {octets : List Octet} {s t : Session η}
    (h : writeToClient octets s = .ok true t) :
    SentToClient s t (text octets) ∧ t.downLink.ahead = s.downLink.ahead := by
  obtain ⟨⟨ec, n⟩, u, hwrite, h⟩ := bind_eq_ok.mp h
  obtain ⟨hec, rfl⟩ := EStateM.Result.ok.inj h
  obtain ⟨c, hc, rfl⟩ := zoom_eq_ok.mp hwrite
  obtain ⟨-, w, hsent, -, hall⟩ := (asyncWrite_text octets s.clientSock fun _ _ => True).ok hc
  rw [hall (by simpa using hec)] at hsent
  exact ⟨hsent, rfl⟩

/-- A response body that was forwarded: all of it was sent, and what follows it is ahead. -/
theorem forwardResponseBody_ok {parser : RequestParser} {response : ResponseParser}
    {body rest : Bytes} {s t : Session η}
    (hbody : ResponseBody (determineResponseBodyInfo parser response) body)
    (hframing : (determineResponseBodyInfo parser response).framing ≠ .closeDelimited)
    (hahead : s.downLink.ahead = body ++ rest)
    (h : forwardResponseBody env parser response s = .ok true t) :
    SentToClient s t body ∧ t.downLink.ahead = rest := by
  have hzoom : ∀ {m : EStateM Stop Link Bool},
      Ends m s.downLink (BodySent s.downLink body rest) (fun _ _ => True) →
      onDownLink m s = .ok true t → SentToClient s t body ∧ t.downLink.ahead = rest := by
    intro m hm hr
    obtain ⟨l, hl, rfl⟩ := zoom_eq_ok.mp hr
    obtain ⟨w, hsent, -, hdone⟩ := hm.ok hl
    obtain ⟨rfl, hrest⟩ := hdone rfl
    exact ⟨hsent, hrest⟩
  unfold forwardResponseBody at h
  unfold ResponseBody at hbody
  generalize determineResponseBodyInfo parser response = info at hbody hframing h
  rcases info with ⟨framing, contentLength⟩
  cases framing with
  | none =>
    obtain ⟨-, rfl⟩ := EStateM.Result.ok.inj h
    obtain rfl : body = [] := hbody
    exact ⟨sentToClient_nil rfl, hahead⟩
  | contentLength =>
    exact hzoom ((forwardExactly_body env.fuel hbody hahead).mono (fun _ _ h => h) fun _ _ _ =>
      trivial) h
  | chunked =>
    exact hzoom ((forwardChunked_body env.fuel hbody hahead).mono (fun _ _ h => h) fun _ _ _ =>
      trivial) h
  | closeDelimited => exact absurd rfl hframing
  | tunnel => exact hbody.elim

/-- **The downstream half**, ended in Continue: the response ahead was sent, its head as the rules
leave it and its body as it is, and what follows it is ahead. -/
theorem forwardResponse_ok {parser : RequestParser} {request : RequestHeader}
    {response : ResponseParser} {head body rest : Bytes} {s t : Session η}
    (hd : Delimits env.beast.parseResponse head response)
    (hbody : ResponseBody (determineResponseBodyInfo parser response) body)
    (hclose : (determineResponseBodyInfo parser response).framing = .closeDelimited →
      response.keepAlive = false)
    (hahead : s.downLink.ahead = head ++ (body ++ rest))
    (h : forwardResponse env parser request s = .ok .continue t) :
    SentToClient s t (env.beast.serializeResponse (relayedResponse env.beast
      (ruledResponse env.ruleEngine env.ruleHttpConfig request
        ⟨s.script, response.header⟩).message) ++ body) ∧
    t.downLink.ahead = rest ∧ parser.keepAlive = true ∧ response.keepAlive = true := by
  obtain ⟨response', raw, s₁, s₂, s₃, s₄, hread, rfl, hwrite, hforward, rfl, hk, hk', -⟩ :=
    forwardResponse_continue env h
  obtain ⟨l, hl, rfl⟩ := zoom_eq_ok.mp hread
  obtain ⟨hclient, hparsed⟩ := (asyncReadHeader_delimits hd hahead env.fuel).ok hl
  obtain ⟨rfl, -, hahead₁⟩ := hparsed _ rfl
  have hframing : (determineResponseBodyInfo parser response').framing ≠ .closeDelimited := by
    intro hcd
    rw [hclose hcd] at hk'
    exact absurd hk' (by simp)
  obtain ⟨hsent₁, hahead₃⟩ := writeToClient_ok hwrite
  obtain ⟨hsent₂, hrest⟩ :=
    forwardResponseBody_ok env hbody hframing (hahead₃.trans hahead₁) hforward
  rw [text_madeFrom] at hsent₁
  have hread : SentToClient s (s.putDownLink l) [] :=
    sentToClient_nil (congrArg Socket.sent hclient)
  exact ⟨(hread.trans hsent₁).trans hsent₂, hrest, hk, hk'⟩

/-! ## Exchanges -/

/-- The bytes that a remote will send. -/
def RemotePeer.stream (peer : RemotePeer) : Bytes := peer.incoming.flatMap ReadOutcome.delivered

/-- On the connection of an exchange with `info` that starts in `s`, reused or opened with an empty
buffer, `stream` is ahead. -/
def AheadFor (info : RemoteInfo) (stream : Bytes) (s : Session η) : Prop :=
  if s.reuses info then s.downLink.ahead = stream
  else s.remoteReadBuffer = [] ∧
    ∀ dial ∈ s.dials.head?, ∀ peer, some peer ∈ dial.attempts → peer.stream = stream

/-- On the connection to `(host, port)`, the one in place or the next one to be opened, `stream` is
ahead. -/
def Awaiting (host port stream : Bytes) (s : Session η) : Prop :=
  s.remoteState = ⟨host, port, true⟩ ∧ s.remoteSock.isOpen = true ∧ s.downLink.ahead = stream ∨
  s.remoteState.connected = false ∧ s.remoteReadBuffer = [] ∧
    ∀ dial ∈ s.dials.head?, ∀ peer, some peer ∈ dial.attempts → peer.stream = stream

theorem Awaiting.aheadFor {stream : Bytes} {info : RemoteInfo} {s : Session η}
    (h : Awaiting info.host info.port stream s) : AheadFor info stream s := by
  rcases h with ⟨hstate, hopen, hahead⟩ | ⟨hlost, hempty, hpeer⟩
  · have hreuses : s.reuses info = true := by
      rw [Session.reuses, hstate, hopen]
      simp
    rw [AheadFor, if_pos hreuses]
    exact hahead
  · have hreuses : ¬ s.reuses info = true := by
      rw [Session.reuses, hlost]
      simp
    rw [AheadFor, if_neg hreuses]
    exact ⟨hempty, hpeer⟩

theorem Connects.remoteState {info : RemoteInfo} {s t : Session η} (h : Connects info s t) :
    t.remoteState = ⟨info.host, info.port, true⟩ := by
  rcases h with ⟨hreuses, rfl⟩ | ⟨-, dial, endpoints, endpoint, peer, -, -, -, rfl⟩
  · unfold Session.reuses at hreuses
    simp only [Bool.and_eq_true, decide_eq_true_eq] at hreuses
    obtain ⟨⟨⟨hconnected, -⟩, hhost⟩, hport⟩ := hreuses
    rw [← hhost, ← hport, ← hconnected]
  · rfl

theorem AheadFor.connects {stream : Bytes} {info : RemoteInfo} {s s₀ s₁ : Session η}
    (h : AheadFor info stream s) (h₀ : HeadOnly s s₀) (hc : Connects info s₀ s₁) :
    s₁.downLink.ahead = stream := by
  have h' : AheadFor info stream s₀ := by rw [h₀]; exact h
  rcases hc with ⟨hr, rfl⟩ | ⟨hr, dial, endpoints, endpoint, peer, hdial, -, hfirst, rfl⟩
  · rw [AheadFor, if_pos hr] at h'
    exact h'
  · rw [AheadFor, if_neg (by simp [hr])] at h'
    obtain ⟨hempty, hpeer⟩ := h'
    show text s₀.remoteReadBuffer ++ peer.stream = stream
    rw [hempty, hpeer dial hdial peer (mem_of_connectFirst hfirst).2]
    rfl

/-- **One exchange** that ends in Continue gives the client the first response that is ahead of it,
and what follows that response is ahead. -/
theorem handleOneExchange_takes {r : ClientRequest env} {rest stream : Bytes}
    {response : ResponseParser} {head body tail : Bytes} {s t : Session η}
    (hahead : s.upLink.ahead = r.bytes ++ rest)
    (hremote : ∀ info, parseHttpRemoteInfo env.urls r.parser.header = some info →
      AheadFor info stream s)
    (hd : Delimits env.beast.parseResponse head response)
    (hbody : ResponseBody (determineResponseBodyInfo r.parser response) body)
    (hclose : (determineResponseBodyInfo r.parser response).framing = .closeDelimited →
      response.keepAlive = false)
    (hstream : stream = head ++ (body ++ tail)) (h : handleOneExchange env s = .ok .continue t) :
    Gets env r response body s t ∧ t.downLink.ahead = tail ∧
      (∃ info, parseHttpRemoteInfo env.urls r.parser.header = some info ∧
        t.remoteState = ⟨info.host, info.port, true⟩) ∧
      r.parser.keepAlive = true ∧ response.keepAlive = true := by
  obtain ⟨parser, raw, s₀, info, s₁, request, s₂, hread, -, hinfo, hensure, hrequest, hresponse⟩ :=
    handleOneExchange_continue env h
  obtain ⟨h₀, hq⟩ := (readClientRequestHeader_request env hahead).ok hread
  obtain ⟨rfl, -⟩ := hq _ rfl
  rw [r.parseRemoteInfo] at hinfo
  have hconnects : Connects info s₀ s₁ := (ensureRemoteConnected_ends info s₀).ok hensure
  have hahead₁ := (hremote info hinfo).connects h₀ hconnects
  have hstate : s₁.remoteState = ⟨info.host, info.port, true⟩ := hconnects.remoteState
  have hup := (upstream_forwardRequest env r.parser raw info s₁).ok hrequest
  have hdown := (downstream_forwardResponse env r.parser request s₂).ok hresponse
  have hscript : s₁.script = s.script := by rw [hconnects.frame.1, h₀]
  obtain ⟨hruled, -⟩ := forwardRequest_some env hrequest
  rw [hscript] at hruled
  have hahead₂ : s₂.downLink.ahead = head ++ (body ++ tail) := by
    rw [hup.downLink_ahead, hahead₁, hstream]
  obtain ⟨hsent, htail, hk, hk'⟩ := forwardResponse_ok env hd hbody hclose hahead₂ hresponse
  have hhead : relayedHead env r.parser.header info s.script response.header
      = .ok (env.beast.serializeResponse (relayedResponse env.beast (ruledResponse env.ruleEngine
        env.ruleHttpConfig request ⟨s₂.script, response.header⟩).message)) := by
    rw [relayedHead, hruled]
    rfl
  have hclient : s₂.clientSock.sent = s.clientSock.sent := by
    rw [hup.client_sent, hconnects.frame.1, h₀]
  have hstate' : t.remoteState = ⟨info.host, info.port, true⟩ := by
    rw [hdown.remoteState, hup.remoteState, hstate]
  exact ⟨⟨info, _, hinfo, hhead, (sentToClient_nil hclient).trans hsent⟩, htail,
    ⟨info, hinfo, hstate'⟩, hk, hk'⟩

/-- The same on one server: the rest is awaited from it. -/
theorem handleOneExchange_answers {r : ClientRequest env} {host port rest stream : Bytes}
    {response : ResponseParser} {head body tail : Bytes} {s t : Session η}
    (hahead : s.upLink.ahead = r.bytes ++ rest)
    (hremote : ∀ info, parseHttpRemoteInfo env.urls r.parser.header = some info →
      info.host = host ∧ info.port = port)
    (hawaiting : Awaiting host port stream s) (hd : Delimits env.beast.parseResponse head response)
    (hbody : ResponseBody (determineResponseBodyInfo r.parser response) body)
    (hclose : (determineResponseBodyInfo r.parser response).framing = .closeDelimited →
      response.keepAlive = false)
    (hstream : stream = head ++ (body ++ tail)) (h : handleOneExchange env s = .ok .continue t) :
    Gets env r response body s t ∧ Awaiting host port tail t ∧
      r.parser.keepAlive = true ∧ response.keepAlive = true := by
  have hfor : ∀ info, parseHttpRemoteInfo env.urls r.parser.header = some info →
      AheadFor info stream s := by
    intro info hinfo
    obtain ⟨rfl, rfl⟩ := hremote info hinfo
    exact hawaiting.aheadFor
  obtain ⟨hgets, htail, ⟨info, hinfo, hstate⟩, hk⟩ :=
    handleOneExchange_takes env hahead hfor hd hbody hclose hstream h
  obtain ⟨rfl, rfl⟩ := hremote info hinfo
  exact ⟨hgets, Or.inl ⟨hstate, (connected_of_continue env h).2, htail⟩, hk⟩

/-! ## Runs -/

section Runs

variable {clientSock : Socket} {script : η} {dials : List Dial}
  {exchanges : List (AnsweredRequest env)} {host port : Bytes}

/-- One server: every request is for `(host, port)`, and whichever endpoint is connected to first
answers all of them. -/
structure OneServer (exchanges : List (AnsweredRequest env)) (host port : Bytes)
    (dials : List Dial) : Prop where
  remote : ∀ x ∈ exchanges, ∀ info,
    parseHttpRemoteInfo env.urls x.request.parser.header = some info →
      info.host = host ∧ info.port = port
  answers : ∀ dial ∈ dials.head?, ∀ peer, some peer ∈ dial.attempts →
    peer.stream = exchanges.flatMap AnsweredRequest.answer

/-- The answers that are ahead at the start of exchange `k`, and those sent to the client before. -/
structure InStep (exchanges : List (AnsweredRequest env)) (host port before : Bytes) (k : ℕ)
    (s : Session η) : Prop where
  awaiting : Awaiting host port ((exchanges.drop k).flatMap AnsweredRequest.answer) s
  answered : ∃ w, text s.clientSock.sentOctets = before ++ w ∧ Answered env (exchanges.take k) w

variable (hstream : clientSock.stream
    = (exchanges.map AnsweredRequest.request).flatMap ClientRequest.bytes)

include hstream

/-- At exchange `k`, what the client sent and the server answers is the exchange's own. -/
theorem Reached.own_exchange {k : ℕ} {s : Session η}
    (hs : Reached env (Session.new clientSock script dials) k s) (hlt : k < exchanges.length)
    (hstep : InStep env exchanges host port (text clientSock.sentOctets) k s) :
    s.upLink.ahead = exchanges[k].request.bytes
        ++ ((exchanges.map AnsweredRequest.request).drop (k + 1)).flatMap ClientRequest.bytes ∧
      Awaiting host port
        (exchanges[k].answer ++ (exchanges.drop (k + 1)).flatMap AnsweredRequest.answer) s := by
  constructor
  · have hlt' : k < (exchanges.map AnsweredRequest.request).length := by simpa using hlt
    rw [(hs.aligned env hstream).ahead, List.drop_eq_getElem_cons hlt', List.flatMap_cons,
      List.getElem_map]
  · have hawaiting := hstep.awaiting
    rw [List.drop_eq_getElem_cons hlt, List.flatMap_cons] at hawaiting
    exact hawaiting

variable (hserver : OneServer env exchanges host port dials)

include hserver

/-- An exchange that continues after an interim response has sent that one; the final response is
left for the next request. -/
theorem Reached.interim_answers {k : ℕ} {s t : Session η}
    (hs : Reached env (Session.new clientSock script dials) k s) (hlt : k < exchanges.length)
    (hstep : InStep env exchanges host port (text clientSock.sentOctets) k s)
    {i : InterimResponse env} {interims : List (InterimResponse env)}
    (hi : exchanges[k].interims = i :: interims) (hx : handleOneExchange env s = .ok .continue t) :
    Gets env exchanges[k].request i.parser [] s t ∧
      Awaiting host port (interims.flatMap (fun i => i.head) ++ (exchanges[k].final.head
        ++ (exchanges[k].final.body
          ++ (exchanges.drop (k + 1)).flatMap AnsweredRequest.answer))) t ∧
      (exchanges[k].request.parser.keepAlive && i.parser.keepAlive) = true := by
  obtain ⟨hahead, hawaiting⟩ := hs.own_exchange env hstream hlt hstep
  have hremote := hserver.remote _ (List.getElem_mem hlt)
  have hnone : (determineResponseBodyInfo exchanges[k].request.parser i.parser).framing = .none :=
    framing_interim i.interim.1 i.interim.2
  have hbody : ResponseBody
      (determineResponseBodyInfo exchanges[k].request.parser i.parser) [] := by
    rw [ResponseBody, hnone]
  have hsplit : exchanges[k].answer ++ (exchanges.drop (k + 1)).flatMap AnsweredRequest.answer
      = i.head ++ ([] ++ (interims.flatMap (fun i => i.head) ++ (exchanges[k].final.head
        ++ (exchanges[k].final.body
          ++ (exchanges.drop (k + 1)).flatMap AnsweredRequest.answer)))) := by
    simp only [AnsweredRequest.answer, hi, List.flatMap_cons, List.nil_append, List.append_assoc]
  obtain ⟨hgets, hawait, hk, hk'⟩ := handleOneExchange_answers env hahead hremote hawaiting
    i.delimits hbody (by rw [hnone]; simp) hsplit hx
  exact ⟨hgets, hawait, by rw [hk, hk']; rfl⟩

/-- An exchange whose final response comes first has sent that one. -/
theorem Reached.final_answers {k : ℕ} {s t : Session η}
    (hs : Reached env (Session.new clientSock script dials) k s) (hlt : k < exchanges.length)
    (hstep : InStep env exchanges host port (text clientSock.sentOctets) k s)
    (hfirst : exchanges[k].FinalFirst) (hx : handleOneExchange env s = .ok .continue t) :
    Gets env exchanges[k].request exchanges[k].final.parser exchanges[k].final.body s t ∧
      Awaiting host port ((exchanges.drop (k + 1)).flatMap AnsweredRequest.answer) t := by
  cases hi : exchanges[k].interims with
  | nil =>
    obtain ⟨hahead, hawaiting⟩ := hs.own_exchange env hstream hlt hstep
    obtain ⟨hgets, hawait, -⟩ := handleOneExchange_answers env hahead
      (hserver.remote _ (List.getElem_mem hlt)) hawaiting
      exchanges[k].final.delimits exchanges[k].final.framed exchanges[k].final.closes
      (by rw [AnsweredRequest.answer, hi, List.flatMap_nil, List.nil_append, List.append_assoc]) hx
    exact ⟨hgets, hawait⟩
  | cons i interims =>
    obtain ⟨-, -, hkeep⟩ := hs.interim_answers env hstream hserver hlt hstep hi hx
    have hno := hfirst i (by rw [hi]; rfl)
    rw [hkeep] at hno
    exact absurd hno (by simp)

/-- **In step.**  As long as final responses come first, answers stay in step with requests. -/
theorem Reached.inStep {k : ℕ} {s : Session η}
    (hs : Reached env (Session.new clientSock script dials) k s)
    (hfirst : ∀ x ∈ exchanges.take k, x.FinalFirst) :
    InStep env exchanges host port (text clientSock.sentOctets) k s := by
  induction hs with
  | start =>
    exact ⟨Or.inr ⟨rfl, rfl, hserver.answers⟩, [], (List.append_nil _).symm, Answered.nil⟩
  | @next k s t hs hx ih =>
    have hlt : k < exchanges.length := by
      have hle := ((hs.next hx).aligned env hstream).le
      rw [List.length_map] at hle
      omega
    have htake : exchanges.take (k + 1) = exchanges.take k ++ [exchanges[k]] :=
      List.take_succ_eq_append_getElem hlt
    rw [htake] at hfirst
    have hstep := ih fun x hx => hfirst x (List.mem_append_left _ hx)
    obtain ⟨⟨info, head, hinfo, hhead, hsent⟩, hawait⟩ := hs.final_answers env hstream hserver hlt
      hstep (hfirst _ (List.mem_append_right _ List.mem_cons_self)) hx
    obtain ⟨w, hw, hanswered⟩ := hstep.answered
    refine ⟨hawait, _, ?_, htake ▸ Answered.snoc hanswered hinfo hhead⟩
    rw [hsent, hw, List.append_assoc]

end Runs

/-- **Response attribution.**  Let the client stream be a concatenation of requests for one server
that answers each with interim responses and a final one, all read in any pieces.  In every run in
which the answers before exchange `k` start with their final response, or do not let their exchange
continue, the client has got the final responses to its first `k` requests, in order.  If exchange
`k` continues and its own answer is such a one, the client gets the final response to request `k`;
if an interim response comes first, the client gets that, and the final response is ahead of the
next exchange. -/
theorem responses_attributed (clientSock : Socket) (script : η) (dials : List Dial)
    (exchanges : List (AnsweredRequest env)) (host port : Bytes)
    (hstream : clientSock.stream
      = (exchanges.map AnsweredRequest.request).flatMap ClientRequest.bytes)
    (hserver : OneServer env exchanges host port dials) {k : ℕ} {s : Session η}
    (hs : Reached env (Session.new clientSock script dials) k s)
    (hfirst : ∀ x ∈ exchanges.take k, x.FinalFirst) :
    (∃ w, text s.clientSock.sentOctets = text clientSock.sentOctets ++ w ∧
      Answered env (exchanges.take k) w) ∧
    ∀ x t, exchanges[k]? = some x → handleOneExchange env s = .ok .continue t →
      (x.FinalFirst → Gets env x.request x.final.parser x.final.body s t) ∧
      ∀ i interims, x.interims = i :: interims →
        Gets env x.request i.parser [] s t ∧
        t.downLink.ahead = interims.flatMap (fun i => i.head) ++ (x.final.head ++ (x.final.body
          ++ (exchanges.drop (k + 1)).flatMap AnsweredRequest.answer)) := by
  have hstep := hs.inStep env hstream hserver hfirst
  refine ⟨hstep.answered, fun x t hget hx => ?_⟩
  obtain ⟨hlt, rfl⟩ := List.getElem?_eq_some_iff.mp hget
  refine ⟨fun h => (hs.final_answers env hstream hserver hlt hstep h hx).1, fun i interims hi => ?_⟩
  obtain ⟨hgets, hawait, -⟩ := hs.interim_answers env hstream hserver hlt hstep hi hx
  refine ⟨hgets, ?_⟩
  rcases hawait with ⟨-, -, hahead⟩ | ⟨hlost, -⟩
  · exact hahead
  · rw [(connected_of_continue env hx).1] at hlost
    exact absurd hlost (by simp)

/-! ### Two servers -/

/-- An interim response, which keeps the connection alive. -/
def continue100 : Bytes × ResponseParser :=
  (ascii "HTTP/1.1 100 Continue\r\n\r\n",
    ⟨⟨11, 100, ascii "Continue", []⟩, false, none, true⟩)

/-- The response without content as the final one. -/
def finalOk : FinalResponse (Env.ofHosts [ascii "a"] [emptyOk, continue100])
    (getOf (ascii "a")).2 where
  parser := emptyOk.2
  head := emptyOk.1
  delimits := @HeadTable.delimits _ [emptyOk, continue100] _ _ List.mem_cons_self (by decide)
  body := []
  final := by decide
  framed := rfl
  closes := by decide

def interim100 : InterimResponse (Env.ofHosts [ascii "a"] [emptyOk, continue100]) where
  parser := continue100.2
  head := continue100.1
  delimits := @HeadTable.delimits _ [emptyOk, continue100] _ _
    (List.mem_cons_of_mem _ List.mem_cons_self) (by decide)
  interim := by decide
  notSwitching := by decide

theorem oneServer_ofReads {exchanges : List (AnsweredRequest env)} {host port : Bytes}
    {reads : List Bytes}
    (hremote : ∀ x ∈ exchanges, ∀ info,
      parseHttpRemoteInfo env.urls x.request.parser.header = some info →
        info.host = host ∧ info.port = port)
    (hreads : reads.flatten = exchanges.flatMap AnsweredRequest.answer) :
    OneServer env exchanges host port [Dial.ofReads reads] := by
  refine ⟨hremote, fun dial hdial peer hpeer => ?_⟩
  obtain rfl := Option.some.inj hdial
  obtain rfl := Option.some.inj (List.mem_singleton.mp hpeer)
  rw [← hreads, RemotePeer.stream, List.flatMap_map]
  exact List.flatMap_id

theorem remote_requestToA {info : RemoteInfo} (h : parseHttpRemoteInfo
    (Env.ofHosts [ascii "a"] [emptyOk, continue100]).urls
    (requestToA [emptyOk, continue100]).parser.header = some info) :
    info = ⟨ascii "http", ascii "a", ascii "80", ascii "/"⟩ := by
  have hinfo : parseHttpRemoteInfo (Env.ofHosts [ascii "a"] [emptyOk, continue100]).urls
      (requestToA [emptyOk, continue100]).parser.header
      = some ⟨ascii "http", ascii "a", ascii "80", ascii "/"⟩ := by decide
  rw [hinfo] at h
  exact (Option.some.inj h).symm

/-- Two requests, each answered with a final response. -/
theorem responses_attributed_final : ∃ s w,
    Reached (Env.ofHosts [ascii "a"] [emptyOk, continue100]) (Session.ofReads
      [(getOf (ascii "a")).1, (getOf (ascii "a")).1] [[emptyOk.1, emptyOk.1]]) 1 s ∧
    text s.clientSock.sentOctets = [] ++ w ∧
    Answered (Env.ofHosts [ascii "a"] [emptyOk, continue100])
      [⟨requestToA [emptyOk, continue100], [], finalOk⟩] w := by
  obtain ⟨s, hs⟩ : ∃ s, Reached (Env.ofHosts [ascii "a"] [emptyOk, continue100]) (Session.ofReads
      [(getOf (ascii "a")).1, (getOf (ascii "a")).1] [[emptyOk.1, emptyOk.1]]) 1 s :=
    ⟨_, Reached.start.next_stateOf (by decide +kernel)⟩
  have hremote : ∀ x ∈ [(⟨requestToA [emptyOk, continue100], [], finalOk⟩ : AnsweredRequest _),
      ⟨requestToA [emptyOk, continue100], [], finalOk⟩], ∀ info,
      parseHttpRemoteInfo (Env.ofHosts [ascii "a"] [emptyOk, continue100]).urls
        x.request.parser.header = some info → info.host = ascii "a" ∧ info.port = ascii "80" := by
    intro x hx info hinfo
    obtain rfl : x = ⟨requestToA [emptyOk, continue100], [], finalOk⟩ := by simpa using hx
    rw [remote_requestToA hinfo]
    exact ⟨rfl, rfl⟩
  obtain ⟨⟨w, hw, hanswered⟩, -⟩ := responses_attributed
    (Env.ofHosts [ascii "a"] [emptyOk, continue100])
    (scriptedSocket 0 [⟨none, (getOf (ascii "a")).1⟩, ⟨none, (getOf (ascii "a")).1⟩]) []
    [Dial.ofReads [emptyOk.1, emptyOk.1]] _ (ascii "a") (ascii "80") (by decide)
    (oneServer_ofReads _ hremote (by decide)) hs (by simp [AnsweredRequest.FinalFirst])
  exact ⟨s, w, hs, hw, hanswered⟩

/-- A request answered with `100` and `200`: the exchange continues, and the client has `100`. -/
theorem interim_shifts_responses : ¬ ∀ (env : Env (List (Except Error Bool))) (clientSock : Socket)
    (script : List (Except Error Bool)) (dials : List Dial)
    (exchanges : List (AnsweredRequest env)) (host port : Bytes),
    clientSock.stream = (exchanges.map AnsweredRequest.request).flatMap ClientRequest.bytes →
    OneServer env exchanges host port dials →
    ∀ k s x t, Reached env (Session.new clientSock script dials) k s → exchanges[k]? = some x →
      handleOneExchange env s = .ok .continue t →
        Gets env x.request x.final.parser x.final.body s t := by
  intro h
  obtain ⟨t, hx, hbytes⟩ : ∃ t, handleOneExchange (Env.ofHosts [ascii "a"] [emptyOk, continue100])
      (Session.ofReads [(getOf (ascii "a")).1] [[continue100.1 ++ emptyOk.1]])
        = .ok .continue t ∧ text t.clientSock.sentOctets = continue100.1 := by
    have hrun : (returned (handleOneExchange (Env.ofHosts [ascii "a"] [emptyOk, continue100])
        (Session.ofReads [(getOf (ascii "a")).1] [[continue100.1 ++ emptyOk.1]]))).map
          (fun p => (p.1, text p.2.clientSock.sentOctets)) = some (.continue, continue100.1) := by
      decide +kernel
    obtain ⟨⟨r, t⟩, hr, hp⟩ := Option.map_eq_some_iff.mp hrun
    obtain ⟨rfl, hbytes⟩ := Prod.mk.inj hp
    exact ⟨t, returned_eq_some.mp hr, hbytes⟩
  have hremote : ∀ x ∈ [(⟨requestToA [emptyOk, continue100], [interim100], finalOk⟩ :
      AnsweredRequest _)], ∀ info,
      parseHttpRemoteInfo (Env.ofHosts [ascii "a"] [emptyOk, continue100]).urls
        x.request.parser.header = some info → info.host = ascii "a" ∧ info.port = ascii "80" := by
    intro x hx info hinfo
    obtain rfl := List.mem_singleton.mp hx
    rw [remote_requestToA hinfo]
    exact ⟨rfl, rfl⟩
  obtain ⟨info, head, hinfo, hhead, hsent⟩ := h (Env.ofHosts [ascii "a"] [emptyOk, continue100])
    (scriptedSocket 0 [⟨none, (getOf (ascii "a")).1⟩]) []
    [Dial.ofReads [continue100.1 ++ emptyOk.1]] _ (ascii "a") (ascii "80") (by decide)
    (oneServer_ofReads _ hremote (by decide)) 0 _ _ t Reached.start rfl hx
  obtain rfl := remote_requestToA hinfo
  have hok : relayedHead (Env.ofHosts [ascii "a"] [emptyOk, continue100])
      (requestToA [emptyOk, continue100]).parser.header
      ⟨ascii "http", ascii "a", ascii "80", ascii "/"⟩ [] finalOk.parser.header
      = .ok emptyOk.1 := by decide
  obtain rfl := Except.ok.inj (hok.symm.trans hhead)
  rw [SentToClient, hbytes] at hsent
  exact absurd hsent (by decide)

end ProxyPP.Http
