import ProxyPP.Http.Attribution
import ProxyPP.Http.Conservation

/-!
# ProxyPP.Http.Containment — an exchange that fails

An exchange that is not a CONNECT can fail at nine steps (`FailsAt`); at each of them it ends in
Close at once, so the session is closed in the state the step left it in (`FailsAt.close`,
`Reached.run_close`).  What the client got of such an exchange is a part of one response
(`Unfinished`); what it got of the exchanges before are whole responses (`Completed`).  So a
response that is cut short is the last thing the client gets (`failures_contained`).
-/

namespace ProxyPP.Http

open ProxyPP ProxyPP.Lib ProxyPP.Rules

variable {η : Type} (env : Env η)

/-! ## Steps that fail -/

inductive ExchangeStep
  | headerRead
  | targetParsing
  | resolve
  | connect
  | headerWrite
  | requestBody
  | responseHeaderRead
  | responseHeaderWrite
  | responseBody
  deriving DecidableEq, Repr

/-- The exchange that starts in `s` has read its request, not a CONNECT. -/
def GetsRequest (s : Session η) (parser : RequestParser) (raw : List Octet) (t : Session η) :
    Prop :=
  readClientRequestHeader env s = .ok (some (parser, raw)) t ∧ isConnect parser.header = false

/-- It has a connection to the remote of its request. -/
def GetsRemote (s : Session η) (parser : RequestParser) (raw : List Octet) (info : RemoteInfo)
    (t : Session η) : Prop :=
  ∃ s₁, GetsRequest env s parser raw s₁ ∧ parseRemoteInfo env.urls parser.header = some info ∧
    ensureRemoteConnected info s₁ = .ok true t

/-- It has sent its request. -/
def SendsRequest (s : Session η) (parser : RequestParser) (request : RequestHeader)
    (t : Session η) : Prop :=
  ∃ raw info s₂, GetsRemote env s parser raw info s₂ ∧
    forwardRequest env parser raw info s₂ = .ok (some request) t

/-- The exchange that starts in `s` fails at a step, which leaves the session in `u`. -/
inductive FailsAt (s : Session η) : ExchangeStep → Session η → Prop
  | headerRead {u : Session η} : readClientRequestHeader env s = .ok none u →
      FailsAt s .headerRead u
  | targetParsing {parser : RequestParser} {raw : List Octet} {u : Session η} :
      GetsRequest env s parser raw u → parseRemoteInfo env.urls parser.header = none →
      FailsAt s .targetParsing u
  | resolve {parser : RequestParser} {raw : List Octet} {info : RemoteInfo} {s₁ s₂ u : Session η} :
      GetsRequest env s parser raw s₁ → parseRemoteInfo env.urls parser.header = some info →
      s₁.reuses info = false → closeRemote s₁ = .ok ⟨⟩ s₂ → resolveRemote info s₂ = .ok none u →
      FailsAt s .resolve u
  | connect {parser : RequestParser} {raw : List Octet} {info : RemoteInfo}
      {endpoints : List Endpoint} {s₁ s₂ s₃ u : Session η} :
      GetsRequest env s parser raw s₁ → parseRemoteInfo env.urls parser.header = some info →
      s₁.reuses info = false → closeRemote s₁ = .ok ⟨⟩ s₂ →
      resolveRemote info s₂ = .ok (some endpoints) s₃ → connectRemote endpoints s₃ = .ok false u →
      FailsAt s .connect u
  | headerWrite {parser : RequestParser} {raw : List Octet} {info : RemoteInfo}
      {built header : RequestHeader} {s₂ s₃ u : Session η} :
      GetsRemote env s parser raw info s₂ →
      buildRemoteRequestHeader env.beast parser.header info = .ok built →
      applyRequestRules env built s₂ = .ok header s₃ →
      writeRemoteRequestHeader env raw header s₃ = .ok false u → FailsAt s .headerWrite u
  | requestBody {parser : RequestParser} {raw : List Octet} {info : RemoteInfo}
      {built header : RequestHeader} {s₂ s₃ s₄ u : Session η} :
      GetsRemote env s parser raw info s₂ →
      buildRemoteRequestHeader env.beast parser.header info = .ok built →
      applyRequestRules env built s₂ = .ok header s₃ →
      writeRemoteRequestHeader env raw header s₃ = .ok true s₄ →
      forwardRequestBody env parser s₄ = .ok false u → FailsAt s .requestBody u
  | responseHeaderRead {parser : RequestParser} {request : RequestHeader} {s₃ u : Session η} :
      SendsRequest env s parser request s₃ → readRemoteResponseHeader env s₃ = .ok none u →
      FailsAt s .responseHeaderRead u
  | responseHeaderWrite {parser : RequestParser} {request : RequestHeader}
      {response : ResponseParser} {raw : List Octet} {header : ResponseHeader}
      {s₃ s₄ s₅ u : Session η} :
      SendsRequest env s parser request s₃ →
      readRemoteResponseHeader env s₃ = .ok (some (response, raw)) s₄ →
      applyResponseRules env request response.header s₄ = .ok header s₅ →
      writeRemoteResponseHeaderToClient env raw header s₅ = .ok false u →
      FailsAt s .responseHeaderWrite u
  | responseBody {parser : RequestParser} {request : RequestHeader}
      {response : ResponseParser} {raw : List Octet} {header : ResponseHeader}
      {s₃ s₄ s₅ s₆ u : Session η} :
      SendsRequest env s parser request s₃ →
      readRemoteResponseHeader env s₃ = .ok (some (response, raw)) s₄ →
      applyResponseRules env request response.header s₄ = .ok header s₅ →
      writeRemoteResponseHeaderToClient env raw header s₅ = .ok true s₆ →
      forwardResponseBody env parser response s₆ = .ok false u → FailsAt s .responseBody u

section Steps

variable {env} {s s₂ u : Session η} {info : RemoteInfo}

theorem ensureRemoteConnected_none (hreuses : s.reuses info = false)
    (hclose : closeRemote s = .ok ⟨⟩ s₂) (hresolve : resolveRemote info s₂ = .ok none u) :
    ensureRemoteConnected info s = .ok false u := by
  rw [ensureRemoteConnected, bind_ok (get_run s), if_neg (by rw [hreuses]; simp), bind_ok hclose,
    bind_ok hresolve]
  rfl

theorem ensureRemoteConnected_unconnected {endpoints : List Endpoint} {s₃ : Session η}
    (hreuses : s.reuses info = false) (hclose : closeRemote s = .ok ⟨⟩ s₂)
    (hresolve : resolveRemote info s₂ = .ok (some endpoints) s₃)
    (hconnect : connectRemote endpoints s₃ = .ok false u) :
    ensureRemoteConnected info s = .ok false u := by
  rw [ensureRemoteConnected, bind_ok (get_run s), if_neg (by rw [hreuses]; simp), bind_ok hclose,
    bind_ok hresolve]
  exact bind_ok hconnect

variable {parser : RequestParser} {raw : List Octet} {built header : RequestHeader}
  {s₃ s₄ : Session η}

theorem forwardRequest_unwritten
    (hbuild : buildRemoteRequestHeader env.beast parser.header info = .ok built)
    (hrules : applyRequestRules env built s₂ = .ok header s₃)
    (hwrite : writeRemoteRequestHeader env raw header s₃ = .ok false u) :
    forwardRequest env parser raw info s₂ = .ok none u := by
  rw [forwardRequest, hbuild]
  exact (bind_ok (pure_run _ _)).trans ((bind_ok hrules).trans (bind_ok hwrite))

theorem forwardRequest_cut
    (hbuild : buildRemoteRequestHeader env.beast parser.header info = .ok built)
    (hrules : applyRequestRules env built s₂ = .ok header s₃)
    (hwrite : writeRemoteRequestHeader env raw header s₃ = .ok true s₄)
    (hbody : forwardRequestBody env parser s₄ = .ok false u) :
    forwardRequest env parser raw info s₂ = .ok none u := by
  rw [forwardRequest, hbuild]
  exact (bind_ok (pure_run _ _)).trans
    ((bind_ok hrules).trans ((bind_ok hwrite).trans (bind_ok hbody)))

end Steps

section Fails

variable {env} {s u : Session η}

/-- Behind the request, the exchange is its HTTP half. -/
theorem GetsRequest.exchange {parser : RequestParser} {raw : List Octet} {t : Session η}
    (h : GetsRequest env s parser raw t) :
    handleOneExchange env s = handleHttpExchange env parser raw t := by
  obtain ⟨hread, hhttp⟩ := h
  rw [handleOneExchange, bind_ok hread]
  simp only [hhttp]
  rfl

theorem GetsRequest.unconnected {parser : RequestParser} {raw : List Octet} {info : RemoteInfo}
    {t : Session η} (h : GetsRequest env s parser raw t)
    (hinfo : parseRemoteInfo env.urls parser.header = some info)
    (hensure : ensureRemoteConnected info t = .ok false u) :
    handleOneExchange env s = .ok .close u := by
  rw [h.exchange, handleHttpExchange, hinfo]
  exact bind_ok hensure

theorem GetsRemote.unsent {parser : RequestParser} {raw : List Octet} {info : RemoteInfo}
    {t : Session η} (h : GetsRemote env s parser raw info t)
    (hrequest : forwardRequest env parser raw info t = .ok none u) :
    handleOneExchange env s = .ok .close u := by
  obtain ⟨s₁, hgets, hinfo, hensure⟩ := h
  rw [hgets.exchange, handleHttpExchange, hinfo]
  exact (bind_ok hensure).trans (bind_ok hrequest)

theorem SendsRequest.exchange {parser : RequestParser} {request : RequestHeader}
    (h : SendsRequest env s parser request u) :
    handleOneExchange env s = forwardResponse env parser request u := by
  obtain ⟨raw, info, s₂, ⟨s₁, hgets, hinfo, hensure⟩, hrequest⟩ := h
  rw [hgets.exchange, handleHttpExchange, hinfo]
  exact (bind_ok hensure).trans (bind_ok hrequest)

/-- **A step that fails ends the exchange in Close**, in the state the step leaves. -/
theorem FailsAt.close {step : ExchangeStep} (h : FailsAt env s step u) :
    handleOneExchange env s = .ok .close u := by
  cases h with
  | headerRead hread =>
    rw [handleOneExchange, bind_ok hread]
    rfl
  | targetParsing hgets hinfo =>
    rw [hgets.exchange, handleHttpExchange, hinfo]
    rfl
  | resolve hgets hinfo hreuses hclose hresolve =>
    exact hgets.unconnected hinfo (ensureRemoteConnected_none hreuses hclose hresolve)
  | connect hgets hinfo hreuses hclose hresolve hconnect =>
    exact hgets.unconnected hinfo
      (ensureRemoteConnected_unconnected hreuses hclose hresolve hconnect)
  | headerWrite hremote hbuild hrules hwrite =>
    exact hremote.unsent (forwardRequest_unwritten hbuild hrules hwrite)
  | requestBody hremote hbuild hrules hwrite hbody =>
    exact hremote.unsent (forwardRequest_cut hbuild hrules hwrite hbody)
  | responseHeaderRead hsends hread =>
    rw [hsends.exchange, forwardResponse, bind_ok hread]
    rfl
  | responseHeaderWrite hsends hread hrules hwrite =>
    rw [hsends.exchange, forwardResponse, bind_ok hread]
    exact (bind_ok hrules).trans (bind_ok hwrite)
  | responseBody hsends hread hrules hwrite hbody =>
    rw [hsends.exchange, forwardResponse, bind_ok hread]
    exact (bind_ok hrules).trans ((bind_ok hwrite).trans (bind_ok hbody))

end Fails

/-! ## What the client gets of an exchange -/

/-- What is ahead up to the EOF of the source. -/
def Link.aheadToEof (l : Link) : Bytes := text l.readBuffer ++ upToEof l.fromPeer.incoming

/-- The bytes are a forwarded body of a response with this framing, whose remote sends `toEof`
before it closes.  The two bytes behind the data of a chunk are forwarded as they are. -/
def WholeBody (info : ResponseBodyInfo) (toEof body : Bytes) : Prop :=
  match info.framing with
  | .none => body = []
  | .contentLength => body.length = info.contentLength.toNat
  | .chunked => ∃ ts, Framed maxChunkSize ts body
  | .closeDelimited => body = toEof
  | .tunnel => False

/-- The bytes are a front of such a body. -/
def PartialBody (info : ResponseBodyInfo) (toEof body : Bytes) : Prop :=
  match info.framing with
  | .none => body = []
  | .contentLength => body.length ≤ info.contentLength.toNat
  | .chunked => ∃ ts p, Framed (2 ^ 64) ts (body ++ p)
  | .closeDelimited => body <+: toEof
  | .tunnel => body = []

/-- The exchange that starts in `s` got a response from its remote.  Its head goes to the client as
`head`, its body is delimited as `info` says, `stream` is what the remote sends behind the head, and
`toEof` what of it comes before the remote closes. -/
def Relays (s : Session η) (info : ResponseBodyInfo) (head stream toEof : Bytes) : Prop :=
  ∃ parser request s₃ response raw s₄, SendsRequest env s parser request s₃ ∧
    readRemoteResponseHeader env s₃ = .ok (some (response, raw)) s₄ ∧
    info = determineResponseBodyInfo parser response ∧
    head = env.beast.serializeResponse (relayedResponse env.beast
      (ruledResponse env.ruleEngine env.ruleHttpConfig request
        ⟨s₄.script, response.header⟩).message) ∧
    stream = s₄.downLink.ahead ∧ toEof = s₄.downLink.aheadToEof

/-- `w` is the response of the exchange, head and body. -/
def Finished (s : Session η) (w : Bytes) : Prop :=
  ∃ info head stream toEof body, Relays env s info head stream toEof ∧ WholeBody info toEof body ∧
    body <+: stream ∧ w = head ++ body

/-- `w` is a front of the response of the exchange, if it got one: of its head, or the head and a
front of the body. -/
def Unfinished (s : Session η) (w : Bytes) : Prop :=
  w = [] ∨ ∃ info head stream toEof body, Relays env s info head stream toEof ∧
    PartialBody info toEof body ∧ body <+: stream ∧ (w <+: head ∨ w = head ++ body)

theorem partialBody_nil (info : ResponseBodyInfo) (toEof : Bytes) : PartialBody info toEof [] := by
  rcases info with ⟨framing, contentLength⟩
  cases framing with
  | none | tunnel => rfl
  | contentLength => exact Nat.zero_le _
  | chunked => exact ⟨[], _, framed_nil _⟩
  | closeDelimited => exact List.nil_prefix

section Body

variable {env} {s : Session η}

/-- The same bytes are ahead. -/
def SameAhead (l t : Link) : Prop := t.ahead = l.ahead ∧ t.aheadToEof = l.aheadToEof

theorem writeToClient_ends (octets : List Octet) (s : Session η) : Ends (writeToClient octets) s
    (fun ok t => SameAhead s.downLink t.downLink ∧ ∃ w, SentToClient s t w ∧
      w <+: text octets ∧ (ok = true → w = text octets)) fun _ _ => False := by
  refine Ends.bind (P := fun r t => SameAhead s.downLink t.downLink ∧
    ∃ w, SentToClient s t w ∧ w <+: text octets ∧ (r.1 = false → w = text octets))
    (ends_zoom ((asyncWrite_text octets s.clientSock _).mono ?_ fun _ _ h => h)) ?_
  · rintro r s' ⟨-, w, hsent, hpre, hall⟩
    exact ⟨⟨rfl, rfl⟩, w, hsent, hpre, hall⟩
  · rintro ⟨ec, n⟩ t ⟨hahead, w, hsent, hpre, hall⟩
    refine ends_pure ⟨hahead, w, hsent, hpre, fun h => hall ?_⟩
    simpa using h

/-- What a forwarding function sent to the client, with `W` of it if it succeeded and else `V`. -/
theorem onDownLink_sent {m : EStateM Stop Link Bool} {P : List Octet → Link → Prop}
    {F : List Octet → Prop} {s : Session η}
    (h : Ends m s.downLink (Forwarded s.downLink P F) (Suspended s.downLink F))
    {W V : Bytes → Prop} (hP : ∀ tx l, P tx l → W (text tx)) (hF : ∀ tx, F tx → V (text tx)) :
    Ends (onDownLink m) s
      (fun ok t => ∃ body, SentToClient s t body ∧ body <+: s.downLink.ahead ∧
        if ok then W body else V body)
      (fun _ t => ∃ body, SentToClient s t body ∧ body <+: s.downLink.ahead ∧ V body) := by
  have hcut : ∀ {l' tx rx}, Cut s.downLink l' tx rx →
      SentToClient s (s.putDownLink l') (text tx) ∧ text tx <+: s.downLink.ahead := by
    intro l' tx rx hc
    refine ⟨?_, hc.ahead⟩
    show text l'.targetPeer.sentOctets = text s.downLink.targetPeer.sentOctets ++ text tx
    rw [hc.sentOctets, text_append]
  refine ends_zoom (h.mono ?_ ?_)
  · rintro ok l' ⟨tx, rx, hl'⟩
    cases ok with
    | false => exact ⟨text tx, (hcut hl'.1).1, (hcut hl'.1).2, hF tx hl'.2⟩
    | true => exact ⟨text tx, (hcut hl'.1.cut).1, (hcut hl'.1.cut).2, hP tx l' hl'.2⟩
  · rintro e l' ⟨-, tx, rx, hm, hFtx⟩
    exact ⟨text tx, (hcut hm.cut).1, (hcut hm.cut).2, hF tx hFtx⟩

/-- `ForwardUntilEof` in terms of what it sent: all that comes before the EOF, or a front of it. -/
theorem forwardUntilEof_forwarded (fuel : ℕ) (l : Link) : Ends (forwardUntilEof fuel) l
    (Forwarded l (fun tx _ => text tx = l.aheadToEof) fun tx => text tx <+: l.aheadToEof)
    (Suspended l fun tx => text tx <+: l.aheadToEof) := by
  have hwithin : ∀ {t : Link} {tx rx}, Transfer l t tx rx → SentWithinEof l t →
      text tx <+: l.aheadToEof := by
    intro t tx rx h ht
    unfold SentWithinEof at ht
    rwa [h.sentOctets, text_append, List.append_assoc, List.prefix_append_right_inj] at ht
  refine ((forwardUntilEof_ends fuel l).and (forwardUntilEof_complete fuel l)).mono ?_ ?_
  · rintro ok t ⟨⟨tx, rx, ht⟩, hall, hfront⟩
    refine ⟨tx, rx, ?_⟩
    cases ok with
    | false => exact ⟨ht.1, hwithin ht.1.toTransfer hfront⟩
    | true =>
      have hsent := hall rfl
      unfold SentToEof at hsent
      rw [ht.1.sentOctets, text_append, List.append_assoc] at hsent
      exact ⟨ht.1, List.append_cancel_left hsent⟩
  · rintro e t ⟨⟨he, tx, rx, hm, -⟩, hfront⟩
    exact ⟨he, tx, rx, hm, hwithin hm.toTransfer hfront⟩

theorem forwardResponseBody_sent (parser : RequestParser) (response : ResponseParser)
    (s : Session η) : Ends (forwardResponseBody env parser response) s
      (fun ok t => ∃ body, SentToClient s t body ∧ body <+: s.downLink.ahead ∧
        if ok then
          WholeBody (determineResponseBodyInfo parser response) s.downLink.aheadToEof body
        else PartialBody (determineResponseBodyInfo parser response) s.downLink.aheadToEof body)
      (fun _ t => ∃ body, SentToClient s t body ∧ body <+: s.downLink.ahead ∧
        PartialBody (determineResponseBodyInfo parser response) s.downLink.aheadToEof body) := by
  unfold forwardResponseBody
  generalize determineResponseBodyInfo parser response = info
  rcases info with ⟨framing, contentLength⟩
  cases framing with
  | none => exact ends_pure ⟨[], sentToClient_nil rfl, List.nil_prefix, rfl⟩
  | contentLength =>
    refine onDownLink_sent (forwardExactly_ends env.fuel contentLength _) ?_ ?_
    · intro tx l h
      exact (length_text tx).trans h
    · intro tx h
      exact (length_text tx).trans_le h
  | chunked =>
    exact onDownLink_sent (forwardChunked_ends env.fuel _) (fun _ _ h => h) (fun _ h => h)
  | closeDelimited =>
    exact onDownLink_sent (forwardUntilEof_forwarded env.fuel _) (fun _ _ h => h) fun _ h => h
  | tunnel => exact ends_pure ⟨[], sentToClient_nil rfl, List.nil_prefix, rfl⟩

/-- Reading the head of a response sends nothing. -/
theorem readRemoteResponseHeader_client (s : Session η) : Ends (readRemoteResponseHeader env) s
    (fun _ t => SentToClient s t []) fun _ t => SentToClient s t [] := by
  have hsock : ∀ {l : Link}, l.targetPeer = s.downLink.targetPeer →
      SentToClient s (s.putDownLink l) [] := fun h => sentToClient_nil (congrArg Socket.sent h)
  refine ends_zoom ((asyncReadHeader_ends env.fuel s.downLink).mono ?_ ?_)
  · rintro (_ | ⟨value, raw⟩) l ⟨rx, h⟩
    · exact hsock h.target
    · exact hsock h.target
  · rintro e l ⟨-, rx, h⟩
    exact hsock h.target

end Body

/-! ## What the client gets of an exchange that fails -/

theorem SentToClient.of_sent {s t : Session η} (h : t.clientSock.sent = s.clientSock.sent)
    {u : Session η} (h' : SentToClient u s []) : SentToClient u t [] :=
  h'.trans (sentToClient_nil h)

section Sent

variable {env} {s u : Session η}

theorem GetsRequest.client {parser : RequestParser} {raw : List Octet}
    (h : GetsRequest env s parser raw u) : SentToClient s u [] := by
  obtain ⟨-, hu⟩ := (readClientRequestHeader_ends env s).ok h.1
  exact sentToClient_nil (by rw [hu])

theorem GetsRequest.unconnected_client {parser : RequestParser} {raw : List Octet}
    {info : RemoteInfo} {s₁ : Session η} (h : GetsRequest env s parser raw s₁)
    (hensure : ensureRemoteConnected info s₁ = .ok false u) : SentToClient s u [] := by
  have hloses : Loses s₁ u := (ensureRemoteConnected_ends info s₁).ok hensure
  exact h.client.of_sent (by rw [hloses])

theorem GetsRemote.client {parser : RequestParser} {raw : List Octet} {info : RemoteInfo}
    (h : GetsRemote env s parser raw info u) : SentToClient s u [] := by
  obtain ⟨s₁, hgets, -, hensure⟩ := h
  have hconnects : Connects info s₁ u := (ensureRemoteConnected_ends info s₁).ok hensure
  exact hgets.client.of_sent (by rw [hconnects.frame.1])

/-- However far the upstream half gets. -/
theorem GetsRemote.upstream_client {parser : RequestParser} {raw : List Octet} {info : RemoteInfo}
    {s₂ : Session η} (h : GetsRemote env s parser raw info s₂) (hup : Upstream s₂ u) :
    SentToClient s u [] :=
  h.client.of_sent hup.client_sent

theorem SendsRequest.client {parser : RequestParser} {request : RequestHeader}
    (h : SendsRequest env s parser request u) : SentToClient s u [] := by
  obtain ⟨raw, info, s₂, hremote, hrequest⟩ := h
  exact hremote.upstream_client ((upstream_forwardRequest env parser raw info s₂).ok hrequest)

/-- The response that the exchange got. -/
theorem SendsRequest.relays {parser : RequestParser} {request : RequestHeader}
    {response : ResponseParser} {raw : List Octet} {s₃ s₄ : Session η}
    (h : SendsRequest env s parser request s₃)
    (hread : readRemoteResponseHeader env s₃ = .ok (some (response, raw)) s₄) :
    Relays env s (determineResponseBodyInfo parser response)
      (env.beast.serializeResponse (relayedResponse env.beast
        (ruledResponse env.ruleEngine env.ruleHttpConfig request
          ⟨s₄.script, response.header⟩).message)) s₄.downLink.ahead s₄.downLink.aheadToEof :=
  ⟨parser, request, s₃, response, raw, s₄, h, hread, rfl, rfl, rfl, rfl⟩

theorem SendsRequest.read_client {parser : RequestParser} {request : RequestHeader}
    {s₃ : Session η} {r : Option (ResponseParser × List Octet)}
    (h : SendsRequest env s parser request s₃)
    (hread : readRemoteResponseHeader env s₃ = .ok r u) : SentToClient s u [] :=
  h.client.trans ((readRemoteResponseHeader_client s₃).ok hread)

/-- **A step that fails cuts the response off**, if there is one. -/
theorem FailsAt.sent {step : ExchangeStep} (h : FailsAt env s step u) :
    ∃ w, SentToClient s u w ∧ Unfinished env s w := by
  have hnone : SentToClient s u [] → ∃ w, SentToClient s u w ∧ Unfinished env s w :=
    fun h => ⟨[], h, Or.inl rfl⟩
  cases h with
  | headerRead hread =>
    obtain ⟨-, hu⟩ := (readClientRequestHeader_ends env s).ok hread
    exact hnone (sentToClient_nil (by rw [hu]))
  | targetParsing hgets hinfo => exact hnone hgets.client
  | resolve hgets hinfo hreuses hclose hresolve =>
    exact hnone (hgets.unconnected_client (ensureRemoteConnected_none hreuses hclose hresolve))
  | connect hgets hinfo hreuses hclose hresolve hconnect =>
    exact hnone (hgets.unconnected_client
      (ensureRemoteConnected_unconnected hreuses hclose hresolve hconnect))
  | @headerWrite parser raw info built header s₂ s₃ _ hremote hbuild hrules hwrite =>
    refine hnone (hremote.upstream_client
      ((upstream_forwardRequest env parser raw info s₂).ok (a := none) ?_))
    exact forwardRequest_unwritten hbuild hrules hwrite
  | @requestBody parser raw info built header s₂ s₃ s₄ _ hremote hbuild hrules hwrite hbody =>
    refine hnone (hremote.upstream_client
      ((upstream_forwardRequest env parser raw info s₂).ok (a := none) ?_))
    exact forwardRequest_cut hbuild hrules hwrite hbody
  | responseHeaderRead hsends hread => exact hnone (hsends.read_client hread)
  | @responseHeaderWrite parser request response raw header s₃ s₄ s₅ _ hsends hread hrules hwrite =>
    obtain ⟨rfl, rfl⟩ := EStateM.Result.ok.inj hrules
    obtain ⟨-, w, hw, hpre, -⟩ := (writeToClient_ends _ _).ok hwrite
    rw [text_madeFrom] at hpre
    exact ⟨w, (hsends.read_client hread).trans hw, Or.inr ⟨_, _, _, _, [], hsends.relays hread,
      partialBody_nil _ _, List.nil_prefix, Or.inl hpre⟩⟩
  | @responseBody parser request response raw header s₃ s₄ s₅ s₆ _ hsends hread hrules hwrite
      hbody =>
    obtain ⟨rfl, rfl⟩ := EStateM.Result.ok.inj hrules
    obtain ⟨⟨hahead, haheadToEof⟩, w, hw, -, hall⟩ := (writeToClient_ends _ _).ok hwrite
    obtain rfl := (hall rfl).trans (text_madeFrom _ _)
    obtain ⟨body, hb, hb', hpartial⟩ := (forwardResponseBody_sent parser response s₆).ok hbody
    have hstream : s₆.downLink.ahead = s₄.downLink.ahead := hahead
    have htoEof : s₆.downLink.aheadToEof = s₄.downLink.aheadToEof := haheadToEof
    rw [hstream] at hb'
    rw [htoEof] at hpartial
    exact ⟨_, ((hsends.read_client hread).trans hw).trans hb,
      Or.inr ⟨_, _, _, _, body, hsends.relays hread, hpartial, hb', Or.inr rfl⟩⟩

end Sent

/-- What an exchange that started in `s` did for the client up to `t`. -/
def Served (s : Session η) (r : ExchangeResult) (t : Session η) : Prop :=
  ∃ w, SentToClient s t w ∧ (Finished env s w ∨
    r = .close ∧ Unfinished env s w ∧ ∃ step, FailsAt env s step t)

/-- And one that did not end. -/
def CutOff (s t : Session η) : Prop := ∃ w, SentToClient s t w ∧ Unfinished env s w

section Exchange

variable {env} {s : Session η}

/-- **The downstream half.** -/
theorem forwardResponse_served {parser : RequestParser} {request : RequestHeader}
    {s₃ : Session η} (hsends : SendsRequest env s parser request s₃) :
    Ends (forwardResponse env parser request) s₃ (Served env s) fun _ t => CutOff env s t := by
  have hnone : ∀ {t}, SentToClient s₃ t [] → SentToClient s t [] := fun h => hsends.client.trans h
  refine ((readRemoteResponseHeader_client s₃).mono (fun _ _ h => h) ?_).bind_run ?_
  · intro e t h
    exact ⟨[], hnone h, Or.inl rfl⟩
  rintro (_ | ⟨response, raw⟩) s₄ hread h₄
  · exact ends_pure ⟨[], hnone h₄, Or.inr ⟨rfl, Or.inl rfl, _, .responseHeaderRead hsends hread⟩⟩
  set header := (ruledResponse env.ruleEngine env.ruleHttpConfig request
    ⟨s₄.script, response.header⟩).message with hheader
  set head := env.beast.serializeResponse (relayedResponse env.beast header) with hhead
  have hrelays : Relays env s (determineResponseBodyInfo parser response) head s₄.downLink.ahead
      s₄.downLink.aheadToEof := hsends.relays hread
  refine ends_bind (Ends.of_ok (a := header) rfl ?_)
  refine ((writeToClient_ends _ _).mono (fun _ _ h => h) fun _ _ h => h.elim).bind_run ?_
  rintro ok s₆ hwrite ⟨⟨hahead, haheadToEof⟩, w, hw, hpre, hall⟩
  rw [text_madeFrom] at hpre hall
  have hw' : SentToClient s s₆ w := (hnone h₄).trans hw
  cases ok with
  | false =>
    exact ends_pure ⟨w, hw', Or.inr ⟨rfl, Or.inr ⟨_, _, _, _, [], hrelays, partialBody_nil _ _,
      List.nil_prefix, Or.inl hpre⟩, _, .responseHeaderWrite hsends hread rfl hwrite⟩⟩
  | true =>
    obtain rfl := hall rfl
    rw [if_pos rfl]
    have hstream : s₆.downLink.ahead = s₄.downLink.ahead := hahead
    have htoEof : s₆.downLink.aheadToEof = s₄.downLink.aheadToEof := haheadToEof
    refine ((forwardResponseBody_sent parser response s₆).mono (fun _ _ h => h) ?_).bind_run ?_
    · rintro e t ⟨body, hb, hb', hpartial⟩
      rw [hstream] at hb'
      rw [htoEof] at hpartial
      exact ⟨head ++ body, hw'.trans hb,
        Or.inr ⟨_, _, _, _, body, hrelays, hpartial, hb', Or.inr rfl⟩⟩
    · rintro ok s₇ hbody ⟨body, hb, hb', hcase⟩
      rw [hstream] at hb'
      rw [htoEof] at hcase
      have hsent : SentToClient s s₇ (head ++ body) := hw'.trans hb
      cases ok with
      | false =>
        exact ends_pure ⟨_, hsent, Or.inr ⟨rfl, Or.inr ⟨_, _, _, _, body, hrelays, hcase, hb',
          Or.inr rfl⟩, _, .responseBody hsends hread rfl hwrite hbody⟩⟩
      | true =>
        have hfinished : Finished env s (head ++ body) :=
          ⟨_, _, _, _, body, hrelays, hcase, hb', rfl⟩
        rw [if_pos rfl]
        refine ends_bind (ends_bind (ends_get (ends_pure ?_)))
        exact ends_ite (fun _ => ends_pure ⟨_, hsent, Or.inl hfinished⟩)
          fun _ => ends_pure ⟨_, hsent, Or.inl hfinished⟩

/-- How connecting fails. -/
theorem ensureRemoteConnected_false {info : RemoteInfo} {s u : Session η}
    (h : ensureRemoteConnected info s = .ok false u) : s.reuses info = false ∧
      ∃ s₂, closeRemote s = .ok ⟨⟩ s₂ ∧ (resolveRemote info s₂ = .ok none u ∨
        ∃ endpoints s₃, resolveRemote info s₂ = .ok (some endpoints) s₃ ∧
          connectRemote endpoints s₃ = .ok false u) := by
  rw [ensureRemoteConnected, bind_ok (get_run s)] at h
  by_cases hr : s.reuses info = true
  · rw [if_pos hr] at h
    cases h
  · rw [if_neg hr] at h
    obtain ⟨⟨⟩, s₂, hclose, h⟩ := bind_eq_ok.mp h
    obtain ⟨q, s₃, hresolve, h⟩ := bind_eq_ok.mp h
    refine ⟨by simpa using hr, s₂, hclose, ?_⟩
    cases q with
    | none =>
      cases h
      exact Or.inl hresolve
    | some endpoints =>
      obtain ⟨ok, s₄, hconnect, h⟩ := bind_eq_ok.mp h
      cases ok with
      | false =>
        cases h
        exact Or.inr ⟨endpoints, s₃, hresolve, hconnect⟩
      | true =>
        obtain ⟨⟨⟩, s₅, -, h⟩ := bind_eq_ok.mp h
        cases h

/-- How the upstream half fails. -/
theorem GetsRemote.failsAt {parser : RequestParser} {raw : List Octet} {info : RemoteInfo}
    {s₂ u : Session η} (hremote : GetsRemote env s parser raw info s₂)
    (h : forwardRequest env parser raw info s₂ = .ok none u) : ∃ step, FailsAt env s step u := by
  obtain ⟨built, s₃, hbuild, h⟩ := bind_eq_ok.mp h
  obtain ⟨hbuilt, rfl⟩ := orThrow_eq_ok.mp hbuild
  obtain ⟨header, s₄, hrules, h⟩ := bind_eq_ok.mp h
  obtain ⟨ok, s₅, hwrite, h⟩ := bind_eq_ok.mp h
  cases ok with
  | false =>
    cases h
    exact ⟨_, .headerWrite hremote hbuilt hrules hwrite⟩
  | true =>
    obtain ⟨ok, s₆, hbody, h⟩ := bind_eq_ok.mp h
    cases ok with
    | false =>
      cases h
      exact ⟨_, .requestBody hremote hbuilt hrules hwrite hbody⟩
    | true => cases h

theorem GetsRequest.failsAt {parser : RequestParser} {raw : List Octet} {info : RemoteInfo}
    {s₁ u : Session η} (hgets : GetsRequest env s parser raw s₁)
    (hinfo : parseRemoteInfo env.urls parser.header = some info)
    (h : ensureRemoteConnected info s₁ = .ok false u) : ∃ step, FailsAt env s step u := by
  obtain ⟨hreuses, s₂, hclose, hresolve | ⟨endpoints, s₃, hresolve, hconnect⟩⟩ :=
    ensureRemoteConnected_false h
  · exact ⟨_, .resolve hgets hinfo hreuses hclose hresolve⟩
  · exact ⟨_, .connect hgets hinfo hreuses hclose hresolve hconnect⟩

/-- Nothing was sent to the client, and the session was not closed. -/
def Quiet (s t : Session η) : Prop :=
  t.clientSock.sent = s.clientSock.sent ∧ t.closed = s.closed

/-- **The stages of an exchange.**  Up to its response it is quiet; it is suspended there, or a step
fails, or the downstream half follows. -/
theorem handleOneExchange_stages {P : ExchangeResult → Session η → Prop} {E : Session η → Prop}
    (hhttp : ∀ parser raw t, readClientRequestHeader env s = .ok (some (parser, raw)) t →
      isConnect parser.header = false)
    (hcut : ∀ t, Quiet s t → E t)
    (hfails : ∀ step t, FailsAt env s step t → Quiet s t → P .close t)
    (hresponse : ∀ parser request t, SendsRequest env s parser request t → Quiet s t →
      Ends (forwardResponse env parser request) t P fun _ t => E t) :
    Ends (handleOneExchange env) s P fun _ t => E t := by
  refine ((readClientRequestHeader_ends env s).mono (fun _ _ h => h) ?_).bind ?_
  · intro e t h
    exact hcut t (by rw [h]; exact ⟨rfl, rfl⟩)
  rintro (_ | ⟨parser, raw⟩) s₁ ⟨hread, h₁⟩
  · exact ends_pure (hfails _ _ (.headerRead hread) (by rw [h₁]; exact ⟨rfl, rfl⟩))
  have hgets : GetsRequest env s parser raw s₁ := ⟨hread, hhttp _ _ _ hread⟩
  have hs₁ : Quiet s s₁ := by
    rw [h₁]
    exact ⟨rfl, rfl⟩
  have hquiet : ∀ {t}, t.clientSock.sent = s₁.clientSock.sent → t.closed = s₁.closed → Quiet s t :=
    fun hsent hclosed => ⟨hsent.trans hs₁.1, hclosed.trans hs₁.2⟩
  refine ends_ite (fun hc => absurd hc (by simp [hgets.2])) fun _ => ?_
  unfold handleHttpExchange
  cases hinfo : parseRemoteInfo env.urls parser.header with
  | none => exact ends_pure (hfails _ _ (.targetParsing hgets hinfo) hs₁)
  | some info =>
    refine ((ensureRemoteConnected_ends info s₁).mono (fun _ _ h => h) ?_).bind_run ?_
    · rintro e t ⟨-, h⟩
      exact hcut t (hquiet (by rw [h]) (by rw [h]))
    rintro (_ | _) s₂ hensure h
    · have hloses : Loses s₁ s₂ := h
      obtain ⟨step, hstep⟩ := hgets.failsAt hinfo hensure
      exact ends_pure (hfails _ _ hstep (hquiet (by rw [hloses]) (by rw [hloses])))
    have hconnects : Connects info s₁ s₂ := h
    have hremote : GetsRemote env s parser raw info s₂ := ⟨s₁, hgets, hinfo, hensure⟩
    have hs₂ : ∀ {t}, Upstream s₂ t → Quiet s t := fun hup => hquiet
      (hup.client_sent.trans (by rw [hconnects.frame.1]))
      ((by rw [hup] : _ = s₂.closed).trans (by rw [hconnects.frame.1]))
    refine ((upstream_forwardRequest env parser raw info s₂).mono (fun _ _ h => h) ?_).bind_run ?_
    · exact fun e t h => hcut t (hs₂ h)
    rintro (_ | request) s₃ hrequest hup
    · obtain ⟨step, hstep⟩ := hremote.failsAt hrequest
      exact ends_pure (hfails _ _ hstep (hs₂ hup))
    · exact hresponse parser request s₃ ⟨raw, info, s₂, hremote, hrequest⟩ (hs₂ hup)

/-- **What an exchange does for the client.**  It gets the response; or a step fails, and it gets at
most a front of it. -/
theorem handleOneExchange_served (s : Session η)
    (hhttp : ∀ parser raw t, readClientRequestHeader env s = .ok (some (parser, raw)) t →
      isConnect parser.header = false) :
    Ends (handleOneExchange env) s (Served env s) fun _ t => CutOff env s t := by
  refine handleOneExchange_stages hhttp ?_ ?_ fun _ _ _ hsends _ => forwardResponse_served hsends
  · exact fun t h => ⟨[], sentToClient_nil h.1, Or.inl rfl⟩
  · exact fun step t hstep h => ⟨[], sentToClient_nil h.1, Or.inr ⟨rfl, Or.inl rfl, step, hstep⟩⟩

/-- No step of such an exchange closes the session. -/
theorem handleOneExchange_closed (s : Session η)
    (hhttp : ∀ parser raw t, readClientRequestHeader env s = .ok (some (parser, raw)) t →
      isConnect parser.header = false) :
    Ends (handleOneExchange env) s (fun _ t => t.closed = s.closed) fun _ _ => True := by
  refine handleOneExchange_stages hhttp (fun _ _ => trivial) (fun _ _ _ h => h.2) ?_
  intro parser request s₃ _ h
  refine (downstream_forwardResponse env parser request s₃).mono ?_ fun _ _ _ => trivial
  intro r t hdown
  rw [hdown, ← h.2]

end Exchange

/-! ## Runs -/

/-- Exchange `k` starts in `s`, and the exchanges before it had the responses `w`. -/
inductive Completed (s₀ : Session η) : ℕ → Session η → Bytes → Prop
  | start : Completed s₀ 0 s₀ []
  | next {k : ℕ} {s t : Session η} {w w' : Bytes} : Completed s₀ k s w →
      handleOneExchange env s = .ok .continue t → Finished env s w' →
      Completed s₀ (k + 1) t (w ++ w')

/-- No request of a run from `s₀` is a CONNECT. -/
def HttpOnly (s₀ : Session η) : Prop :=
  ∀ k s parser raw t, Reached env s₀ k s →
    readClientRequestHeader env s = .ok (some (parser, raw)) t → isConnect parser.header = false

/-- What the client got: the responses of the exchanges that completed, and at most one more
response or a front of one. -/
def ClientGot (s₀ t : Session η) : Prop :=
  ∃ k s w w', Completed env s₀ k s w ∧ SentToClient s₀ t (w ++ w') ∧
    (Finished env s w' ∨ Unfinished env s w')

/-- The session after `Close`, with nothing else done. -/
def Session.shut (s : Session η) : Session η :=
  { s with
    closed := true, remoteSock := s.remoteSock.close, remoteState := ⟨[], [], false⟩
    clientSock := s.clientSock.close }

section Runs

variable {env} {s₀ : Session η}

theorem Reached.completed (hhttp : HttpOnly env s₀) {k : ℕ} {s : Session η}
    (h : Reached env s₀ k s) :
    s.closed = s₀.closed ∧ ∃ w, Completed env s₀ k s w ∧ SentToClient s₀ s w := by
  induction h with
  | start => exact ⟨rfl, [], .start, sentToClient_nil rfl⟩
  | @next k s t hs hx ih =>
    obtain ⟨hclosed, w, hw, hsent⟩ := ih
    have hown := fun parser raw t => hhttp k s parser raw t hs
    refine ⟨((handleOneExchange_closed s hown).ok hx).trans hclosed, ?_⟩
    obtain ⟨w', hw', hfin | ⟨hclose, -⟩⟩ := (handleOneExchange_served s hown).ok hx
    · exact ⟨w ++ w', hw.next hx hfin, hsent.trans hw'⟩
    · cases hclose

/-- The loop of `Run` gets to every exchange reached, if the observation is long enough. -/
theorem Reached.loop {k : ℕ} {s : Session η} (h : Reached env s₀ k s) (fuel : ℕ) :
    whileLoop .outOfFuel (runStep env) (k + fuel) () s₀
      = whileLoop .outOfFuel (runStep env) fuel () s := by
  induction h generalizing fuel with
  | start => rw [Nat.zero_add]
  | @next k s t _ hx ih =>
    rw [show k + 1 + fuel = k + (fuel + 1) by omega, ih (fuel + 1)]
    exact whileLoop_continue (bind_ok hx)

/-- An exchange that ends in Close ends the run. -/
theorem Reached.run_close {k : ℕ} {s u : Session η} (h : Reached env s₀ k s)
    (hx : handleOneExchange env s = .ok .close u) (hk : k < env.fuel) (hu : u.closed = false) :
    run env s₀ = .ok ⟨⟩ u.shut := by
  have hloop : whileLoop .outOfFuel (runStep env) env.fuel () s₀ = .ok () u := by
    obtain ⟨n, hn⟩ : ∃ n, env.fuel = k + (n + 1) := ⟨env.fuel - k - 1, by omega⟩
    rw [hn, h.loop]
    exact whileLoop_leave (bind_ok hx)
  rw [run, bind_ok hloop, close_run, if_neg (by rw [hu]; simp)]
  rfl

/-- **Failures are contained.**  However a run of HTTP exchanges ends, the client got whole
responses and at most a front of one more.  A step that fails is the last one: nothing is written or
read behind it, and the session is closed. -/
theorem failures_contained (s₀ : Session η) (h₀ : s₀.closed = false) (hhttp : HttpOnly env s₀) :
    Ends (run env) s₀ (fun _ t => ClientGot env s₀ t) (fun _ t => ClientGot env s₀ t) ∧
    ∀ k s step u, Reached env s₀ k s → FailsAt env s step u →
      (∃ w w', Completed env s₀ k s w ∧ SentToClient s₀ u (w ++ w') ∧ Unfinished env s w') ∧
      handleOneExchange env s = .ok .close u ∧
      (k < env.fuel → run env s₀ = .ok ⟨⟩ u.shut) := by
  constructor
  · refine (run_ends env s₀).mono ?_ ?_
    · rintro - t ⟨k, s, u, hs, hx, hclose⟩
      obtain ⟨-, w, hw, hsent⟩ := hs.completed hhttp
      obtain ⟨w', hw', hcase⟩ :=
        (handleOneExchange_served s fun parser raw t => hhttp k s parser raw t hs).ok hx
      have ht : t.clientSock.sent = u.clientSock.sent := by
        obtain ⟨-, rfl⟩ := EStateM.Result.ok.inj ((close_run u).symm.trans hclose)
        split <;> rfl
      have hgot : SentToClient s₀ t (w ++ w') := by
        unfold SentToClient Socket.sentOctets
        rw [ht]
        exact hsent.trans hw'
      exact ⟨k, s, w, w', hw, hgot, hcase.imp id fun h => h.2.1⟩
    · rintro e t ⟨k, s, hs, hx | ⟨-, rfl⟩⟩
      · obtain ⟨-, w, hw, hsent⟩ := hs.completed hhttp
        obtain ⟨w', hw', hun⟩ :=
          (handleOneExchange_served s fun parser raw t => hhttp k s parser raw t hs).error hx
        exact ⟨k, s, w, w', hw, hsent.trans hw', Or.inr hun⟩
      · obtain ⟨-, w, hw, hsent⟩ := hs.completed hhttp
        refine ⟨k, t, w, [], hw, ?_, Or.inr (Or.inl rfl)⟩
        rwa [List.append_nil]
  · intro k s step u hs hf
    have hown := fun parser raw t => hhttp k s parser raw t hs
    obtain ⟨hclosed, w, hw, hsent⟩ := hs.completed hhttp
    have hu : u.closed = false :=
      ((handleOneExchange_closed s hown).ok hf.close).trans (hclosed.trans h₀)
    refine ⟨?_, hf.close, fun hk => hs.run_close hf.close hk hu⟩
    obtain ⟨w', hw', hun⟩ := hf.sent
    exact ⟨w, w', hw, hsent.trans hw', hun⟩

theorem httpOnly_ofHosts (hosts : List Bytes) (responses : List (Bytes × ResponseParser))
    (s₀ : Session (List (Except Error Bool))) : HttpOnly (Env.ofHosts hosts responses) s₀ := by
  intro k s parser raw t _ hread
  obtain ⟨l, hl, -⟩ := zoom_eq_ok.mp hread
  obtain ⟨rx, h⟩ := (asyncReadHeader_ends _ _).ok hl
  obtain ⟨consumed, hparse, -⟩ := h.parsed
  obtain ⟨head, hmem⟩ := HeadTable.mem_of_parse hparse
  obtain ⟨host, -, hhost⟩ := List.mem_map.mp hmem
  obtain ⟨-, rfl⟩ := Prod.mk.inj hhost
  rfl

/-- A client that resets the connection within its second request. -/
def resetSession : Session (List (Except Error Bool)) :=
  .new (scriptedSocket 0 [⟨none, (getOf (ascii "a")).1 ++ ascii "GET"⟩, ⟨some .other, []⟩]) []
    [Dial.ofReads [emptyOk.1]]

theorem failures_contained_reset : ∃ s u w w',
    Completed (Env.ofHosts [ascii "a"] [emptyOk]) resetSession 1 s w ∧
    SentToClient resetSession u (w ++ w') ∧
    Unfinished (Env.ofHosts [ascii "a"] [emptyOk]) s w' ∧
    run (Env.ofHosts [ascii "a"] [emptyOk]) resetSession = .ok ⟨⟩ u.shut := by
  obtain ⟨-, hfails⟩ := failures_contained resetSession rfl
    (httpOnly_ofHosts [ascii "a"] [emptyOk] _)
  have hs : Reached (Env.ofHosts [ascii "a"] [emptyOk]) resetSession 1 _ :=
    Reached.start.next_stateOf (by decide +kernel)
  obtain ⟨⟨w, w', hw, hsent, hun⟩, -, hrun⟩ :=
    hfails _ _ _ _ hs (.headerRead (ok_stateOf (by decide +kernel)))
  exact ⟨_, _, w, w', hw, hsent, hun, hrun (by decide)⟩

end Runs

end ProxyPP.Http
