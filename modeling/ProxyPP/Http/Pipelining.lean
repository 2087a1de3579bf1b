import ProxyPP.Http.Bodies
import ProxyPP.Http.Runs

/-!
# ProxyPP.Http.Pipelining — the boundaries of pipelined requests

The head parser and the three ways to forward a body share `client_read_buffer_`.  On a client
stream that is a concatenation of requests every exchange takes its own request off the front,
whatever the reads cut: what is buffered and unread at the start of exchange `k` is the
concatenation of the requests from `k` on, and the bytes sent upstream are the rebuilt heads with
the client's bodies, in order (`pipelined_requests`).
-/

namespace ProxyPP.Http

open ProxyPP ProxyPP.Lib ProxyPP.Rules

variable {η : Type} (env : Env η)

/-! ## Requests -/

/-- A request as the client sends it: a head for the parser, not of a CONNECT, and a body of the
framing it announces. -/
structure ClientRequest where
  parser : RequestParser
  head : Bytes
  body : Bytes
  delimits : Delimits env.beast.parseRequest head parser
  http : isConnect parser.header = false
  framed : RequestBody (determineRequestBodyInfo parser) body

variable {env}

def ClientRequest.bytes (r : ClientRequest env) : Bytes := r.head ++ r.body

/-- The method is recognised, and `ParseHttpRemoteInfo` accepts the target. -/
def ClientRequest.Accepted (r : ClientRequest env) : Prop :=
  env.beast.knownVerb r.parser.header.method = true ∧
    ∃ info, parseHttpRemoteInfo env.urls r.parser.header = some info

theorem ClientRequest.parseRemoteInfo (r : ClientRequest env) :
    Http.parseRemoteInfo env.urls r.parser.header
      = parseHttpRemoteInfo env.urls r.parser.header := by
  rw [Http.parseRemoteInfo, r.http, if_neg (by simp)]

variable (env)

/-- The request rebuilt for `info`, and the script state, after the rules ran from `script`. -/
def ruledHeader (header : RequestHeader) (info : RemoteInfo) (script : η) :
    Except Bytes (World η RequestHeader) := do
  let built ← buildRemoteRequestHeader env.beast header info
  pure (ruledRequest env.ruleEngine env.ruleHttpConfig ⟨script, built⟩)

/-- The rebuilt head, as it is written upstream. -/
def rebuiltHead (header : RequestHeader) (info : RemoteInfo) (script : η) : Except Bytes Bytes := do
  let ruled ← ruledHeader env header info script
  let request ← remoteRequest env.beast ruled.message
  pure (env.beast.serializeRequest request)

/-- The bytes are the rebuilt heads of the requests, each with the client's body, in order. -/
inductive Relayed : List (ClientRequest env) → Bytes → Prop
  | nil : Relayed [] []
  | snoc {requests : List (ClientRequest env)} {bytes head : Bytes} {r : ClientRequest env}
      {info : RemoteInfo} {script : η} : Relayed requests bytes →
      parseHttpRemoteInfo env.urls r.parser.header = some info →
      rebuiltHead env r.parser.header info script = .ok head →
      Relayed (requests ++ [r]) (bytes ++ (head ++ r.body))

/-- The exchange that starts in `s` forwards its whole request: it gets a connection, and the head
and `ForwardRequestBody` succeed. -/
def ForwardsRequest (s : Session η) : Prop :=
  ∃ parser raw s₀ info s₁ request s₂,
    readClientRequestHeader env s = .ok (some (parser, raw)) s₀ ∧
    isConnect parser.header = false ∧
    parseRemoteInfo env.urls parser.header = some info ∧
    ensureRemoteConnected info s₀ = .ok true s₁ ∧
    forwardRequest env parser raw info s₁ = .ok (some request) s₂

/-! ## What is sent upstream -/

/-- From `s` to `t` the bytes `w` were sent to the remote. -/
def SentToRemote (s t : Session η) (w : Bytes) : Prop :=
  text t.remoteSock.sentOctets = text s.remoteSock.sentOctets ++ w

theorem SentToRemote.trans {s t u : Session η} {w w' : Bytes} (h : SentToRemote s t w)
    (h' : SentToRemote t u w') : SentToRemote s u (w ++ w') := by
  unfold SentToRemote at *
  rw [h', h, List.append_assoc]

theorem SentToRemote.trans_nil {s t u : Session η} {w : Bytes} (h : SentToRemote s t w)
    (h' : u.remoteSock.sent = t.remoteSock.sent) : SentToRemote s u w := by
  unfold SentToRemote Socket.sentOctets at *
  rw [h', h]

theorem sentToRemote_nil {s t : Session η} (h : t.remoteSock.sent = s.remoteSock.sent) :
    SentToRemote s t [] := by
  rw [SentToRemote, Socket.sentOctets, h, List.append_nil, Socket.sentOctets]

@[simp] theorem text_madeFrom (raw : List Octet) (bytes : Bytes) :
    text (madeFrom raw bytes) = bytes := by
  rw [text, madeFrom, List.map_map]
  exact List.map_id bytes

theorem writeToRemote_ends (octets : List Octet) (s : Session η) : Ends (writeToRemote octets) s
    (fun ok t => t.upLink.ahead = s.upLink.ahead ∧ ∃ w, SentToRemote s t w ∧ w <+: text octets ∧
      (ok = true → w = text octets)) fun _ _ => False := by
  refine Ends.bind (P := fun r t => t.upLink.ahead = s.upLink.ahead ∧
    ∃ w, SentToRemote s t w ∧ w <+: text octets ∧ (r.1 = false → w = text octets))
    (ends_zoom ((asyncWrite_text octets s.remoteSock _).mono ?_ fun _ _ h => h)) ?_
  · rintro r s' ⟨-, w, hsent, hpre, hall⟩
    exact ⟨rfl, w, hsent, hpre, hall⟩
  · rintro ⟨ec, n⟩ t ⟨hahead, w, hsent, hpre, hall⟩
    refine ends_pure ⟨hahead, w, hsent, hpre, fun h => hall ?_⟩
    simpa using h

theorem forwardRequestBody_ends {parser : RequestParser} {body rest : Bytes} {s : Session η}
    (hbody : RequestBody (determineRequestBodyInfo parser) body)
    (hahead : s.upLink.ahead = body ++ rest) : Ends (forwardRequestBody env parser) s
      (fun ok t => BodySent s.upLink body rest ok t.upLink)
      (fun _ t => BodySent s.upLink body rest false t.upLink) := by
  unfold forwardRequestBody
  unfold RequestBody at hbody
  generalize determineRequestBodyInfo parser = info at hbody ⊢
  rcases info with ⟨framing, contentLength⟩
  cases framing with
  | none =>
    obtain rfl : body = [] := hbody
    exact ends_pure ⟨[], by rw [List.append_nil], List.prefix_refl _, fun _ => ⟨rfl, hahead⟩⟩
  | contentLength => exact ends_zoom (forwardExactly_body env.fuel hbody hahead)
  | chunked => exact ends_zoom (forwardChunked_body env.fuel hbody hahead)

theorem rebuiltHead_eq_ok {header : RequestHeader} {info : RemoteInfo} {script : η} {head : Bytes} :
    rebuiltHead env header info script = .ok head ↔ ∃ built request,
      buildRemoteRequestHeader env.beast header info = .ok built ∧
      remoteRequest env.beast
        (ruledRequest env.ruleEngine env.ruleHttpConfig ⟨script, built⟩).message = .ok request ∧
      env.beast.serializeRequest request = head := by
  unfold rebuiltHead ruledHeader
  cases hbuilt : buildRemoteRequestHeader env.beast header info with
  | error what => simp [bind, Except.bind]
  | ok built =>
    cases hrequest : remoteRequest env.beast
        (ruledRequest env.ruleEngine env.ruleHttpConfig ⟨script, built⟩).message with
    | error what => simp [bind, Except.bind, pure, Except.pure, hrequest]
    | ok request => simp [bind, Except.bind, pure, Except.pure, hrequest]

/-- A request of a recognised method has a rebuilt head. -/
theorem exists_rebuiltHead {header : RequestHeader}
    (h : env.beast.knownVerb header.method = true) (info : RemoteInfo) (script : η) :
    ∃ head, rebuiltHead env header info script = .ok head := by
  refine ⟨_, (rebuiltHead_eq_ok env).mpr
    ⟨_, _, buildRemoteRequestHeader_known info h, remoteRequest_known ?_, rfl⟩⟩
  rw [(ruledRequest_line _ _ _).1]
  exact h

/-- **The upstream half** sends a part of the rebuilt head and the body, and all of it if it
succeeds; then what follows the body is ahead. -/
theorem forwardRequest_ends {parser : RequestParser} {raw : List Octet} {info : RemoteInfo}
    {body rest head : Bytes} {s : Session η}
    (hhead : rebuiltHead env parser.header info s.script = .ok head)
    (hframed : RequestBody (determineRequestBodyInfo parser) body)
    (hahead : s.upLink.ahead = body ++ rest) :
    Ends (forwardRequest env parser raw info) s
      (fun q t => ∃ w, SentToRemote s t w ∧ w <+: head ++ body ∧
        (q.isSome = true → w = head ++ body ∧ t.upLink.ahead = rest))
      (fun _ t => ∃ w, SentToRemote s t w ∧ w <+: head ++ body) := by
  obtain ⟨built, request, hbuilt, hrequest, rfl⟩ := (rebuiltHead_eq_ok env).mp hhead
  unfold forwardRequest writeRemoteRequestHeader
  rw [hbuilt]
  refine ends_bind (ends_pure (ends_bind (Ends.of_ok rfl ?_)))
  rw [hrequest]
  refine ((ends_bind (ends_pure (writeToRemote_ends _ _))).mono (fun _ _ h => h)
    fun _ _ h => h.elim).bind ?_
  rintro ok t ⟨hahead', w, hsent, hpre, hall⟩
  rw [text_madeFrom] at hpre hall
  have hsent : SentToRemote s t w := hsent
  have hahead' : t.upLink.ahead = body ++ rest := hahead'.trans hahead
  refine ends_ite (fun hok => ?_) fun _ => ?_
  · obtain rfl := hall hok
    have hbody : ∀ {ok u}, BodySent t.upLink body rest ok (Session.upLink u) →
        ∃ w', SentToRemote s u (env.beast.serializeRequest request ++ w') ∧
          env.beast.serializeRequest request ++ w' <+: env.beast.serializeRequest request ++ body ∧
          (ok = true → w' = body ∧ u.upLink.ahead = rest) := by
      rintro ok u ⟨w', hsent', hpre', hdone⟩
      exact ⟨w', hsent.trans hsent', (List.prefix_append_right_inj _).mpr hpre', hdone⟩
    refine ((forwardRequestBody_ends env hframed hahead').mono (fun _ _ h => h) ?_).bind ?_
    · intro e u h
      obtain ⟨w', hs, hp, -⟩ := hbody h
      exact ⟨_, hs, hp⟩
    · intro ok u h
      obtain ⟨w', hs, hp, hdone⟩ := hbody h
      refine ends_ite (fun hok => ends_pure ⟨_, hs, hp, fun _ => ?_⟩)
        fun _ => ends_pure ⟨_, hs, hp, by simp⟩
      obtain ⟨rfl, hrest⟩ := hdone hok
      exact ⟨rfl, hrest⟩
  · exact ends_pure ⟨w, hsent, hpre.trans (List.prefix_append _ body), by simp⟩

theorem forwardRequestBody_script {parser : RequestParser} {ok : Bool} {s t : Session η}
    (h : forwardRequestBody env parser s = .ok ok t) : t.script = s.script := by
  have hzoom : ∀ {m : EStateM Stop Link Bool}, onUpLink m s = .ok ok t → t.script = s.script := by
    intro m hr
    obtain ⟨l, -, rfl⟩ := zoom_eq_ok.mp hr
    rfl
  unfold forwardRequestBody at h
  generalize determineRequestBodyInfo parser = info at h
  rcases info with ⟨framing, contentLength⟩
  cases framing with
  | none =>
    obtain ⟨-, rfl⟩ := EStateM.Result.ok.inj h
    rfl
  | contentLength => exact hzoom h
  | chunked => exact hzoom h

theorem orThrow_eq_ok {α : Type} {r : Except Bytes α} {a : α} {s t : Session η} :
    (orThrow r : EStateM Stop (Session η) α) s = .ok a t ↔ r = .ok a ∧ s = t := by
  cases r with
  | ok b => simp [orThrow, pure_run]
  | error what => simp [orThrow, throw_run]

/-- What an upstream half that succeeded hands on: the request and the script state that the rules
left. -/
theorem forwardRequest_some {parser : RequestParser} {raw : List Octet} {info : RemoteInfo}
    {request : RequestHeader} {s t : Session η}
    (h : forwardRequest env parser raw info s = .ok (some request) t) :
    ruledHeader env parser.header info s.script = .ok ⟨t.script, request⟩ ∧
      ∃ head, rebuiltHead env parser.header info s.script = .ok head := by
  obtain ⟨built, s₁, hbuild, h⟩ := bind_eq_ok.mp h
  obtain ⟨hbuilt, rfl⟩ := orThrow_eq_ok.mp hbuild
  obtain ⟨header, s₂, hrules, h⟩ := bind_eq_ok.mp h
  obtain ⟨rfl, rfl⟩ := EStateM.Result.ok.inj hrules
  obtain ⟨ok, s₃, hwrite, h⟩ := bind_eq_ok.mp h
  cases ok with
  | false => cases h
  | true =>
    obtain ⟨ok, s₄, hbody, h⟩ := bind_eq_ok.mp h
    cases ok with
    | false => cases h
    | true =>
      obtain ⟨hrequest, rfl⟩ := EStateM.Result.ok.inj h
      obtain ⟨q, s₅, hthrow, hserialized⟩ := bind_eq_ok.mp hwrite
      obtain ⟨hq, rfl⟩ := orThrow_eq_ok.mp hthrow
      obtain ⟨r, s₆, hsock, hdone⟩ := bind_eq_ok.mp hserialized
      obtain ⟨-, rfl⟩ := EStateM.Result.ok.inj hdone
      obtain ⟨sock, -, rfl⟩ := zoom_eq_ok.mp hsock
      refine ⟨?_, _, (rebuiltHead_eq_ok env).mpr ⟨built, q, hbuilt, hq, rfl⟩⟩
      rw [← Option.some.inj hrequest, forwardRequestBody_script env hbody, ruledHeader, hbuilt]
      rfl

/-! ## Exchanges -/

/-- The head read is the head of the request ahead. -/
theorem readClientRequestHeader_request {r : ClientRequest env} {rest : Bytes} {s : Session η}
    (hahead : s.upLink.ahead = r.bytes ++ rest) : Ends (readClientRequestHeader env) s
      (fun q t => HeadOnly s t ∧ ∀ p ∈ q, p.1 = r.parser ∧ t.upLink.ahead = r.body ++ rest)
      (fun _ t => HeadOnly s t) := by
  have hsplit : s.upLink.ahead = r.head ++ (r.body ++ rest) := by
    rw [hahead, ClientRequest.bytes, List.append_assoc]
  have hread : Ends (readClientRequestHeader env) s
      (fun q t => ∀ p ∈ q, p.1 = r.parser ∧ t.upLink.ahead = r.body ++ rest) (fun _ _ => True) := by
    refine ends_zoom ((asyncReadHeader_delimits r.delimits hsplit env.fuel).mono ?_ fun _ _ h => h)
    rintro q l ⟨-, h⟩ p hp
    obtain ⟨hparser, -, hrest⟩ := h p hp
    exact ⟨hparser, hrest⟩
  refine ((readClientRequestHeader_ends env s).and hread).mono ?_ fun _ _ h => h.1
  rintro q t ⟨⟨-, honly⟩, h⟩
  exact ⟨honly, h⟩

/-- After connecting for a request that was read the upstream half is about to start on it. -/
theorem connected_start {r : ClientRequest env} {rest : Bytes} {s s₀ s₁ : Session η}
    {info : RemoteInfo} (h₀ : HeadOnly s s₀) (hbody : s₀.upLink.ahead = r.body ++ rest)
    (h : Connects info s₀ s₁) : s₁.upLink.ahead = r.body ++ rest ∧ s₁.script = s.script ∧
      s₁.remoteSock.sent = s.remoteSock.sent := by
  obtain ⟨hframe, hsent⟩ := h.frame
  refine ⟨?_, ?_, ?_⟩
  · rw [hframe]
    exact hbody
  · rw [hframe, h₀]
  · rw [hsent, h₀]

/-- **What an exchange sends upstream**, however it ends: a part of the rebuilt head and body. -/
theorem handleOneExchange_sends {r : ClientRequest env} {info : RemoteInfo} {rest head : Bytes}
    {s : Session η} (hinfo : parseHttpRemoteInfo env.urls r.parser.header = some info)
    (hhead : rebuiltHead env r.parser.header info s.script = .ok head)
    (hahead : s.upLink.ahead = r.bytes ++ rest) : Ends (handleOneExchange env) s
      (fun _ t => ∃ w, SentToRemote s t w ∧ w <+: head ++ r.body)
      (fun _ t => ∃ w, SentToRemote s t w ∧ w <+: head ++ r.body) := by
  have hnothing : ∀ {t : Session η}, t.remoteSock.sent = s.remoteSock.sent →
      ∃ w, SentToRemote s t w ∧ w <+: head ++ r.body := fun h =>
    ⟨[], sentToRemote_nil h, List.nil_prefix⟩
  refine ((readClientRequestHeader_request env hahead).mono (fun _ _ h => h) ?_).bind ?_
  · exact fun e t h => hnothing (by rw [h])
  rintro (_ | ⟨parser, raw⟩) s₀ ⟨h₀, hq⟩
  · exact ends_pure (hnothing (by rw [h₀]))
  obtain ⟨rfl, hbody⟩ := hq _ rfl
  refine ends_ite (fun hc => absurd hc (by simp [r.http])) fun _ => ?_
  unfold handleHttpExchange
  rw [r.parseRemoteInfo, hinfo]
  refine ((ensureRemoteConnected_ends info s₀).mono (fun _ _ h => h) ?_).bind ?_
  · rintro e t ⟨-, h⟩
    exact hnothing (by rw [h, h₀]; rfl)
  rintro (_ | _) s₁ h
  · refine ends_pure (hnothing ?_)
    have hloses : Loses s₀ s₁ := h
    rw [hloses, h₀]
    rfl
  have hconnects : Connects info s₀ s₁ := h
  obtain ⟨hahead₁, hscript, hsent₁⟩ := connected_start env h₀ hbody hconnects
  rw [← hscript] at hhead
  have hfrom : ∀ {t : Session η} {w : Bytes}, SentToRemote s₁ t w → SentToRemote s t w := by
    intro t w ht
    exact (sentToRemote_nil hsent₁).trans ht
  refine ((forwardRequest_ends env hhead r.framed hahead₁).mono (fun _ _ h => h) ?_).bind ?_
  · rintro e t ⟨w, hw, hpre⟩
    exact ⟨w, hfrom hw, hpre⟩
  rintro (_ | request) s₂ ⟨w, hw, hpre, -⟩
  · exact ends_pure ⟨w, hfrom hw, hpre⟩
  · refine (downstream_forwardResponse env r.parser request s₂).mono ?_ ?_
    · intro _ t hdown
      exact ⟨w, (hfrom hw).trans_nil hdown.remote_sent, hpre⟩
    · intro _ t hdown
      exact ⟨w, (hfrom hw).trans_nil hdown.remote_sent, hpre⟩

/-- An exchange that forwards its request sends all of it, and the next request is ahead. -/
theorem ForwardsRequest.sends {r : ClientRequest env} {rest : Bytes} {s : Session η}
    (h : ForwardsRequest env s) (hahead : s.upLink.ahead = r.bytes ++ rest) :
    ∃ info head, parseHttpRemoteInfo env.urls r.parser.header = some info ∧
      rebuiltHead env r.parser.header info s.script = .ok head ∧
      SentToRemote s (stateOf (handleOneExchange env s)) (head ++ r.body) ∧
      (stateOf (handleOneExchange env s)).upLink.ahead = rest := by
  obtain ⟨parser, raw, s₀, info, s₁, request, s₂, hread, hhttp, hinfo, hensure, hrequest⟩ := h
  obtain ⟨h₀, hq⟩ := (readClientRequestHeader_request env hahead).ok hread
  obtain ⟨rfl, hbody⟩ := hq _ rfl
  have hconnects : Connects info s₀ s₁ := (ensureRemoteConnected_ends info s₀).ok hensure
  obtain ⟨hahead₁, hscript, hsent₁⟩ := connected_start env h₀ hbody hconnects
  obtain ⟨-, head, hhead⟩ := forwardRequest_some env hrequest
  obtain ⟨w, hw, -, hdone⟩ := (forwardRequest_ends env hhead r.framed hahead₁).ok hrequest
  obtain ⟨rfl, hrest⟩ := hdone rfl
  have hrun : handleOneExchange env s = forwardResponse env r.parser request s₂ := by
    unfold handleOneExchange
    rw [bind_ok hread]
    simp only [hhttp, Bool.false_eq_true, if_false]
    unfold handleHttpExchange
    rw [hinfo]
    show (ensureRemoteConnected info >>= _) s₀ = _
    rw [bind_ok hensure]
    exact bind_ok hrequest
  have hdown : Downstream s₂ (stateOf (forwardResponse env r.parser request s₂)) :=
    Ends.stateOf (downstream_forwardResponse env r.parser request s₂)
  rw [hrun]
  rw [hscript] at hhead
  rw [r.parseRemoteInfo] at hinfo
  refine ⟨info, head, hinfo, hhead, ?_, hdown.upLink_ahead.trans hrest⟩
  exact ((sentToRemote_nil hsent₁).trans hw).trans_nil hdown.remote_sent

theorem forwardsRequest_of_continue {s t : Session η}
    (h : handleOneExchange env s = .ok .continue t) : ForwardsRequest env s := by
  obtain ⟨parser, raw, s₀, info, s₁, request, s₂, hread, hhttp, hinfo, hensure, hrequest, -⟩ :=
    handleOneExchange_continue env h
  exact ⟨parser, raw, s₀, info, s₁, request, s₂, hread, hhttp, hinfo, hensure, hrequest⟩

/-! ## Runs -/

/-- With nothing ahead there is no further exchange. -/
theorem not_continue_of_empty {s t : Session η} (hahead : s.upLink.ahead = []) :
    handleOneExchange env s ≠ .ok .continue t := by
  intro h
  obtain ⟨parser, raw, s₀, -, -, -, -, hread, -⟩ := handleOneExchange_continue env h
  have hempty : Ends (readClientRequestHeader env) s (fun q _ => q = none) (fun _ _ => True) :=
    ends_zoom (asyncReadHeader_empty hahead env.fuel)
  exact absurd (hempty.ok hread) (by simp)

/-- What is ahead at the start of exchange `k`, and what was sent upstream before it. -/
structure Aligned (requests : List (ClientRequest env)) (k : ℕ) (s : Session η) : Prop where
  le : k ≤ requests.length
  ahead : s.upLink.ahead = (requests.drop k).flatMap ClientRequest.bytes
  sent : Relayed env (requests.take k) (text s.remoteSock.sentOctets)

/-- **Alignment.**  Every run over a stream of requests stays on their boundaries. -/
theorem Reached.aligned {clientSock : Socket} {script : η} {dials : List Dial}
    {requests : List (ClientRequest env)}
    (hstream : clientSock.stream = requests.flatMap ClientRequest.bytes) {k : ℕ} {s : Session η}
    (hs : Reached env (Session.new clientSock script dials) k s) : Aligned env requests k s := by
  induction hs with
  | start => exact ⟨Nat.zero_le _, hstream, Relayed.nil⟩
  | @next k s t _ hx ih =>
    have hlt : k < requests.length := by
      by_contra hge
      refine not_continue_of_empty env ?_ hx
      rw [ih.ahead, List.drop_eq_nil_of_le (by omega)]
      rfl
    have hahead : s.upLink.ahead
        = requests[k].bytes ++ (requests.drop (k + 1)).flatMap ClientRequest.bytes := by
      rw [ih.ahead, List.drop_eq_getElem_cons hlt, List.flatMap_cons]
    obtain ⟨info, head, hinfo, hhead, hsent, hrest⟩ :=
      (forwardsRequest_of_continue env hx).sends env hahead
    rw [hx] at hsent hrest
    refine ⟨hlt, hrest, ?_⟩
    have hsent' : text t.remoteSock.sentOctets = _ := hsent
    rw [hsent', List.take_succ_eq_append_getElem hlt]
    exact Relayed.snoc ih.sent hinfo hhead

/-- **Pipelined request boundaries.**  Let the client stream be a concatenation of accepted
requests, read in any pieces.  In every run, at the start of exchange `k` what is buffered and
unread is the concatenation of the requests from `k` on, and the bytes sent upstream are the rebuilt
heads and the client's bodies of the requests before it, in order.  However exchange `k` ends, it
sends a part of its own rebuilt head and body; all of it if the request was forwarded, in particular
when the exchange ends in Continue. -/
theorem pipelined_requests (clientSock : Socket) (script : η) (dials : List Dial)
    (requests : List (ClientRequest env)) (haccepted : ∀ r ∈ requests, r.Accepted)
    (hstream : clientSock.stream = requests.flatMap ClientRequest.bytes) {k : ℕ} {s : Session η}
    (hs : Reached env (Session.new clientSock script dials) k s) :
    s.upLink.ahead = (requests.drop k).flatMap ClientRequest.bytes ∧
    Relayed env (requests.take k) (text s.remoteSock.sentOctets) ∧
    ∀ r, requests[k]? = some r → ∃ info head w,
      parseHttpRemoteInfo env.urls r.parser.header = some info ∧
      rebuiltHead env r.parser.header info s.script = .ok head ∧
      SentToRemote s (stateOf (handleOneExchange env s)) w ∧ w <+: head ++ r.body ∧
      (ForwardsRequest env s ∨ (∃ t, handleOneExchange env s = .ok .continue t) →
        w = head ++ r.body) := by
  obtain ⟨-, hahead, hsent⟩ := hs.aligned env hstream
  refine ⟨hahead, hsent, fun r hr => ?_⟩
  obtain ⟨hlt, rfl⟩ := List.getElem?_eq_some_iff.mp hr
  have hahead' : s.upLink.ahead
      = requests[k].bytes ++ (requests.drop (k + 1)).flatMap ClientRequest.bytes := by
    rw [hahead, List.drop_eq_getElem_cons hlt, List.flatMap_cons]
  obtain ⟨hknown, info, hinfo⟩ := haccepted _ (List.getElem_mem hlt)
  obtain ⟨head, hhead⟩ := exists_rebuiltHead env hknown info s.script
  obtain ⟨w, hw, hpre⟩ := Ends.stateOf (handleOneExchange_sends env hinfo hhead hahead')
  refine ⟨info, head, w, hinfo, hhead, hw, hpre, fun h => ?_⟩
  have hforwards : ForwardsRequest env s := by
    rcases h with h | ⟨t, hx⟩
    · exact h
    · exact forwardsRequest_of_continue env hx
  obtain ⟨info', head', hinfo', hhead', hall, -⟩ := hforwards.sends env hahead'
  obtain rfl := Option.some.inj (hinfo.symm.trans hinfo')
  obtain rfl := Except.ok.inj (hhead.symm.trans hhead')
  exact List.append_cancel_left (hw.symm.trans hall)

/-- A request to `a`. -/
def requestToA (responses : List (Bytes × ResponseParser)) :
    ClientRequest (Env.ofHosts [ascii "a"] responses) where
  parser := (getOf (ascii "a")).2
  head := (getOf (ascii "a")).1
  body := []
  delimits := @HeadTable.delimits _ [getOf (ascii "a")] _ _ List.mem_cons_self (by simp)
  http := by decide
  framed := rfl

theorem accepted_requestToA (responses : List (Bytes × ResponseParser)) :
    (requestToA responses).Accepted :=
  ⟨rfl, ⟨ascii "http", ascii "a", ascii "80", ascii "/"⟩, rfl⟩

/-- Two requests in one read; the second is left after the first exchange. -/
theorem pipelined_requests_oneRead : ∃ s, Reached (Env.ofHosts [ascii "a"] [emptyOk])
    (Session.ofReads [(getOf (ascii "a")).1 ++ (getOf (ascii "a")).1] [[emptyOk.1]]) 1 s ∧
    s.upLink.ahead = (getOf (ascii "a")).1 := by
  obtain ⟨s, hs⟩ : ∃ s, Reached (Env.ofHosts [ascii "a"] [emptyOk])
      (Session.ofReads [(getOf (ascii "a")).1 ++ (getOf (ascii "a")).1] [[emptyOk.1]]) 1 s :=
    ⟨_, Reached.start.next_stateOf (by decide +kernel)⟩
  refine ⟨s, hs, ?_⟩
  have h := (pipelined_requests (Env.ofHosts [ascii "a"] [emptyOk])
    (scriptedSocket 0 [⟨none, (getOf (ascii "a")).1 ++ (getOf (ascii "a")).1⟩]) [] _
    [requestToA [emptyOk], requestToA [emptyOk]] (by simp [accepted_requestToA]) (by decide) hs).1
  rw [h]
  decide

end ProxyPP.Http
