import ProxyPP.Http.ChunkedFraming
import ProxyPP.Http.SessionSteps

/-!
# ProxyPP.Http.Halves — the two halves of an exchange

An exchange that ends in Continue reads a request head, connects, runs its upstream half and then
its downstream half (`handleOneExchange_continue`).  The upstream half leaves what the remote is
about to send and what the client got alone (`Upstream`); the downstream half leaves what the client
is about to send and what the remote got alone (`Downstream`).
-/

namespace ProxyPP.Http

open ProxyPP ProxyPP.Lib ProxyPP.Rules

variable {η : Type}

/-! ## Frames -/

/-- The client was read from and the remote written to. -/
def Upstream (s t : Session η) : Prop :=
  t = { s with
    clientSock := { s.clientSock with incoming := t.clientSock.incoming }
    clientReadBuffer := t.clientReadBuffer
    remoteSock := { s.remoteSock with writes := t.remoteSock.writes, sent := t.remoteSock.sent }
    script := t.script }

/-- The remote was read from and the client written to. -/
def Downstream (s t : Session η) : Prop :=
  t = { s with
    remoteSock := { s.remoteSock with incoming := t.remoteSock.incoming }
    remoteReadBuffer := t.remoteReadBuffer
    clientSock := { s.clientSock with writes := t.clientSock.writes, sent := t.clientSock.sent }
    script := t.script }

instance : IsPreorder (Session η) Upstream where
  refl _ := rfl
  trans s t u h h' := by
    unfold Upstream at *
    rw [h', h]

instance : IsPreorder (Session η) Downstream where
  refl _ := rfl
  trans s t u h h' := by
    unfold Downstream at *
    rw [h', h]

theorem upstream_up {s : Session η} {l : Link} (h : Transferred s.upLink l) :
    Upstream s (s.putUpLink l) := by
  obtain ⟨tx, rx, h⟩ := h
  have hfrom : l.fromPeer = { s.clientSock with incoming := l.fromPeer.incoming } := h.fromPeer
  have htarget : l.targetPeer
      = { s.remoteSock with writes := l.targetPeer.writes, sent := l.targetPeer.sent } :=
    h.targetPeer
  unfold Upstream Session.putUpLink
  congr 1

theorem downstream_down {s : Session η} {l : Link} (h : Transferred s.downLink l) :
    Downstream s (s.putDownLink l) := by
  obtain ⟨tx, rx, h⟩ := h
  have hfrom : l.fromPeer = { s.remoteSock with incoming := l.fromPeer.incoming } := h.fromPeer
  have htarget : l.targetPeer
      = { s.clientSock with writes := l.targetPeer.writes, sent := l.targetPeer.sent } :=
    h.targetPeer
  unfold Downstream Session.putDownLink
  congr 1

theorem upstream_writeToRemote (octets : List Octet) :
    Within Upstream (writeToRemote octets : EStateM Stop (Session η) Bool) := by
  refine Within.bind (fun s => ends_zoom ?_) fun _ => within_pure _
  refine (asyncWrite_ends octets s.remoteSock fun _ _ => False).mono ?_ fun _ _ h => h.elim
  rintro r s' ⟨ds, hs', -⟩
  rw [hs']
  rfl

theorem downstream_writeToClient (octets : List Octet) :
    Within Downstream (writeToClient octets : EStateM Stop (Session η) Bool) := by
  refine Within.bind (fun s => ends_zoom ?_) fun _ => within_pure _
  refine (asyncWrite_ends octets s.clientSock fun _ _ => False).mono ?_ fun _ _ h => h.elim
  rintro r s' ⟨ds, hs', -⟩
  rw [hs']
  rfl

section Frames

variable {s t : Session η}

theorem Upstream.downLink_ahead (h : Upstream s t) : t.downLink.ahead = s.downLink.ahead := by
  rw [h]; rfl

theorem Upstream.client_sent (h : Upstream s t) : t.clientSock.sent = s.clientSock.sent := by rw [h]

theorem Upstream.remote_isOpen (h : Upstream s t) : t.remoteSock.isOpen = s.remoteSock.isOpen := by
  rw [h]

theorem Upstream.remoteState (h : Upstream s t) : t.remoteState = s.remoteState := by rw [h]

theorem Downstream.upLink_ahead (h : Downstream s t) : t.upLink.ahead = s.upLink.ahead := by
  rw [h]; rfl

theorem Downstream.remote_sent (h : Downstream s t) : t.remoteSock.sent = s.remoteSock.sent := by
  rw [h]

theorem Downstream.remoteState (h : Downstream s t) : t.remoteState = s.remoteState := by rw [h]

theorem Downstream.remote_isOpen (h : Downstream s t) :
    t.remoteSock.isOpen = s.remoteSock.isOpen := by
  rw [h]

end Frames

section Halves

variable (env : Env η)

theorem upstream_forwardRequest (parser : RequestParser) (raw : List Octet) (info : RemoteInfo) :
    Within Upstream (forwardRequest env parser raw info) :=
  within_forwardRequest env (fun h => h.zoom fun _ _ => upstream_up) upstream_writeToRemote
    (fun _ _ => rfl) parser raw info

theorem downstream_forwardResponseBody (parser : RequestParser) (response : ResponseParser) :
    Within Downstream (forwardResponseBody env parser response) := by
  have hdown : ∀ {m : EStateM Stop Link Bool}, Within Transferred m →
      Within Downstream (onDownLink m : EStateM Stop (Session η) Bool) :=
    fun h => h.zoom fun _ _ => downstream_down
  unfold forwardResponseBody
  rcases determineResponseBodyInfo parser response with ⟨framing, contentLength⟩
  cases framing with
  | none => exact within_pure true
  | contentLength => exact hdown (within_of_forwarded (forwardExactly_ends _ _))
  | chunked => exact hdown (within_of_forwarded (forwardChunked_ends _))
  | closeDelimited => exact hdown (within_of_forwarded (forwardUntilEof_ends _))
  | tunnel => exact within_pure false

theorem downstream_forwardResponse (parser : RequestParser) (request : RequestHeader) :
    Within Downstream (forwardResponse env parser request) := by
  have hread : Within Downstream (readRemoteResponseHeader env) :=
    (within_asyncReadHeader env.fuel).zoom fun _ _ => downstream_down
  refine Within.bind hread fun r => ?_
  rcases r with _ | ⟨response, raw⟩
  · exact within_pure _
  refine Within.bind (fun s => rfl) fun header => ?_
  refine Within.bind (downstream_writeToClient _) fun ok => within_ite (fun _ => ?_) fun _ =>
    within_pure _
  refine Within.bind (downstream_forwardResponseBody env parser response) fun ok =>
    within_ite (fun _ => ?_) fun _ => within_pure _
  refine Within.bind (Within.bind within_get fun _ => within_pure _) fun keep =>
    within_ite (fun _ => within_pure _) fun _ => within_pure _

/-! ## An exchange that ends in Continue -/

theorem handleConnectExchange_ne_continue {header : RequestHeader} {s t : Session η} :
    handleConnectExchange env header s ≠ .ok .continue t := by
  intro h
  unfold handleConnectExchange at h
  cases hp : parseRemoteInfo env.urls header with
  | none => rw [hp] at h; cases h
  | some info =>
    rw [hp] at h
    obtain ⟨ok, s₁, -, h⟩ := bind_eq_ok.mp h
    cases ok with
    | false => cases h
    | true =>
      obtain ⟨ok, s₂, -, h⟩ := bind_eq_ok.mp h
      cases ok with
      | false => cases h
      | true =>
        obtain ⟨u, s₃, -, h⟩ := bind_eq_ok.mp h
        cases h

/-- The steps of an exchange that ends in Continue. -/
theorem handleOneExchange_continue {s t : Session η}
    (h : handleOneExchange env s = .ok .continue t) :
    ∃ parser raw s₀ info s₁ request s₂,
      readClientRequestHeader env s = .ok (some (parser, raw)) s₀ ∧
      isConnect parser.header = false ∧
      parseRemoteInfo env.urls parser.header = some info ∧
      ensureRemoteConnected info s₀ = .ok true s₁ ∧
      forwardRequest env parser raw info s₁ = .ok (some request) s₂ ∧
      forwardResponse env parser request s₂ = .ok .continue t := by
  obtain ⟨r, s₀, hread, h⟩ := bind_eq_ok.mp h
  rcases r with _ | ⟨parser, raw⟩
  · cases h
  by_cases hc : isConnect parser.header = true
  · simp only [if_pos hc] at h
    exact absurd h (handleConnectExchange_ne_continue env)
  · simp only [if_neg hc] at h
    unfold handleHttpExchange at h
    cases hp : parseRemoteInfo env.urls parser.header with
    | none => rw [hp] at h; cases h
    | some info =>
      rw [hp] at h
      obtain ⟨ok, s₁, hensure, h⟩ := bind_eq_ok.mp h
      cases ok with
      | false => cases h
      | true =>
        obtain ⟨r, s₂, hrequest, h⟩ := bind_eq_ok.mp h
        cases r with
        | none => cases h
        | some request =>
          exact ⟨parser, raw, s₀, info, s₁, request, s₂, hread, by simpa using hc, hp, hensure,
            hrequest, h⟩

/-- The steps of a downstream half that ends in Continue. -/
theorem forwardResponse_continue {parser : RequestParser} {request : RequestHeader}
    {s t : Session η} (h : forwardResponse env parser request s = .ok .continue t) :
    ∃ response raw s₁ s₂ s₃ s₄,
      readRemoteResponseHeader env s = .ok (some (response, raw)) s₁ ∧
      s₂ = { s₁ with script := (ruledResponse env.ruleEngine env.ruleHttpConfig request
        ⟨s₁.script, response.header⟩).script } ∧
      writeRemoteResponseHeaderToClient env raw (ruledResponse env.ruleEngine env.ruleHttpConfig
        request ⟨s₁.script, response.header⟩).message s₂ = .ok true s₃ ∧
      forwardResponseBody env parser response s₃ = .ok true s₄ ∧
      t = s₄ ∧ parser.keepAlive = true ∧ response.keepAlive = true ∧
      s₄.clientSock.isOpen = true ∧ s₄.remoteSock.isOpen = true := by
  obtain ⟨r, s₁, hread, h⟩ := bind_eq_ok.mp h
  rcases r with _ | ⟨response, raw⟩
  · cases h
  obtain ⟨header, s₂, hrules, h⟩ := bind_eq_ok.mp h
  obtain ⟨rfl, rfl⟩ := EStateM.Result.ok.inj hrules
  obtain ⟨ok, s₃, hwrite, h⟩ := bind_eq_ok.mp h
  cases ok with
  | false => cases h
  | true =>
    obtain ⟨ok, s₄, hbody, h⟩ := bind_eq_ok.mp h
    cases ok with
    | false => cases h
    | true =>
      obtain ⟨keep, s₅, hkeep, h⟩ := bind_eq_ok.mp h
      obtain ⟨hk, rfl⟩ := EStateM.Result.ok.inj hkeep
      cases keep with
      | false => cases h
      | true =>
        obtain ⟨-, rfl⟩ := EStateM.Result.ok.inj h
        simp only [Bool.and_eq_true] at hk
        obtain ⟨⟨⟨h1, h2⟩, h3⟩, h4⟩ := hk
        exact ⟨response, raw, s₁, _, s₃, _, hread, rfl, hwrite, hbody, rfl, h1, h2, h3, h4⟩

/-- An exchange that ends in Continue leaves an established connection. -/
theorem connected_of_continue {s t : Session η} (h : handleOneExchange env s = .ok .continue t) :
    t.remoteState.connected = true ∧ t.remoteSock.isOpen = true := by
  obtain ⟨parser, raw, s₀, info, s₁, request, s₂, -, -, -, hensure, hrequest, hresponse⟩ :=
    handleOneExchange_continue env h
  have hup := (upstream_forwardRequest env parser raw info s₁).ok hrequest
  have hdown := (downstream_forwardResponse env parser request s₂).ok hresponse
  have hconn : s₁.remoteState.connected = true ∧ s₁.remoteSock.isOpen = true := by
    rcases (ensureRemoteConnected_ends info s₀).ok hensure with ⟨hr, rfl⟩ | ⟨-, hopens⟩
    · simp only [Session.reuses, Bool.and_eq_true] at hr
      exact ⟨hr.1.1.1, hr.1.1.2⟩
    · obtain ⟨dial, endpoints, endpoint, peer, -, -, -, rfl⟩ := hopens
      exact ⟨rfl, rfl⟩
  rw [hdown.remoteState, hup.remoteState, hdown.remote_isOpen, hup.remote_isOpen]
  exact hconn

end Halves

end ProxyPP.Http
