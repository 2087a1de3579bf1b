import ProxyPP.Http.Session

/-!
# ProxyPP.Http.SessionSteps — what an exchange does at most

`Serves s t`: from `s` to `t` nothing was written to the remote but on the connection in place, and,
if `remote_read_buffer_` held only bytes of that connection, nothing was written to the client but
bytes of that connection.  It is a preorder, and all of an exchange behind `EnsureRemoteConnected`
is within it.  `EnsureRemoteConnected` itself reuses the connection or opens one to an endpoint it
has just resolved, and leaves the buffers alone.
-/

namespace ProxyPP.Http

open ProxyPP ProxyPP.Lib ProxyPP.Rules

variable {η : Type}

/-! ## Serving on one connection -/

/-- The octets were received on `c`. -/
def ReceivedOn (c : Connection) (octets : List Octet) : Prop := ∀ o ∈ octets, o.origins = [c.id]

/-- No octet was made from another connection. -/
def OnlyFrom (c : Connection) (octets : List Octet) : Prop :=
  ∀ o ∈ octets, ∀ id ∈ o.origins, id = c.id

/-- `remote_read_buffer_` holds no byte of an earlier connection. -/
def Session.Clean (s : Session η) : Prop := ReceivedOn s.remoteSock.connection s.remoteReadBuffer

structure Serves (s t : Session η) : Prop where
  connection : t.remoteSock.connection = s.remoteSock.connection
  toRemote : ∃ ds, t.remoteSock.sent = s.remoteSock.sent ++ ds ∧
    ∀ d ∈ ds, d.connection = s.remoteSock.connection
  toClient : ∃ ds, t.clientSock.sent = s.clientSock.sent ++ ds ∧
    (s.Clean → ∀ d ∈ ds, OnlyFrom s.remoteSock.connection d.octets)
  clean : s.Clean → t.Clean
  resolutions : t.resolutions = s.resolutions
  nextConnection : t.nextConnection = s.nextConnection
  remoteState : t.remoteState = s.remoteState ∨ t.remoteState.connected = false

theorem Serves.refl (s : Session η) : Serves s s :=
  ⟨rfl, ⟨[], by simp, by simp⟩, ⟨[], by simp, by simp⟩, id, rfl, rfl, Or.inl rfl⟩

theorem Serves.trans {s t u : Session η} (h : Serves s t) (h' : Serves t u) : Serves s u := by
  obtain ⟨ds, hds, hc⟩ := h.toRemote
  obtain ⟨ds', hds', hc'⟩ := h'.toRemote
  obtain ⟨es, hes, ho⟩ := h.toClient
  obtain ⟨es', hes', ho'⟩ := h'.toClient
  refine ⟨h'.connection.trans h.connection, ⟨ds ++ ds', ?_, ?_⟩, ⟨es ++ es', ?_, ?_⟩,
    fun hs => h'.clean (h.clean hs), h'.resolutions.trans h.resolutions,
    h'.nextConnection.trans h.nextConnection, ?_⟩
  · rw [hds', hds, List.append_assoc]
  · intro d hd
    rcases List.mem_append.mp hd with hd | hd
    · exact hc d hd
    · exact (hc' d hd).trans h.connection
  · rw [hes', hes, List.append_assoc]
  · intro hs d hd
    rcases List.mem_append.mp hd with hd | hd
    · exact ho hs d hd
    · have := ho' (h.clean hs) d hd
      rwa [h.connection] at this
  · rcases h'.remoteState with h1 | h1
    · rw [h1]; exact h.remoteState
    · exact Or.inr h1

instance : IsPreorder (Session η) Serves where
  refl := Serves.refl
  trans _ _ _ := Serves.trans

theorem OnlyFrom.nil (c : Connection) : OnlyFrom c [] := by simp [OnlyFrom]

theorem OnlyFrom.of_subset {c : Connection} {a b : List Octet} (h : OnlyFrom c b)
    (hsub : ∀ o ∈ a, o ∈ b) : OnlyFrom c a := fun o ho => h o (hsub o ho)

theorem ReceivedOn.of_subset {c : Connection} {a b : List Octet} (h : ReceivedOn c b)
    (hsub : ∀ o ∈ a, o ∈ b) : ReceivedOn c a := fun o ho => h o (hsub o ho)

theorem ReceivedOn.onlyFrom {c : Connection} {a : List Octet} (h : ReceivedOn c a) :
    OnlyFrom c a := by
  intro o ho id hid
  rw [h o ho] at hid
  exact List.mem_singleton.mp hid

/-- Where the bytes of a `Transfer` were received. -/
theorem Transfer.receivedOn {l l' : Link} {tx rx : List Octet} (h : Transfer l l' tx rx)
    (hbuf : ReceivedOn l.fromPeer.connection l.readBuffer) :
    ReceivedOn l.fromPeer.connection (tx ++ l'.readBuffer) := by
  intro o ho
  rcases List.mem_append.mp (h.kept o ho) with ho | ho
  · exact hbuf o ho
  · exact h.origins o ho

theorem serves_up {s : Session η} {l : Link} (h : Transferred s.upLink l) :
    Serves s (s.putUpLink l) := by
  obtain ⟨tx, rx, h⟩ := h
  obtain ⟨ds, hds, hc, -⟩ := h.sent
  have hremote : (s.putUpLink l).remoteSock.connection = s.remoteSock.connection :=
    h.target_connection
  refine ⟨hremote, ⟨ds, hds, hc⟩, ⟨[], ?_, by simp⟩, fun hs => ?_, rfl, rfl, Or.inl rfl⟩
  · rw [List.append_nil]
    exact h.from_sent
  · rw [Session.Clean, hremote]
    exact hs

theorem serves_down {s : Session η} {l : Link} (h : Transferred s.downLink l) :
    Serves s (s.putDownLink l) := by
  obtain ⟨tx, rx, h⟩ := h
  obtain ⟨ds, hds, -, htx⟩ := h.sent
  have hremote : (s.putDownLink l).remoteSock.connection = s.remoteSock.connection :=
    h.from_connection
  refine ⟨hremote, ⟨[], ?_, by simp⟩, ⟨ds, hds, fun hs d hd => ?_⟩, fun hs => ?_, rfl, rfl,
    Or.inl rfl⟩
  · rw [List.append_nil]
    exact h.from_sent
  · refine (h.receivedOn hs).onlyFrom.of_subset fun o ho => List.mem_append_left _ ?_
    rw [← htx]
    exact List.mem_flatMap.mpr ⟨d, hd, ho⟩
  · rw [Session.Clean, hremote]
    exact (h.receivedOn hs).of_subset fun o ho => List.mem_append_right _ ho

theorem within_onUpLink {α : Type} {m : EStateM Stop Link α} (h : Within Transferred m) :
    Within Serves (onUpLink m : EStateM Stop (Session η) α) :=
  h.zoom fun _ _ => serves_up

theorem within_onDownLink {α : Type} {m : EStateM Stop Link α} (h : Within Transferred m) :
    Within Serves (onDownLink m : EStateM Stop (Session η) α) :=
  h.zoom fun _ _ => serves_down

theorem within_writeToRemote (octets : List Octet) :
    Within Serves (writeToRemote octets : EStateM Stop (Session η) Bool) := by
  refine Within.bind (fun s => ends_zoom ?_) fun _ => within_pure _
  refine (asyncWrite_ends octets s.remoteSock fun _ _ => False).mono ?_ fun _ _ h => h.elim
  rintro r s' ⟨ds, hs', hc, -⟩
  rw [hs']
  exact ⟨rfl, ⟨ds, rfl, hc⟩, ⟨[], by simp, by simp⟩, id, rfl, rfl, Or.inl rfl⟩

theorem ends_writeToClient {octets : List Octet} {s t : Session η} (hst : Serves s t)
    (h : s.Clean → OnlyFrom s.remoteSock.connection octets) :
    Ends (writeToClient octets) t (fun _ u => Serves s u) fun _ u => Serves s u := by
  refine Ends.bind (P := fun _ u => Serves s u) (ends_zoom ?_) fun _ _ h => ends_pure h
  refine (asyncWrite_ends octets t.clientSock fun _ _ => False).mono ?_ fun _ _ h => h.elim
  rintro r c ⟨ds, hc, -, hpre, -⟩
  obtain ⟨es, hes, ho⟩ := hst.toClient
  rw [hc]
  refine ⟨hst.connection, hst.toRemote, ⟨es ++ ds, ?_, fun hs d hd => ?_⟩, hst.clean,
    hst.resolutions, hst.nextConnection, hst.remoteState⟩
  · rw [hes, List.append_assoc]
  · rcases List.mem_append.mp hd with hd | hd
    · exact ho hs d hd
    · refine (h hs).of_subset fun o ho => hpre.subset ?_
      exact List.mem_flatMap.mpr ⟨d, hd, ho⟩

theorem onlyFrom_madeFrom {c : Connection} {raw : List Octet} (h : OnlyFrom c raw) (bytes : Bytes) :
    OnlyFrom c (madeFrom raw bytes) := by
  intro o ho id hid
  obtain ⟨b, -, rfl⟩ := List.mem_map.mp ho
  obtain ⟨o', ho', hid'⟩ := List.mem_flatMap.mp (List.mem_dedup.mp hid)
  exact h o' ho' id hid'

/-! ## Closing -/

theorem within_resetRemoteState :
    Within Serves (resetRemoteState : EStateM Stop (Session η) PUnit) :=
  within_modify fun _ =>
    ⟨rfl, ⟨[], by simp, by simp⟩, ⟨[], by simp, by simp⟩, id, rfl, rfl, Or.inr rfl⟩

theorem within_closeRemote : Within Serves (closeRemote : EStateM Stop (Session η) PUnit) :=
  Within.bind (within_modify fun _ =>
    ⟨rfl, ⟨[], by simp [Socket.close], by simp⟩, ⟨[], by simp, by simp⟩, id, rfl, rfl, Or.inl rfl⟩)
    fun _ => within_resetRemoteState

theorem within_close : Within Serves (close : EStateM Stop (Session η) PUnit) := by
  refine Within.bind within_get fun s => within_ite (fun _ => within_pure _) fun _ => ?_
  refine Within.bind (within_modify fun _ => ?_) fun _ =>
    Within.bind within_closeRemote fun _ => within_modify fun _ => ?_
  · exact ⟨rfl, ⟨[], by simp, by simp⟩, ⟨[], by simp, by simp⟩, id, rfl, rfl, Or.inl rfl⟩
  · exact ⟨rfl, ⟨[], by simp, by simp⟩, ⟨[], by simp [Socket.close], by simp⟩, id, rfl, rfl,
      Or.inl rfl⟩

/-! ## The parts of an exchange -/

section Parts

variable (env : Env η)

/-- The bytes of a response head are bytes of the connection. -/
theorem readRemoteResponseHeader_ends (s : Session η) : Ends (readRemoteResponseHeader env) s
    (fun r t => Serves s t ∧ ∀ p ∈ r, s.Clean → OnlyFrom s.remoteSock.connection p.2)
    fun _ t => Serves s t := by
  refine ends_zoom ((asyncReadHeader_ends env.fuel s.downLink).mono ?_ ?_)
  · rintro (_ | ⟨value, raw⟩) l ⟨rx, h⟩
    · exact ⟨serves_down ⟨[], rx, h.toTransfer⟩, by simp⟩
    · refine ⟨serves_down ⟨[], rx, h.toTransfer⟩, fun p hp hs => ?_⟩
      cases hp
      refine ReceivedOn.onlyFrom fun o ho => ?_
      have hmem : o ∈ s.remoteReadBuffer ++ rx := h.buffer ▸ List.mem_append_left _ ho
      rcases List.mem_append.mp hmem with hmem | hmem
      · exact hs o hmem
      · exact h.origins o hmem
  · rintro e l ⟨-, rx, hm⟩
    exact serves_down ⟨[], rx, hm.toTransfer⟩

theorem within_forwardResponseBody (parser : RequestParser) (response : ResponseParser) :
    Within Serves (forwardResponseBody env parser response) := by
  unfold forwardResponseBody
  rcases determineResponseBodyInfo parser response with ⟨framing, contentLength⟩
  cases framing with
  | none => exact within_pure true
  | contentLength => exact within_onDownLink (within_of_forwarded (forwardExactly_ends _ _))
  | chunked => exact within_onDownLink (within_of_forwarded (forwardChunked_ends _))
  | closeDelimited => exact within_onDownLink (within_of_forwarded (forwardUntilEof_ends _))
  | tunnel => exact within_pure false

theorem within_shouldKeepAlive (parser : RequestParser) (response : ResponseParser) :
    Within Serves (shouldKeepAlive parser response : EStateM Stop (Session η) Bool) :=
  Within.bind within_get fun _ => within_pure _

/-- The upstream half is within what its operations are within. -/
theorem within_forwardRequest {R : Session η → Session η → Prop} [IsPreorder (Session η) R]
    (hup : ∀ {m : EStateM Stop Link Bool}, Within Transferred m → Within R (onUpLink m))
    (hwrite : ∀ octets, Within R (writeToRemote octets))
    (hscript : ∀ s h, R s { s with script := h }) (parser : RequestParser) (raw : List Octet)
    (info : RemoteInfo) : Within R (forwardRequest env parser raw info) := by
  have hthrow : ∀ {α : Type} (r : Except Bytes α),
      Within R (orThrow r : EStateM Stop (Session η) α) := by
    intro α r
    cases r with
    | ok a => exact within_pure a
    | error what => exact within_throw _
  have hbody : Within R (forwardRequestBody env parser) := by
    unfold forwardRequestBody
    rcases determineRequestBodyInfo parser with ⟨framing, contentLength⟩
    cases framing with
    | none => exact within_pure true
    | contentLength => exact hup (within_of_forwarded (forwardExactly_ends _ _))
    | chunked => exact hup (within_of_forwarded (forwardChunked_ends _))
  refine Within.bind (hthrow _) fun header => ?_
  refine Within.bind (fun s => hscript s _) fun header => ?_
  refine Within.bind (Within.bind (hthrow _) fun _ => hwrite _) fun _ => ?_
  refine within_ite (fun _ => ?_) fun _ => within_pure _
  refine Within.bind hbody fun _ => ?_
  exact within_ite (fun _ => within_pure _) fun _ => within_pure _

theorem serves_script (s : Session η) (h : η) : Serves s { s with script := h } :=
  ⟨rfl, ⟨[], by simp, by simp⟩, ⟨[], by simp, by simp⟩, id, rfl, rfl, Or.inl rfl⟩

theorem within_forwardResponse (parser : RequestParser) (request : RequestHeader) :
    Within Serves (forwardResponse env parser request) := by
  intro s
  refine (readRemoteResponseHeader_ends env s).bind ?_
  rintro (_ | ⟨response, raw⟩) t ⟨hst, hraw⟩
  · exact ends_pure hst
  have hrules : Within Serves (applyResponseRules env request response.header) := fun s =>
    serves_script s _
  refine (hrules.after hst).bind ?_
  intro header u hsu
  have hmade : s.Clean → OnlyFrom s.remoteSock.connection (madeFrom raw _) := fun hs =>
    onlyFrom_madeFrom (hraw _ rfl hs)
      (env.beast.serializeResponse (relayedResponse env.beast header))
  refine (ends_writeToClient hsu hmade).bind ?_
  intro ok v hsv
  refine ends_ite (fun _ => ?_) fun _ => ends_pure hsv
  refine ((within_forwardResponseBody env parser response).after hsv).bind ?_
  intro ok w hsw
  refine ends_ite (fun _ => ?_) fun _ => ends_pure hsw
  refine ((within_shouldKeepAlive parser response).after hsw).bind ?_
  intro keep x hsx
  exact ends_ite (fun _ => ends_pure hsx) fun _ => ends_pure hsx

theorem within_writeConnectEstablishedResponseToClient :
    Within Serves (writeConnectEstablishedResponseToClient env) := fun s =>
  ends_writeToClient (Serves.refl s) fun _ => onlyFrom_madeFrom (OnlyFrom.nil _) _

/-! ### The tunnel -/

theorem within_forwardViaTunnelStep : Within Transferred forwardViaTunnelStep := by
  refine Within.bind within_get fun l => within_ite (fun _ => ?_) fun _ => ?_
  · refine Within.bind within_readSomeFromPeer fun r => ?_
    cases r with
    | none => exact within_pure false
    | some r => exact within_pure _
  · refine Within.bind (within_writeToPeer _) fun r => ?_
    cases r with
    | none => exact within_pure false
    | some n => exact within_pure true

theorem within_viaTunnel (direction : Direction) :
    Within Serves (viaTunnel direction : EStateM Stop (Session η) Bool) := by
  cases direction with
  | clientToRemote => exact within_onUpLink within_forwardViaTunnelStep
  | remoteToClient => exact within_onDownLink within_forwardViaTunnelStep

theorem within_tunnelStep (direction : Direction) :
    Within Serves (tunnelStep direction : EStateM Stop (Session η) Bool) := by
  intro s
  have hstep := within_viaTunnel direction s
  unfold Ends tunnelStep at *
  cases hr : viaTunnel direction s with
  | ok running t =>
    rw [hr] at hstep
    cases running with
    | true => exact hstep
    | false =>
      have hclose : Within Serves (do close; pure false : EStateM Stop (Session η) Bool) :=
        Within.bind within_close fun _ => within_pure false
      exact hclose.after hstep
  | error e t =>
    rw [hr] at hstep
    cases e with
    | blocked => exact Serves.refl s
    | outOfFuel => exact hstep
    | thrown what => exact hstep

theorem within_relayTunnelBidirectional (schedule : List Direction) (up down : Bool) :
    Within Serves (relayTunnelBidirectional schedule up down : EStateM Stop (Session η) PUnit) := by
  have hstep : ∀ (direction : Direction) (running : Bool),
      Within Serves (resume direction running : EStateM Stop (Session η) Bool) :=
    fun direction _ => within_ite (fun _ => within_tunnelStep direction) fun _ => within_pure _
  induction schedule generalizing up down with
  | nil => exact within_ite (fun _ => within_throw _) fun _ => within_pure _
  | cons direction schedule ih =>
    cases direction with
    | clientToRemote => exact Within.bind (hstep _ _) fun _ => ih _ _
    | remoteToClient => exact Within.bind (hstep _ _) fun _ => ih _ _

end Parts

/-! ## `EnsureRemoteConnected` -/

/-- A new connection to `info` was opened. -/
def Opens (info : RemoteInfo) (s t : Session η) : Prop :=
  ∃ dial endpoints endpoint peer, s.dials.head? = some dial ∧ dial.endpoints = some endpoints ∧
    connectFirst endpoints dial.attempts = some (endpoint, peer) ∧
    t = { s with
      remoteSock := ⟨true, ⟨s.nextConnection, endpoint⟩, peer.incoming, peer.atEof, peer.writes,
        s.remoteSock.sent⟩
      remoteState := ⟨info.host, info.port, true⟩
      dials := s.dials.tail
      resolutions := s.resolutions ++ [⟨info.host, info.port, endpoints⟩]
      nextConnection := s.nextConnection + 1 }

/-- The connection was given up and no other was opened. -/
def Loses (s t : Session η) : Prop :=
  t = { s with
    remoteSock := s.remoteSock.close, remoteState := ⟨[], [], false⟩, dials := t.dials
    resolutions := t.resolutions }

theorem mem_of_connectFirst {endpoints : List Endpoint} {attempts : List (Option RemotePeer)}
    {endpoint : Endpoint} {peer : RemotePeer}
    (h : connectFirst endpoints attempts = some (endpoint, peer)) :
    endpoint ∈ endpoints ∧ some peer ∈ attempts := by
  obtain ⟨⟨e, a⟩, hmem, ha⟩ := List.exists_of_findSome?_eq_some h
  obtain ⟨p, rfl, hp⟩ := Option.map_eq_some_iff.mp ha
  obtain ⟨rfl, rfl⟩ := Prod.mk.inj hp
  exact List.of_mem_zip hmem

theorem resolveRemote_ends (info : RemoteInfo) (s : Session η) : Ends (resolveRemote info) s
    (fun r t => match r with
      | none => t = { s with dials := t.dials }
      | some endpoints => ∃ dial, s.dials.head? = some dial ∧ dial.endpoints = some endpoints ∧
          t = { s with resolutions := s.resolutions ++ [⟨info.host, info.port, endpoints⟩] })
    (fun e t => e = .blocked ∧ t = s) := by
  refine ends_bind (ends_get ?_)
  rcases hdials : s.dials with _ | ⟨dial, dials⟩
  · exact ends_throw ⟨rfl, rfl⟩
  · dsimp only
    rcases hends : dial.endpoints with _ | endpoints
    · exact ends_bind (ends_modify (ends_pure rfl))
    · refine ends_ite (fun _ => ?_) fun _ => ?_
      · exact ends_bind (ends_modify (ends_pure rfl))
      · exact ends_bind (ends_modify (ends_pure ⟨dial, rfl, hends, by rw [hdials]⟩))

theorem connectRemote_ends (endpoints : List Endpoint) (s : Session η)
    (E : Stop → Session η → Prop) : Ends (connectRemote endpoints) s
      (fun ok t => if ok then ∃ endpoint peer,
          connectFirst endpoints (s.dials.head?.elim [] Dial.attempts) = some (endpoint, peer) ∧
          t = { s with
            remoteSock := ⟨true, ⟨s.nextConnection, endpoint⟩, peer.incoming, peer.atEof,
              peer.writes, s.remoteSock.sent⟩
            dials := s.dials.tail
            nextConnection := s.nextConnection + 1 }
        else t = { s with dials := s.dials.tail }) E := by
  refine ends_bind (ends_get (ends_bind (ends_modify ?_)))
  rcases hc : connectFirst endpoints (s.dials.head?.elim [] Dial.attempts) with _ | ⟨endpoint, peer⟩
  · exact ends_pure rfl
  · exact ends_bind (ends_modify (ends_pure ⟨endpoint, peer, rfl, rfl⟩))

theorem closeRemote_ends (s : Session η) (E : Stop → Session η → Prop) :
    Ends closeRemote s (fun _ t =>
      t = { s with remoteSock := s.remoteSock.close, remoteState := ⟨[], [], false⟩ }) E :=
  ends_bind (ends_modify (ends_modify rfl))

theorem ensureRemoteConnected_reuses {info : RemoteInfo} {s : Session η}
    (h : s.reuses info = true) : ensureRemoteConnected info s = .ok true s := by
  rw [ensureRemoteConnected, bind_ok (get_run s), if_pos h]
  rfl

/-- **`EnsureRemoteConnected`** reuses the connection, opens one, or loses it. -/
theorem ensureRemoteConnected_ends (info : RemoteInfo) (s : Session η) :
    Ends (ensureRemoteConnected info) s
      (fun ok t => if ok then s.reuses info = true ∧ t = s ∨ s.reuses info = false ∧ Opens info s t
        else Loses s t)
      (fun e t => e = .blocked ∧ Loses s t) := by
  refine ends_bind (ends_get (ends_ite (fun hr => ends_pure (Or.inl ⟨hr, rfl⟩)) fun hr => ?_))
  have hreuses : s.reuses info = false := by simpa using hr
  refine (closeRemote_ends s _).bind ?_
  rintro - s₁ rfl
  refine ((resolveRemote_ends info _).mono (fun _ _ h => h) ?_).bind ?_
  · rintro e t ⟨rfl, rfl⟩
    exact ⟨rfl, rfl⟩
  rintro (_ | endpoints) s₂ h
  · refine ends_pure ?_
    show Loses s s₂
    unfold Loses
    rw [h]
  obtain ⟨dial, hdial, hends, rfl⟩ := h
  refine (connectRemote_ends endpoints _ _).bind ?_
  rintro (_ | _) s₃ h
  · refine ends_pure ?_
    show Loses s s₃
    unfold Loses
    rw [h]
  · obtain ⟨endpoint, peer, hc, rfl⟩ := h
    have hc' : connectFirst endpoints dial.attempts = some (endpoint, peer) := by
      rw [← hc]
      show _ = connectFirst endpoints (s.dials.head?.elim [] Dial.attempts)
      rw [hdial]
      rfl
    exact ends_bind (ends_modify (ends_pure
      (Or.inr ⟨hreuses, dial, endpoints, endpoint, peer, hdial, hends, hc', rfl⟩)))

/-! ## Exchanges -/

section Exchanges

variable (env : Env η)

/-- The remote of the exchange that starts in `s`, if its request is read and has one. -/
def exchangeInfo (s : Session η) : Option RemoteInfo :=
  match readClientRequestHeader env s with
  | .ok (some (parser, _)) _ => parseRemoteInfo env.urls parser.header
  | _ => none

/-- Only the client was read from. -/
def HeadOnly (s t : Session η) : Prop :=
  t = { s with
    clientSock := { s.clientSock with incoming := t.clientSock.incoming }
    clientReadBuffer := t.clientReadBuffer }

/-- An exchange that has not got to a remote. -/
structure Idle (s t : Session η) : Prop where
  toRemote : t.remoteSock.sent = s.remoteSock.sent
  toClient : t.clientSock.sent = s.clientSock.sent
  connection : t.remoteSock.connection = s.remoteSock.connection
  remoteReadBuffer : t.remoteReadBuffer = s.remoteReadBuffer
  nextConnection : t.nextConnection = s.nextConnection
  remoteState : t.remoteState.connected = false ∨
    t.remoteState = s.remoteState ∧ t.remoteSock = s.remoteSock ∧ t.resolutions = s.resolutions

/-- The connection `EnsureRemoteConnected` reused or opened for `info`. -/
def Connects (info : RemoteInfo) (s t : Session η) : Prop :=
  s.reuses info = true ∧ t = s ∨ s.reuses info = false ∧ Opens info s t

/-- Connecting leaves the client, the buffers and the script alone. -/
theorem Connects.frame {info : RemoteInfo} {s t : Session η} (h : Connects info s t) :
    t = { s with
      remoteSock := t.remoteSock, remoteState := t.remoteState, dials := t.dials
      resolutions := t.resolutions, nextConnection := t.nextConnection } ∧
    t.remoteSock.sent = s.remoteSock.sent := by
  rcases h with ⟨-, rfl⟩ | ⟨-, dial, endpoints, endpoint, peer, -, -, -, rfl⟩
  · exact ⟨rfl, rfl⟩
  · exact ⟨rfl, rfl⟩

/-- **What an exchange does at most**: nothing, or it serves on the connection that its remote was
reached by. -/
def Exchanged (s t : Session η) : Prop :=
  Idle s t ∨ ∃ info s₀ s₁, exchangeInfo env s = some info ∧ HeadOnly s s₀ ∧
    Connects info s₀ s₁ ∧ Serves s₁ t

theorem headOnly_of_fetched {s : Session η} {l : Link} {rx : List Octet}
    (h : Transfer s.upLink l [] rx) (htarget : l.targetPeer = s.upLink.targetPeer) :
    HeadOnly s (s.putUpLink l) := by
  have hsock : l.fromPeer = { s.clientSock with incoming := l.fromPeer.incoming } := h.fromPeer
  have hremote : l.targetPeer = s.remoteSock := htarget
  unfold HeadOnly Session.putUpLink
  rw [hremote]
  congr 1

theorem HeadOnly.idle {s t : Session η} (h : HeadOnly s t) : Idle s t := by
  rw [h]
  exact ⟨rfl, rfl, rfl, rfl, rfl, Or.inr ⟨rfl, rfl, rfl⟩⟩

theorem Loses.idle {s s₀ t : Session η} (h : HeadOnly s s₀) (h' : Loses s₀ t) : Idle s t := by
  unfold Loses at h'
  rw [h', h]
  exact ⟨rfl, rfl, rfl, rfl, rfl, Or.inl rfl⟩

/-- The reading of the request head. -/
theorem readClientRequestHeader_ends (s : Session η) : Ends (readClientRequestHeader env) s
    (fun r t => readClientRequestHeader env s = .ok r t ∧ HeadOnly s t)
    (fun _ t => HeadOnly s t) := by
  have hspec : Ends (readClientRequestHeader env) s (fun _ t => HeadOnly s t)
      (fun _ t => HeadOnly s t) := by
    refine ends_zoom ((asyncReadHeader_ends env.fuel s.upLink).mono ?_ ?_)
    · rintro (_ | ⟨parser, raw⟩) l ⟨rx, h⟩
      · exact headOnly_of_fetched h.toTransfer h.target
      · exact headOnly_of_fetched h.toTransfer h.target
    · rintro e l ⟨-, rx, h⟩
      exact headOnly_of_fetched h.toTransfer h.target
  unfold Ends at hspec ⊢
  cases hr : readClientRequestHeader env s with
  | ok r t => rw [hr] at hspec; exact ⟨rfl, hspec⟩
  | error e t => rw [hr] at hspec; exact hspec

/-- From a request with a remote on: connecting, then anything within `Serves`. -/
theorem ends_connected {α : Type} {info : RemoteInfo} {s s₀ : Session η} {a : α}
    {m : EStateM Stop (Session η) α} (hinfo : exchangeInfo env s = some info) (h₀ : HeadOnly s s₀)
    (hm : Within Serves m) : Ends (do if ← ensureRemoteConnected info then m else pure a) s₀
      (fun _ t => Exchanged env s t) fun _ t => Exchanged env s t := by
  refine ((ensureRemoteConnected_ends info s₀).mono (fun _ _ h => h) ?_).bind ?_
  · rintro e t ⟨-, h⟩
    exact Or.inl (h.idle h₀)
  rintro (_ | _) s₁ h
  · exact ends_pure (Or.inl (Loses.idle h₀ h))
  · exact (hm s₁).mono (fun _ t ht => Or.inr ⟨info, s₀, s₁, hinfo, h₀, h, ht⟩)
      fun _ t ht => Or.inr ⟨info, s₀, s₁, hinfo, h₀, h, ht⟩

theorem handleOneExchange_ends (s : Session η) : Ends (handleOneExchange env) s
    (fun _ t => Exchanged env s t) fun _ t => Exchanged env s t := by
  refine ((readClientRequestHeader_ends env s).mono (fun _ _ h => h) ?_).bind ?_
  · exact fun e t h => Or.inl h.idle
  rintro (_ | ⟨parser, raw⟩) s₀ ⟨hread, h₀⟩
  · exact ends_pure (Or.inl h₀.idle)
  have hinfo : exchangeInfo env s = parseRemoteInfo env.urls parser.header := by
    rw [exchangeInfo, hread]
  refine ends_ite (fun hconnect => ?_) fun hhttp => ?_
  · unfold handleConnectExchange
    cases hp : parseRemoteInfo env.urls parser.header with
    | none => exact ends_pure (Or.inl h₀.idle)
    | some info =>
      refine ends_connected env (hinfo.trans hp) h₀ ?_
      refine Within.bind (within_writeConnectEstablishedResponseToClient env) fun _ => ?_
      refine within_ite (fun _ => ?_) fun _ => within_pure _
      exact Within.bind (within_relayTunnelBidirectional _ _ _) fun _ => within_pure _
  · unfold handleHttpExchange
    cases hp : parseRemoteInfo env.urls parser.header with
    | none => exact ends_pure (Or.inl h₀.idle)
    | some info =>
      refine ends_connected env (hinfo.trans hp) h₀ ?_
      have hrequest : Within Serves (forwardRequest env parser raw info) :=
        within_forwardRequest env within_onUpLink within_writeToRemote serves_script parser raw info
      refine Within.bind hrequest fun r => ?_
      cases r with
      | none => exact within_pure _
      | some request => exact within_forwardResponse env parser request

end Exchanges

end ProxyPP.Http
