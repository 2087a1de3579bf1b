import ProxyPP.Http.ExchangeStreams

/-!
# ProxyPP.Http.SessionStreams — sessions as functions of streams

`sessionOn` runs a session on `Streams`: what the client and the connected remote have yet to send,
whether they close behind it, and the dials to come.  It is partial: a tunnel also depends on its
schedule, and when a remote is left with bytes of it ahead, how many of them stay in the read buffer
depends on how they came.  Where it is defined, `Run` computes it; and nothing else leaves it
undefined (`sessions_follow_streams`).
-/

namespace ProxyPP.Http

open ProxyPP ProxyPP.Lib ProxyPP.Rules

variable {η : Type}

/-! ## Definitions -/

/-- What the next exchanges depend on. -/
structure Streams (η : Type) where
  client : Bytes
  clientEof : Bool
  remote : Bytes
  remoteEof : Bool
  remoteOpen : Bool
  remoteState : RemoteConnectionState
  dials : List Dial
  script : η

def Session.streams (s : Session η) : Streams η :=
  ⟨s.upLink.ahead, s.clientSock.atEof, s.downLink.ahead, s.remoteSock.atEof, s.remoteSock.isOpen,
    s.remoteState, s.dials, s.script⟩

/-- What an exchange, or a session, comes to. -/
structure Ended (η ρ : Type) where
  result : Except Stop ρ
  toRemote : Bytes
  toClient : Bytes
  after : Streams η

/-- The open connection is one to this remote. -/
def Streams.reuses (x : Streams η) (info : RemoteInfo) : Bool :=
  x.remoteState.connected && x.remoteOpen && x.remoteState.host = info.host
    && x.remoteState.port = info.port

/-- `EnsureRemoteConnected`, unless a remote is left with bytes of it ahead. -/
def connectOn (info : RemoteInfo) (x : Streams η) : Option (Except Stop Bool × Streams η) :=
  if x.reuses info then some (.ok true, x)
  else
    let y := { x with remoteOpen := false, remoteState := ⟨[], [], false⟩ }
    match x.dials with
    | [] => some (.error .blocked, y)
    | dial :: dials =>
      match connectFirst (dial.endpoints.getD []) dial.attempts with
      | none => some (.ok false, { y with dials := dials })
      | some (_, peer) =>
        if x.remote = [] then
          some (.ok true, { y with
            remote := peer.stream, remoteEof := peer.atEof, remoteOpen := true
            remoteState := ⟨info.host, info.port, true⟩, dials := dials })
        else none

section Definitions

variable (env : Env η)

/-- The two halves of an exchange. -/
def serveOn (parser : RequestParser) (info : RemoteInfo) (x : Streams η) :
    Ended η ExchangeResult :=
  let up := requestOn env parser info x.script x.clientEof x.client
  let y := { x with client := up.rest, script := up.script }
  match up.result with
  | .error e => ⟨.error e, up.sent, [], y⟩
  | .ok none => ⟨.ok .close, up.sent, [], y⟩
  | .ok (some request) =>
    let down := responseOn env parser request y.script y.remoteEof y.remote
    ⟨down.result, up.sent, down.sent, { y with remote := down.rest, script := down.script }⟩

/-- `HandleHttpExchange` -/
def httpExchangeOn (parser : RequestParser) (x : Streams η) : Option (Ended η ExchangeResult) :=
  match parseRemoteInfo env.urls parser.header with
  | none => some ⟨.ok .close, [], [], x⟩
  | some info =>
    match connectOn info x with
    | none => none
    | some (.error e, y) => some ⟨.error e, [], [], y⟩
    | some (.ok false, y) => some ⟨.ok .close, [], [], y⟩
    | some (.ok true, y) => some (serveOn env parser info y)

/-- `HandleOneExchange`, unless it is a tunnel. -/
def exchangeOn (x : Streams η) : Option (Ended η ExchangeResult) :=
  match headOn env.beast.parseRequest x.clientEof x.client with
  | (.error e, rest) => some ⟨.error e, [], [], { x with client := rest }⟩
  | (.ok none, rest) => some ⟨.ok .close, [], [], { x with client := rest }⟩
  | (.ok (some parser), rest) =>
    if isConnect parser.header then none else httpExchangeOn env parser { x with client := rest }

/-- The loop of `Run`, for at most so many exchanges. -/
def sessionOn : ℕ → Streams η → Option (Ended η PUnit)
  | 0, _ => none
  | n + 1, x =>
    match exchangeOn env x with
    | none => none
    | some first =>
      match first.result with
      | .error e => some ⟨.error e, first.toRemote, first.toClient, first.after⟩
      | .ok .close => some ⟨.ok ⟨⟩, first.toRemote, first.toClient, first.after⟩
      | .ok .continue =>
        (sessionOn n first.after).map fun later =>
          ⟨later.result, first.toRemote ++ later.toRemote, first.toClient ++ later.toClient,
            later.after⟩

/-- The streams in front of the exchanges that `sessionOn` goes through. -/
inductive Visits (x : Streams η) : Streams η → Prop
  | here : Visits x x
  | next {y : Streams η} {e : Ended η ExchangeResult} (h : Visits x y)
      (hy : exchangeOn env y = some e) (hcontinue : e.result = .ok .continue) : Visits x e.after

/-- The next exchange is a tunnel, or opens a connection while bytes of the remote before are
ahead. -/
inductive Undetermined (x : Streams η) : Prop
  | tunnel {parser : RequestParser} {rest : Bytes}
      (hhead : headOn env.beast.parseRequest x.clientEof x.client = (.ok (some parser), rest))
      (hconnect : isConnect parser.header = true)
  | leaves {parser : RequestParser} {rest : Bytes} {info : RemoteInfo} {dial : Dial}
      {dials : List Dial}
      (hhead : headOn env.beast.parseRequest x.clientEof x.client = (.ok (some parser), rest))
      (hconnect : isConnect parser.header = false)
      (hinfo : parseRemoteInfo env.urls parser.header = some info)
      (hreuses : x.reuses info = false) (hdials : x.dials = dial :: dials)
      (hfirst : (connectFirst (dial.endpoints.getD []) dial.attempts).isSome = true)
      (hahead : x.remote ≠ [])

end Definitions

/-- The peer sends data until its script ends, and takes what it is sent. -/
def RemotePeer.Flows (peer : RemotePeer) : Prop :=
  (∀ r ∈ peer.incoming, r.ec = none ∧ r.bytes ≠ []) ∧ ∀ w ∈ peer.writes, w = .ok

/-- No operation on a socket of the session fails, now or after the dials to come. -/
structure Session.Flowing (s : Session η) : Prop where
  clientReads : s.clientSock.Delivers
  clientWrites : s.clientSock.WritesOk
  remote : s.remoteSock.isOpen = true → s.remoteSock.Delivers ∧ s.remoteSock.WritesOk
  dials : ∀ dial ∈ s.dials, ∀ peer, some peer ∈ dial.attempts → peer.Flows

/-- From `s` to `t` these bytes were sent, and `x` is to come. -/
structure Followed (s t : Session η) (toRemote toClient : Bytes) (x : Streams η) : Prop where
  flowing : t.Flowing
  remote : SentToRemote s t toRemote
  client : SentToClient s t toClient
  streams : t.streams = x

/-- With enough fuel `m` comes to what was served. -/
def ComesTo {ρ : Type} (m : ℕ → EStateM Stop (Session η) ρ) (s : Session η) (r : Ended η ρ) :
    Prop :=
  Settles m s (fun a t => r.result = .ok a ∧ Followed s t r.toRemote r.toClient r.after)
    fun e t => r.result = .error e ∧ Followed s t r.toRemote r.toClient r.after

/-! ## Connecting -/

section Connecting

variable {info : RemoteInfo} {s : Session η}

/-- What `connectOn` does where it is defined. -/
inductive ConnectsOn (info : RemoteInfo) (x : Streams η) : Except Stop Bool → Streams η → Prop
  | reuses (h : x.reuses info = true) : ConnectsOn info x (.ok true) x
  | waits (h : x.reuses info = false) (hdials : x.dials = []) :
      ConnectsOn info x (.error .blocked)
        { x with remoteOpen := false, remoteState := ⟨[], [], false⟩ }
  | fails {dial : Dial} {dials : List Dial} (h : x.reuses info = false)
      (hdials : x.dials = dial :: dials)
      (hfirst : connectFirst (dial.endpoints.getD []) dial.attempts = none) :
      ConnectsOn info x (.ok false)
        { x with remoteOpen := false, remoteState := ⟨[], [], false⟩, dials := dials }
  | opens {dial : Dial} {dials : List Dial} {endpoint : Endpoint} {peer : RemotePeer}
      (h : x.reuses info = false) (hdials : x.dials = dial :: dials)
      (hfirst : connectFirst (dial.endpoints.getD []) dial.attempts = some (endpoint, peer))
      (hnil : x.remote = []) :
      ConnectsOn info x (.ok true)
        { x with
          remote := peer.stream, remoteEof := peer.atEof, remoteOpen := true
          remoteState := ⟨info.host, info.port, true⟩, dials := dials }

theorem connectOn_cases {x y : Streams η} {r : Except Stop Bool}
    (h : connectOn info x = some (r, y)) : ConnectsOn info x r y := by
  unfold connectOn at h
  cases hreuses : x.reuses info with
  | true =>
    rw [if_pos hreuses] at h
    obtain ⟨rfl, rfl⟩ := Prod.mk.inj (Option.some.inj h)
    exact .reuses hreuses
  | false =>
    rw [hreuses, if_neg Bool.false_ne_true] at h
    cases hdials : x.dials with
    | nil =>
      rw [hdials] at h
      obtain ⟨rfl, rfl⟩ := Prod.mk.inj (Option.some.inj h)
      rw [← hdials]
      exact .waits hreuses hdials
    | cons dial dials =>
      rw [hdials] at h
      cases hfirst : connectFirst (dial.endpoints.getD []) dial.attempts with
      | none =>
        simp only [hfirst] at h
        obtain ⟨rfl, rfl⟩ := Prod.mk.inj (Option.some.inj h)
        exact .fails hreuses hdials hfirst
      | some p =>
        obtain ⟨endpoint, peer⟩ := p
        simp only [hfirst] at h
        by_cases hnil : x.remote = []
        · rw [if_pos hnil] at h
          obtain ⟨rfl, rfl⟩ := Prod.mk.inj (Option.some.inj h)
          exact .opens hreuses hdials hfirst hnil
        · rw [if_neg hnil] at h
          cases h

theorem connectOn_client {x y : Streams η} {r : Except Stop Bool}
    (h : connectOn info x = some (r, y)) : y.client = x.client := by
  cases connectOn_cases h <;> rfl

theorem connectOn_open {x y : Streams η} (h : connectOn info x = some (.ok true, y)) :
    y.remoteOpen = true := by
  cases connectOn_cases h with
  | reuses hreuses =>
    simp only [Streams.reuses, Bool.and_eq_true] at hreuses
    exact hreuses.1.1.2
  | opens => rfl

theorem closeRemote_run (s : Session η) : closeRemote s
    = .ok ⟨⟩ { s with remoteSock := s.remoteSock.close, remoteState := ⟨[], [], false⟩ } := rfl

theorem ensureRemoteConnected_waits (h : s.reuses info = false) (hdials : s.dials = []) :
    ensureRemoteConnected info s = .error .blocked
      { s with remoteSock := s.remoteSock.close, remoteState := ⟨[], [], false⟩ } := by
  rw [ensureRemoteConnected, bind_ok (get_run s), h, if_neg Bool.false_ne_true,
    bind_ok (closeRemote_run s)]
  refine bind_error ?_
  rw [resolveRemote, bind_ok (get_run _)]
  dsimp only
  rw [hdials]
  rfl

/-- A dial that does not connect: the name does not resolve, or no endpoint accepts. -/
theorem ensureRemoteConnected_fails {dial : Dial} {dials : List Dial} (h : s.reuses info = false)
    (hdials : s.dials = dial :: dials)
    (hfirst : connectFirst (dial.endpoints.getD []) dial.attempts = none) :
    Returns (ensureRemoteConnected info) s fun ok t => ok = false ∧ t.dials = dials := by
  have hresolve : ∀ u : Session η, u.dials = dial :: dials → Returns (resolveRemote info) u
      fun r t => r = none ∧ t.dials = dials ∨
        ∃ endpoints, r = some endpoints ∧ dial.endpoints = r ∧ t.dials = dial :: dials := by
    intro u hu
    refine returns_get ?_
    rw [hu]
    dsimp only
    cases hends : dial.endpoints with
    | none => exact returns_modify (returns_pure (.inl ⟨rfl, congrArg List.tail hu⟩))
    | some endpoints =>
      dsimp only
      by_cases hnil : endpoints = []
      · rw [if_pos hnil]
        exact returns_modify (returns_pure (.inl ⟨rfl, congrArg List.tail hu⟩))
      · rw [if_neg hnil]
        exact returns_modify (returns_pure (.inr ⟨endpoints, rfl, rfl, hu⟩))
  refine returns_get ?_
  rw [h, if_neg Bool.false_ne_true]
  refine Returns.after (closeRemote_run s) (Returns.bind (hresolve _ hdials) ?_)
  rintro r t (⟨rfl, ht⟩ | ⟨endpoints, rfl, hends, ht⟩)
  · exact returns_pure ⟨rfl, ht⟩
  · have hconnect : Returns (connectRemote endpoints) t
        fun ok u => ok = false ∧ u.dials = dials := by
      refine returns_get (returns_modify ?_)
      rw [hends, Option.getD_some] at hfirst
      rw [ht]
      dsimp only [List.head?_cons, Option.elim_some]
      rw [hfirst]
      exact returns_pure ⟨rfl, rfl⟩
    refine Returns.bind hconnect ?_
    rintro ok u ⟨rfl, hu⟩
    exact returns_pure ⟨rfl, hu⟩

/-- The connection was given up. -/
theorem Loses.followed {t : Session η} {dials : List Dial} (h : Loses s t) (hs : s.Flowing)
    (ht : t.dials = dials) (hdials : dials ⊆ s.dials) : Followed s t [] []
      { s.streams with remoteOpen := false, remoteState := ⟨[], [], false⟩, dials := dials } := by
  subst ht
  have hclient : t.clientSock = s.clientSock := by rw [h]
  have hremote : t.remoteSock = s.remoteSock.close := by rw [h]
  refine ⟨⟨hclient ▸ hs.clientReads, hclient ▸ hs.clientWrites, ?_, ?_⟩, ?_, ?_, ?_⟩
  · intro hopen
    rw [hremote] at hopen
    cases hopen
  · exact fun dial hd => hs.dials dial (hdials hd)
  · exact sentToRemote_nil (by rw [hremote]; rfl)
  · exact sentToClient_nil (by rw [hclient])
  · rw [h]
    rfl

/-- The next dial was connected, and nothing is buffered from the remote before. -/
theorem Opens.followed {t : Session η} {dial : Dial} {dials : List Dial}
    {endpoints : List Endpoint} {endpoint : Endpoint} {peer : RemotePeer} (h : Opens info s t)
    (hs : s.Flowing) (hdials : s.dials = dial :: dials) (hends : dial.endpoints = some endpoints)
    (hfirst : connectFirst endpoints dial.attempts = some (endpoint, peer))
    (hnil : s.downLink.ahead = []) : Followed s t [] []
      { s.streams with
        remote := peer.stream, remoteEof := peer.atEof, remoteOpen := true
        remoteState := ⟨info.host, info.port, true⟩, dials := dials } := by
  obtain ⟨dial', endpoints', endpoint', peer', hhead, hends', hfirst', ht⟩ := h
  rw [hdials, List.head?_cons] at hhead
  obtain rfl := Option.some.inj hhead
  rw [hends] at hends'
  obtain rfl := Option.some.inj hends'
  rw [hfirst] at hfirst'
  obtain ⟨rfl, rfl⟩ := Prod.mk.inj (Option.some.inj hfirst')
  have hpeer := hs.dials dial (by rw [hdials]; exact List.mem_cons_self) peer
    (mem_of_connectFirst hfirst).2
  have hbuf : s.remoteReadBuffer = [] := (nothing_ahead.mp hnil).1
  rw [ht, hdials, List.tail_cons]
  refine ⟨⟨hs.clientReads, hs.clientWrites, fun _ => ⟨⟨rfl, hpeer.1⟩, rfl, hpeer.2⟩, ?_⟩,
    sentToRemote_nil rfl, sentToClient_nil rfl, ?_⟩
  · exact fun d hd => hs.dials d (by rw [hdials]; exact List.mem_cons_of_mem _ hd)
  · have hahead : (Session.downLink { s with
        remoteSock := ⟨true, ⟨s.nextConnection, endpoint⟩, peer.incoming, peer.atEof, peer.writes,
          s.remoteSock.sent⟩ }).ahead = peer.stream := by
      rw [Link.ahead, Session.downLink, hbuf]
      rfl
    rw [← hahead]
    rfl

theorem Followed.refl (hs : s.Flowing) : Followed s s [] [] s.streams :=
  ⟨hs, sentToRemote_nil rfl, sentToClient_nil rfl, rfl⟩

theorem Session.Flowing.links (hs : s.Flowing) (h : s.remoteSock.isOpen = true) :
    s.upLink.Flows ∧ s.downLink.Flows :=
  ⟨⟨hs.clientReads, (hs.remote h).2⟩, ⟨(hs.remote h).1, hs.clientWrites⟩⟩

/-- **`EnsureRemoteConnected`** comes to what `connectOn` says. -/
theorem ensureRemoteConnected_computes (hs : s.Flowing) {r : Except Stop Bool} {x : Streams η}
    (h : connectOn info s.streams = some (r, x)) :
    ComesTo (fun _ => ensureRemoteConnected info) s ⟨r, [], [], x⟩ := by
  cases connectOn_cases h with
  | reuses hreuses =>
    exact settles_ok (ensureRemoteConnected_reuses hreuses) ⟨rfl, Followed.refl hs⟩
  | waits hreuses hdials =>
    have hrun := ensureRemoteConnected_waits hreuses hdials
    have hloses := ((ensureRemoteConnected_ends info s).error hrun).2
    exact settles_error hrun ⟨rfl, hloses.followed hs rfl (List.Subset.refl _)⟩
  | fails hreuses hdials hfirst =>
    obtain ⟨ok, t, hrun, rfl, ht⟩ := ensureRemoteConnected_fails hreuses hdials hfirst
    have hloses : Loses s t := (ensureRemoteConnected_ends info s).ok hrun
    have hsub : s.dials = _ :: _ := hdials
    refine settles_ok hrun ⟨rfl, hloses.followed hs ht ?_⟩
    rw [hsub]
    exact List.subset_cons_self _ _
  | @opens dial dials endpoint peer hreuses hdials hfirst hnil =>
    cases hends : dial.endpoints with
    | none =>
      rw [hends] at hfirst
      cases hfirst
    | some endpoints =>
      rw [hends, Option.getD_some] at hfirst
      obtain ⟨ok, t, hrun, rfl⟩ := ensureRemoteConnected_opens hreuses hdials hends hfirst
      have hopens : Opens info s t := by
        rcases (ensureRemoteConnected_ends info s).ok hrun with ⟨hr, -⟩ | ⟨-, ho⟩
        · exact absurd hr (Bool.eq_false_iff.mp hreuses)
        · exact ho
      exact settles_ok hrun ⟨rfl, hopens.followed hs hdials hends hfirst hnil⟩

end Connecting

/-! ## Exchanges -/

section Exchanges

variable {env : Env η} {s t u : Session η}

theorem Followed.trans {up up' down down' : Bytes} {x y : Streams η} (h : Followed s t up down x)
    (h' : Followed t u up' down' y) : Followed s u (up ++ up') (down ++ down') y :=
  ⟨h'.flowing, h.remote.trans h'.remote, h.client.trans h'.client, h'.streams⟩

theorem Passed.upstream {ρ : Type} {o : Outcome η ρ} (h : Passed Session.upLink o s t)
    (hu : Upstream s t) (hs : s.Flowing) (hopen : s.remoteSock.isOpen = true) :
    Followed s t o.sent [] { s.streams with client := o.rest, script := o.script } := by
  refine ⟨⟨h.flows.source, ?_, fun _ => ⟨?_, h.flows.target⟩, ?_⟩, h.sent,
    sentToClient_nil hu.client_sent, ?_⟩
  · rw [hu]
    exact hs.clientWrites
  · rw [hu]
    exact (hs.remote hopen).1
  · rw [hu]
    exact hs.dials
  · rw [← h.rest, ← h.script, hu]
    rfl

theorem Passed.downstream {ρ : Type} {o : Outcome η ρ} (h : Passed Session.downLink o s t)
    (hd : Downstream s t) (hs : s.Flowing) (hopen : s.remoteSock.isOpen = true) :
    Followed s t [] o.sent { s.streams with remote := o.rest, script := o.script } := by
  refine ⟨⟨?_, h.flows.target, fun _ => ⟨h.flows.source, ?_⟩, ?_⟩,
    sentToRemote_nil hd.remote_sent, h.sent, ?_⟩
  · rw [hd]
    exact hs.clientReads
  · rw [hd]
    exact (hs.remote hopen).2
  · rw [hd]
    exact hs.dials
  · rw [← h.rest, ← h.script, hd]
    rfl

/-- The two halves. -/
theorem serve_computes (hp : Steady env.beast.parseResponse) (parser : RequestParser)
    (raw : List Octet) (info : RemoteInfo) (hs : s.Flowing) (hopen : s.remoteSock.isOpen = true) :
    ComesTo (fun fuel => do
        match ← forwardRequest (env.withFuel fuel) parser raw info with
        | none => pure .close
        | some request => forwardResponse (env.withFuel fuel) parser request) s
      (serveOn env parser info s.streams) := by
  have hup := (forwardRequest_computes env parser raw info (hs.links hopen).1).ends
    fun fuel => upstream_forwardRequest (env.withFuel fuel) parser raw info s
  simp only [serveOn, Session.streams]
  generalize requestOn env parser info s.script s.clientSock.atEof s.upLink.ahead = up at hup ⊢
  rcases up with ⟨result, sent, rest, script⟩
  refine hup.bind ?_ ?_
  · rintro e t ⟨⟨rfl, ht⟩, hu⟩
    exact ⟨rfl, ht.upstream hu hs hopen⟩
  rintro (_ | request) t ⟨⟨rfl, ht⟩, hu⟩
  · exact settles_ok rfl ⟨rfl, ht.upstream hu hs hopen⟩
  have hfirst := ht.upstream hu hs hopen
  have hopen' : t.remoteSock.isOpen = true := hu.remote_isOpen.trans hopen
  have hdown := (forwardResponse_computes hp parser request (hfirst.flowing.links hopen').2).ends
    fun fuel => downstream_forwardResponse (env.withFuel fuel) parser request t
  have hat : t.remoteSock.atEof = s.remoteSock.atEof := by rw [hu]
  have hscript : t.script = script := ht.script
  rw [hscript, hat, hu.downLink_ahead] at hdown
  dsimp only
  generalize responseOn env parser request script s.remoteSock.atEof s.downLink.ahead = down
    at hdown ⊢
  rcases down with ⟨result, sent', rest', script'⟩
  have hboth : ∀ v, Passed Session.downLink ⟨result, sent', rest', script'⟩ t v →
      Downstream t v → Followed s v sent sent'
        { s.streams with client := rest, remote := rest', script := script' } := by
    intro v hv hd
    have hlast := hfirst.trans (hv.downstream hd hfirst.flowing hopen')
    rw [List.append_nil, hfirst.streams] at hlast
    exact hlast
  refine hdown.mono ?_ ?_
  · rintro r v ⟨⟨hr, hv⟩, hd⟩
    exact ⟨hr, hboth v hv hd⟩
  · rintro e v ⟨⟨he, hv⟩, hd⟩
    exact ⟨he, hboth v hv hd⟩

theorem ReadOn.followed (h : ReadOn Session.upLink s t) (hu : Upstream s t) (hs : s.Flowing)
    {rest : Bytes} (hrest : t.upLink.ahead = rest) :
    Followed s t [] [] { s.streams with client := rest } := by
  have hremote : t.remoteSock = s.remoteSock := h.target
  have hscript : t.script = s.script := h.script
  refine ⟨⟨h.source, ?_, ?_, ?_⟩, sentToRemote_nil (by rw [hremote]),
    sentToClient_nil hu.client_sent, ?_⟩
  · rw [hu]
    exact hs.clientWrites
  · rw [hremote]
    exact hs.remote
  · rw [hu]
    exact hs.dials
  · rw [← hrest]
    have hstreams : t.streams
        = { s.streams with client := t.upLink.ahead, script := t.script } := by
      rw [hu]
      rfl
    rw [hstreams, hscript]
    rfl

/-- A client head on its way. -/
theorem readClientRequestHeader_computes (hp : Steady env.beast.parseRequest) (hs : s.Flowing) :
    Settles (fun fuel => readClientRequestHeader (env.withFuel fuel)) s
      (fun q t => ∃ rest, headOn env.beast.parseRequest s.streams.clientEof s.streams.client
          = (.ok (q.map Prod.fst), rest) ∧ Followed s t [] [] { s.streams with client := rest })
      fun e t => ∃ rest, headOn env.beast.parseRequest s.streams.clientEof s.streams.client
          = (.error e, rest) ∧ Followed s t [] [] { s.streams with client := rest } := by
  have hread : Settles (fun fuel => readClientRequestHeader (env.withFuel fuel)) s
      (fun q t => ReadOn Session.upLink s t ∧ headOn env.beast.parseRequest s.clientSock.atEof
        s.upLink.ahead = (.ok (q.map Prod.fst), t.upLink.ahead))
      fun e t => ReadOn Session.upLink s t ∧ headOn env.beast.parseRequest s.clientSock.atEof
        s.upLink.ahead = (.error e, t.upLink.ahead) :=
    readHeader_computes Session.putUpLink hp hs.clientReads (fun _ => rfl) fun _ => rfl
  have hframe : ∀ fuel, Within Upstream (readClientRequestHeader (env.withFuel fuel)) := fun fuel =>
    (within_asyncReadHeader fuel).zoom fun _ _ => upstream_up
  refine (hread.ends fun fuel => hframe fuel s).mono ?_ ?_
  · rintro q t ⟨⟨ht, hhead⟩, hu⟩
    exact ⟨t.upLink.ahead, hhead, ht.followed hu hs rfl⟩
  · rintro e t ⟨⟨ht, hhead⟩, hu⟩
    exact ⟨t.upLink.ahead, hhead, ht.followed hu hs rfl⟩

/-- A result that comes after a step that sends nothing. -/
theorem ComesTo.after {ρ : Type} {m : ℕ → EStateM Stop (Session η) ρ} {x : Streams η}
    {r : Ended η ρ} (h : ComesTo m t r) (ht : Followed s t [] [] x) :
    Settles m t (fun a u => r.result = .ok a ∧ Followed s u r.toRemote r.toClient r.after)
      fun e u => r.result = .error e ∧ Followed s u r.toRemote r.toClient r.after :=
  h.mono (fun _ _ hu => ⟨hu.1, ht.trans hu.2⟩) fun _ _ hu => ⟨hu.1, ht.trans hu.2⟩

theorem handleHttpExchange_computes (hp : Steady env.beast.parseResponse) (parser : RequestParser)
    (raw : List Octet) (hs : s.Flowing) {e : Ended η ExchangeResult}
    (h : httpExchangeOn env parser s.streams = some e) :
    ComesTo (fun fuel => handleHttpExchange (env.withFuel fuel) parser raw) s e := by
  have hurls : ∀ fuel, (env.withFuel fuel).urls = env.urls := fun _ => rfl
  unfold httpExchangeOn at h
  unfold handleHttpExchange
  cases hinfo : parseRemoteInfo env.urls parser.header with
  | none =>
    rw [hinfo] at h
    obtain rfl := Option.some.inj h
    simp only [hurls, hinfo]
    exact settles_ok rfl ⟨rfl, Followed.refl hs⟩
  | some info =>
    rw [hinfo] at h
    dsimp only at h
    cases hconnect : connectOn info s.streams with
    | none =>
      rw [hconnect] at h
      cases h
    | some p =>
      obtain ⟨r, x⟩ := p
      rw [hconnect] at h
      have hensure := ensureRemoteConnected_computes hs hconnect
      simp only [hurls, hinfo]
      rcases r with stop | ok
      · obtain rfl := Option.some.inj h
        refine hensure.bind ?_ ?_
        · rintro e t ⟨hr, ht⟩
          obtain rfl : stop = e := Except.error.inj hr
          exact ⟨rfl, ht⟩
        · rintro ok t ⟨hr, -⟩
          cases hr
      refine hensure.bind ?_ ?_
      · rintro stop t ⟨hr, -⟩
        cases hr
      rintro ok' t ⟨hr, ht⟩
      obtain rfl : ok = ok' := Except.ok.inj hr
      cases ok with
      | false =>
        obtain rfl := Option.some.inj h
        exact settles_ok rfl ⟨rfl, ht⟩
      | true =>
        obtain rfl := Option.some.inj h
        have hx : t.streams = x := ht.streams
        have hopen : t.remoteSock.isOpen = true := by
          show t.streams.remoteOpen = true
          rw [hx]
          exact connectOn_open hconnect
        rw [← hx] at ht ⊢
        simp only [if_true]
        exact (serve_computes hp parser raw info ht.flowing hopen).after ht

theorem handleOneExchange_computes (hreq : Steady env.beast.parseRequest)
    (hres : Steady env.beast.parseResponse) (hs : s.Flowing) {e : Ended η ExchangeResult}
    (h : exchangeOn env s.streams = some e) :
    ComesTo (fun fuel => handleOneExchange (env.withFuel fuel)) s e := by
  unfold exchangeOn at h
  refine (readClientRequestHeader_computes hreq hs).bind ?_ ?_
  · rintro stop t ⟨rest, hhead, ht⟩
    rw [hhead] at h
    obtain rfl := Option.some.inj h
    exact ⟨rfl, ht⟩
  rintro (_ | ⟨parser, raw⟩) t ⟨rest, hhead, ht⟩
  · rw [hhead] at h
    obtain rfl := Option.some.inj h
    exact settles_ok rfl ⟨rfl, ht⟩
  rw [hhead] at h
  dsimp only [Option.map_some] at h ⊢
  by_cases hconnect : isConnect parser.header = true
  · rw [if_pos hconnect] at h
    cases h
  · rw [if_neg hconnect, ← ht.streams] at h
    simp only [if_neg hconnect]
    exact (handleHttpExchange_computes hres parser raw ht.flowing h).after ht

end Exchanges

/-! ## Runs -/

section Runs

variable {env : Env η} {s : Session η}

/-- In front of an exchange of the session: these bytes were sent, and the rest of it is to come. -/
def Midway (env : Env η) (s : Session η) (r : Ended η PUnit) (n : ℕ) (t : Session η) : Prop :=
  ∃ up down later, Followed s t up down t.streams ∧ sessionOn env n t.streams = some later ∧
    r = ⟨later.result, up ++ later.toRemote, down ++ later.toClient, later.after⟩

theorem runStep_computes (hreq : Steady env.beast.parseRequest)
    (hres : Steady env.beast.parseResponse) {r : Ended η PUnit} {n : ℕ} {t : Session η}
    (h : Midway env s r n t) :
    Settles (fun fuel => runStep (env.withFuel fuel) ()) t
      (fun q u => Sum.elim (fun (_ : Unit) => ∃ k, k < n ∧ Midway env s r k u)
        (fun (_ : Unit) => r.result = .ok ⟨⟩ ∧ Followed s u r.toRemote r.toClient r.after) q)
      fun e u => r.result = .error e ∧ Followed s u r.toRemote r.toClient r.after := by
  obtain ⟨up, down, later, ht, hlater, rfl⟩ := h
  cases n with
  | zero => cases hlater
  | succ n =>
    unfold sessionOn at hlater
    cases hfirst : exchangeOn env t.streams with
    | none =>
      rw [hfirst] at hlater
      cases hlater
    | some first =>
      rw [hfirst] at hlater
      have hexchange := handleOneExchange_computes hreq hres ht.flowing hfirst
      rcases first with ⟨result, up', down', after⟩
      refine hexchange.bind ?_ ?_
      · rintro e u ⟨rfl, hu⟩
        obtain rfl := Option.some.inj hlater
        exact ⟨rfl, ht.trans hu⟩
      rintro (_ | _) u ⟨rfl, hu⟩
      · obtain ⟨rest, hrest, rfl⟩ := Option.map_eq_some_iff.mp hlater
        refine settles_ok rfl ⟨n, Nat.lt_succ_self n, up ++ up', down ++ down', rest, ?_, ?_, ?_⟩
        · have hboth := ht.trans hu
          rwa [← hu.streams] at hboth
        · rw [hu.streams]
          exact hrest
        · rw [List.append_assoc, List.append_assoc]
      · obtain rfl := Option.some.inj hlater
        exact settles_ok rfl ⟨rfl, ht.trans hu⟩

/-- `Close` leaves what was sent and what is ahead alone. -/
theorem close_returns (s : Session η) : Returns close s fun _ t =>
    t.clientSock.sent = s.clientSock.sent ∧ t.remoteSock.sent = s.remoteSock.sent ∧
    t.upLink.ahead = s.upLink.ahead ∧ t.downLink.ahead = s.downLink.ahead ∧
    t.script = s.script := by
  refine ⟨⟨⟩, _, close_run s, ?_⟩
  by_cases hclosed : s.closed = true
  · rw [if_pos hclosed]
    exact ⟨rfl, rfl, rfl, rfl, rfl⟩
  · rw [if_neg hclosed]
    exact ⟨rfl, rfl, rfl, rfl, rfl⟩

/-- From `s` to `t` a run sent and left what it comes to. -/
structure Accounted (s t : Session η) (r : Ended η PUnit) : Prop where
  toRemote : SentToRemote s t r.toRemote
  toClient : SentToClient s t r.toClient
  client : t.upLink.ahead = r.after.client
  remote : t.downLink.ahead = r.after.remote
  script : t.script = r.after.script

theorem Followed.accounted {t : Session η} {r : Ended η PUnit}
    (h : Followed s t r.toRemote r.toClient r.after) : Accounted s t r := by
  refine ⟨h.remote, h.client, ?_, ?_, ?_⟩
  · rw [← h.streams]
    rfl
  · rw [← h.streams]
    rfl
  · rw [← h.streams]
    rfl

theorem Accounted.closed {t : Session η} {r : Ended η PUnit} (h : Accounted s t r) :
    Returns close t fun _ u => Accounted s u r := by
  refine (close_returns t).mono ?_
  rintro - u ⟨hclient, hremote, hup, hdown, hscript⟩
  refine ⟨h.toRemote.trans_nil hremote, ?_, hup.trans h.client, hdown.trans h.remote,
    hscript.trans h.script⟩
  have hsent := h.toClient.trans (sentToClient_nil hclient)
  rwa [List.append_nil] at hsent

end Runs

/-! ### Where a session is undefined -/

section Defined

variable {env : Env η}

theorem connectOn_eq_none_iff {info : RemoteInfo} {x : Streams η} :
    connectOn info x = none ↔ x.reuses info = false ∧ (∃ dial dials, x.dials = dial :: dials ∧
      (connectFirst (dial.endpoints.getD []) dial.attempts).isSome = true) ∧ x.remote ≠ [] := by
  unfold connectOn
  cases hreuses : x.reuses info with
  | true => simp
  | false =>
    cases hdials : x.dials with
    | nil => simp
    | cons dial dials =>
      cases hfirst : connectFirst (dial.endpoints.getD []) dial.attempts with
      | none => simp [hfirst]
      | some p => simp [hfirst]

theorem httpExchangeOn_eq_none_iff {parser : RequestParser} {x : Streams η} :
    httpExchangeOn env parser x = none ↔
      ∃ info, parseRemoteInfo env.urls parser.header = some info ∧ connectOn info x = none := by
  unfold httpExchangeOn
  cases hinfo : parseRemoteInfo env.urls parser.header with
  | none => simp
  | some info =>
    cases hconnect : connectOn info x with
    | none => simp [hconnect]
    | some p =>
      rcases p with ⟨stop | ok, y⟩
      · simp [hconnect]
      · cases ok <;> simp [hconnect]

theorem exchangeOn_eq_none_iff {x : Streams η} :
    exchangeOn env x = none ↔ Undetermined env x := by
  constructor
  · intro h
    unfold exchangeOn at h
    rcases hhead : headOn env.beast.parseRequest x.clientEof x.client with ⟨stop | parsed, rest⟩
    · rw [hhead] at h
      cases h
    rw [hhead] at h
    cases parsed with
    | none => cases h
    | some parser =>
      cases hconnect : isConnect parser.header with
      | true => exact .tunnel hhead hconnect
      | false =>
        dsimp only at h
        rw [hconnect, if_neg Bool.false_ne_true, httpExchangeOn_eq_none_iff] at h
        obtain ⟨info, hinfo, hnone⟩ := h
        obtain ⟨hreuses, ⟨dial, dials, hdials, hfirst⟩, hahead⟩ := connectOn_eq_none_iff.mp hnone
        exact .leaves hhead hconnect hinfo hreuses hdials hfirst hahead
  · intro h
    unfold exchangeOn
    cases h with
    | tunnel hhead hconnect =>
      rw [hhead]
      exact if_pos hconnect
    | @leaves parser rest info dial dials hhead hconnect hinfo hreuses hdials hfirst hahead =>
      rw [hhead]
      dsimp only
      rw [hconnect, if_neg Bool.false_ne_true, httpExchangeOn_eq_none_iff]
      refine ⟨info, hinfo, connectOn_eq_none_iff.mpr ⟨hreuses, ?_, hahead⟩⟩
      exact ⟨dial, dials, hdials, hfirst⟩

theorem Visits.cons {x y : Streams η} {e : Ended η ExchangeResult}
    (hx : exchangeOn env x = some e) (hcontinue : e.result = .ok .continue)
    (h : Visits env e.after y) : Visits env x y := by
  induction h with
  | here => exact .next .here hx hcontinue
  | next _ hy hcontinue' ih => exact ih.next hy hcontinue'

theorem Visits.cases_head {x y : Streams η} (h : Visits env x y) :
    y = x ∨ ∃ e, exchangeOn env x = some e ∧ e.result = .ok .continue ∧ Visits env e.after y := by
  induction h with
  | here => exact Or.inl rfl
  | @next z e _ hz hcontinue ih =>
    rcases ih with rfl | ⟨first, hx, hfirst, hvisits⟩
    · exact Or.inr ⟨e, hz, hcontinue, .here⟩
    · exact Or.inr ⟨first, hx, hfirst, hvisits.next hz hcontinue⟩

theorem requestOn_rest_le (parser : RequestParser) (info : RemoteInfo) (script : η) (atEof : Bool)
    (stream : Bytes) :
    (requestOn env parser info script atEof stream).rest.length ≤ stream.length := by
  unfold requestOn
  cases buildRemoteRequestHeader env.beast parser.header info with
  | error what => exact Nat.le_refl _
  | ok built =>
    dsimp only
    generalize ruledRequest env.ruleEngine env.ruleHttpConfig ⟨script, built⟩ = ruled
    cases remoteRequest env.beast ruled.message with
    | error what => exact Nat.le_refl _
    | ok request =>
      show (requestBodyOn (determineRequestBodyInfo parser) atEof stream).2.length ≤ stream.length
      rcases determineRequestBodyInfo parser with ⟨framing, contentLength⟩
      cases framing with
      | contentLength => exact exactlyOn_rest_le contentLength atEof stream
      | chunked => exact chunkedOn_rest_le atEof stream
      | none => exact Nat.le_refl _

theorem serveOn_client_le (parser : RequestParser) (info : RemoteInfo) (x : Streams η) :
    (serveOn env parser info x).after.client.length ≤ x.client.length := by
  have hrest : (requestOn env parser info x.script x.clientEof x.client).rest.length
      ≤ x.client.length := requestOn_rest_le _ _ _ _ _
  unfold serveOn
  dsimp only
  cases (requestOn env parser info x.script x.clientEof x.client).result with
  | error e => exact hrest
  | ok request =>
    cases request with
    | none => exact hrest
    | some request => exact hrest

theorem httpExchangeOn_client_le {parser : RequestParser} {x : Streams η}
    {e : Ended η ExchangeResult} (h : httpExchangeOn env parser x = some e) :
    e.after.client.length ≤ x.client.length := by
  unfold httpExchangeOn at h
  cases hinfo : parseRemoteInfo env.urls parser.header with
  | none =>
    rw [hinfo] at h
    obtain rfl := Option.some.inj h
    exact Nat.le_refl _
  | some info =>
    rw [hinfo] at h
    dsimp only at h
    cases hconnect : connectOn info x with
    | none =>
      rw [hconnect] at h
      cases h
    | some p =>
      obtain ⟨r, y⟩ := p
      rw [hconnect] at h
      have hy := congrArg List.length (connectOn_client hconnect)
      rcases r with stop | ok
      · obtain rfl := Option.some.inj h
        exact hy.le
      · cases ok with
        | false =>
          obtain rfl := Option.some.inj h
          exact hy.le
        | true =>
          obtain rfl := Option.some.inj h
          exact (serveOn_client_le parser info y).trans hy.le

variable (hpos : ∀ {bytes parser consumed}, env.beast.parseRequest bytes = .done parser consumed →
  0 < consumed)

include hpos

/-- An exchange after which the session goes on has taken a head off the client's stream. -/
theorem exchangeOn_client_lt {x : Streams η} {e : Ended η ExchangeResult}
    (h : exchangeOn env x = some e) (hcontinue : e.result = .ok .continue) :
    e.after.client.length < x.client.length := by
  unfold exchangeOn headOn at h
  by_cases hnil : x.client = []
  · rw [if_pos hnil] at h
    cases hat : x.clientEof with
    | false =>
      rw [hat] at h
      obtain rfl := Option.some.inj h
      cases hcontinue
    | true =>
      rw [hat] at h
      obtain rfl := Option.some.inj h
      cases hcontinue
  rw [if_neg hnil] at h
  cases hparse : env.beast.parseRequest x.client with
  | needMore =>
    rw [hparse] at h
    cases hat : x.clientEof with
    | false =>
      rw [hat] at h
      obtain rfl := Option.some.inj h
      cases hcontinue
    | true =>
      rw [hat] at h
      obtain rfl := Option.some.inj h
      cases hcontinue
  | failed =>
    rw [hparse] at h
    obtain rfl := Option.some.inj h
    cases hcontinue
  | done parser consumed =>
    rw [hparse] at h
    dsimp only at h
    by_cases hconnect : isConnect parser.header = true
    · rw [if_pos hconnect] at h
      cases h
    rw [if_neg hconnect] at h
    have hle := httpExchangeOn_client_le h
    have hlen := List.length_pos_iff.mpr hnil
    have hconsumed := hpos hparse
    dsimp only at hle
    rw [List.length_drop] at hle
    omega

theorem sessionOn_succ {n : ℕ} {x : Streams η} (h : x.client.length < n) :
    sessionOn env (n + 1) x = sessionOn env n x := by
  induction n generalizing x with
  | zero => omega
  | succ n ih =>
    unfold sessionOn
    cases hfirst : exchangeOn env x with
    | none => rfl
    | some first =>
      dsimp only
      cases hresult : first.result with
      | error e => rfl
      | ok r =>
        cases r with
        | close => rfl
        | «continue» =>
          have hlt := exchangeOn_client_lt hpos hfirst hresult
          dsimp only
          rw [ih (by omega)]

/-- **The bound is no restriction.**  As many exchanges as there are bytes are enough. -/
theorem sessionOn_enough {n : ℕ} {x : Streams η} (h : x.client.length < n) :
    sessionOn env n x = sessionOn env (x.client.length + 1) x := by
  induction n, h using Nat.le_induction with
  | base => rfl
  | succ n hle ih => exact (sessionOn_succ hpos hle).trans ih

/-- With that many exchanges, a session is undefined where an exchange that it comes to is. -/
theorem sessionOn_eq_none_iff {n : ℕ} {x : Streams η} (h : x.client.length < n) :
    sessionOn env n x = none ↔ ∃ y, Visits env x y ∧ Undetermined env y := by
  induction n generalizing x with
  | zero => omega
  | succ n ih =>
    unfold sessionOn
    cases hfirst : exchangeOn env x with
    | none => exact iff_of_true rfl ⟨x, .here, exchangeOn_eq_none_iff.mp hfirst⟩
    | some first =>
      have hdetermined : ¬ Undetermined env x := by
        rw [← exchangeOn_eq_none_iff, hfirst]
        simp
      have hstays : first.result ≠ .ok .continue →
          ¬ ∃ y, Visits env x y ∧ Undetermined env y := by
        rintro hne ⟨y, hvisits, hy⟩
        rcases hvisits.cases_head with rfl | ⟨e, he, hcontinue, -⟩
        · exact hdetermined hy
        · rw [hfirst] at he
          obtain rfl := Option.some.inj he
          exact hne hcontinue
      dsimp only
      cases hresult : first.result with
      | error e => exact iff_of_false (by simp) (hstays (by simp [hresult]))
      | ok q =>
        cases q with
        | close => exact iff_of_false (by simp) (hstays (by simp [hresult]))
        | «continue» =>
          have hlt := exchangeOn_client_lt hpos hfirst hresult
          dsimp only
          rw [Option.map_eq_none_iff, ih (by omega)]
          constructor
          · rintro ⟨y, hvisits, hy⟩
            exact ⟨y, hvisits.cons hfirst hresult, hy⟩
          · rintro ⟨y, hvisits, hy⟩
            rcases hvisits.cases_head with rfl | ⟨e, he, -, hlater⟩
            · exact absurd hy hdetermined
            · rw [hfirst] at he
              obtain rfl := Option.some.inj he
              exact ⟨y, hlater, hy⟩

end Defined

/-- **Sessions follow streams.**  Where `sessionOn` says what becomes of a session, `Run` comes to
that, however the streams are cut.  If the request parser takes a byte for each head, as many
exchanges as the client has bytes, and one more, are enough; with these `sessionOn` is undefined
only where it comes to a tunnel, or to a remote that is left with bytes of it ahead. -/
theorem sessions_follow_streams (env : Env η) (hreq : Steady env.beast.parseRequest)
    (hres : Steady env.beast.parseResponse) (s : Session η) (hs : s.Flowing) :
    (∀ n r, sessionOn env n s.streams = some r →
      Settles (fun fuel => run (env.withFuel fuel)) s
        (fun a t => r.result = .ok a ∧ Accounted s t r)
        fun e t => r.result = .error e ∧ Accounted s t r) ∧
    ((∀ bytes parser consumed, env.beast.parseRequest bytes = .done parser consumed →
        0 < consumed) →
      (∀ n, s.streams.client.length < n →
        sessionOn env n s.streams = sessionOn env (s.streams.client.length + 1) s.streams) ∧
      (sessionOn env (s.streams.client.length + 1) s.streams = none ↔
        ∃ x, Visits env s.streams x ∧ Undetermined env x)) := by
  constructor
  · intro n r h
    have hstart : Midway env s r n s := ⟨[], [], r, Followed.refl hs, h, rfl⟩
    have hloop : Settles (fun fuel => whileLoop .outOfFuel (runStep (env.withFuel fuel)) fuel ()) s
        (fun (_ : Unit) t => r.result = .ok ⟨⟩ ∧ Followed s t r.toRemote r.toClient r.after)
        fun e t => r.result = .error e ∧ Followed s t r.toRemote r.toClient r.after :=
      settles_whileLoop_ranked (fun n (_ : Unit) t => Midway env s r n t)
        (fun _ _ _ hmid => runStep_computes hreq hres hmid) hstart
    refine Settles.bind hloop ?_ ?_
    · rintro e t ⟨he, ht⟩
      exact ⟨he, ht.accounted⟩
    · rintro - t ⟨hok, ht⟩
      obtain ⟨a, u, hclose, hu⟩ := ht.accounted.closed
      exact settles_ok hclose ⟨hok, hu⟩
  · intro hpos
    exact ⟨fun n hn => sessionOn_enough (hpos _ _ _) hn,
      sessionOn_eq_none_iff (hpos _ _ _) (Nat.lt_succ_self _)⟩

/-! ### A session with a table of heads -/

section Table

variable {α : Type} {heads : List (Bytes × α)}

/-- The parser of a table whose heads are not cut off from one another. -/
theorem HeadTable.steady
    (hfree : ∀ h ∈ heads, ∀ h' ∈ heads, h.1 <+: h'.1 → h.1 = h'.1) :
    Steady (HeadTable.parse heads) := by
  have hcmp : ∀ {buffer rest : Bytes} {h : Bytes × α}, h.1 <+: buffer ++ rest →
      h.1 <+: buffer ∨ buffer <+: h.1 := fun hpre =>
    List.prefix_or_prefix_of_prefix hpre (List.prefix_append _ _)
  constructor
  · intro buffer value consumed h
    unfold HeadTable.parse at h
    cases hf : heads.find? (fun h => h.1.isPrefixOf buffer) with
    | none =>
      rw [hf] at h
      by_cases hany : heads.any (fun h => buffer.isPrefixOf h.1) = true
      · simp only [hany, if_true] at h
        cases h
      · simp only [hany] at h
        cases h
    | some head =>
      rw [hf] at h
      obtain ⟨rfl, rfl⟩ := ParseResult.done.inj h
      obtain ⟨hhead, before, after, rfl, hbefore⟩ := List.find?_eq_some_iff_append.mp hf
      have hpre : head.1 <+: buffer := List.isPrefixOf_iff_prefix.mp hhead
      refine ⟨hpre.length_le, fun rest => ?_⟩
      have hfind : (before ++ head :: after).find? (fun h => h.1.isPrefixOf (buffer ++ rest))
          = some head := by
        refine List.find?_eq_some_iff_append.mpr ⟨?_, before, after, rfl, fun a ha => ?_⟩
        · exact List.isPrefixOf_iff_prefix.mpr (hpre.trans (List.prefix_append _ _))
        · by_contra hcontra
          have hno : ¬ a.1 <+: buffer := by
            intro hp
            have hfalse := hbefore a ha
            rw [List.isPrefixOf_iff_prefix.mpr hp] at hfalse
            cases hfalse
          have hyes : a.1 <+: buffer ++ rest := by simpa using hcontra
          have hlong := (hcmp hyes).resolve_left hno
          have heq := hfree head (by simp) a (by simp [ha]) (hpre.trans hlong)
          exact hno (heq ▸ hpre)
      rw [HeadTable.parse, hfind]
  · intro buffer h rest
    unfold HeadTable.parse at h
    cases hf : heads.find? (fun h => h.1.isPrefixOf buffer) with
    | some head =>
      rw [hf] at h
      cases h
    | none =>
      rw [hf] at h
      by_cases hany : heads.any (fun h => buffer.isPrefixOf h.1) = true
      · simp only [hany, if_true] at h
        cases h
      · have hshort : ∀ a ∈ heads, ¬ a.1 <+: buffer := by simpa using hf
        have hlong : ∀ a ∈ heads, ¬ buffer <+: a.1 := by simpa using hany
        have hfind : heads.find? (fun h => h.1.isPrefixOf (buffer ++ rest)) = none := by
          refine List.find?_eq_none.mpr fun a ha hyes => ?_
          rcases hcmp (List.isPrefixOf_iff_prefix.mp hyes) with hp | hp
          · exact hshort a ha hp
          · exact hlong a ha hp
        have hnone : heads.any (fun h => (buffer ++ rest).isPrefixOf h.1) = false := by
          refine List.any_eq_false.mpr fun a ha hyes => hlong a ha ?_
          exact (List.prefix_append _ _).trans (List.isPrefixOf_iff_prefix.mp hyes)
        rw [HeadTable.parse, hfind, hnone]
        rfl

theorem HeadTable.takes (hne : ∀ h ∈ heads, h.1 ≠ []) {buffer : Bytes} {value : α}
    {consumed : ℕ} (h : HeadTable.parse heads buffer = .done value consumed) : 0 < consumed := by
  unfold HeadTable.parse at h
  cases hf : heads.find? (fun h => h.1.isPrefixOf buffer) with
  | none =>
    rw [hf] at h
    dsimp only at h
    split_ifs at h
  | some head =>
    rw [hf] at h
    obtain ⟨-, rfl⟩ := ParseResult.done.inj h
    exact List.length_pos_iff.mpr (hne head (List.mem_of_find?_eq_some hf))

end Table

/-- A request and its response, each cut in the middle. -/
theorem sessions_follow_streams_cut :
    let cut := fun bytes : Bytes => [⟨none, bytes.take 9⟩, ⟨none, bytes.drop 9⟩]
    let s := Session.new (scriptedSocket 0 (cut (getOf (ascii "a")).1)) []
      [⟨some [⟨ascii "a", 80⟩], [some ⟨cut emptyOk.1, true, []⟩]⟩]
    (∃ r, sessionOn twoRemotes 2 s.streams = some r ∧
      Settles (fun fuel => run (twoRemotes.withFuel fuel)) s
        (fun a t => r.result = .ok a ∧ Accounted s t r)
        fun e t => r.result = .error e ∧ Accounted s t r) ∧
    ¬ ∃ x, Visits twoRemotes s.streams x ∧ Undetermined twoRemotes x := by
  intro cut s
  have hreq : Steady twoRemotes.beast.parseRequest := HeadTable.steady (by decide)
  have hres : Steady twoRemotes.beast.parseResponse := HeadTable.steady (by decide)
  have hpeer : RemotePeer.Flows ⟨cut emptyOk.1, true, []⟩ := ⟨by decide, by decide⟩
  have hs : s.Flowing := by
    refine ⟨⟨rfl, by decide⟩, ⟨rfl, by decide⟩, fun hopen => ?_, fun dial hd peer hp => ?_⟩
    · cases hopen
    · obtain rfl := List.mem_singleton.mp hd
      obtain rfl := Option.some.inj (List.mem_singleton.mp hp)
      exact hpeer
  have hsome : (sessionOn twoRemotes 2 s.streams).isSome = true := by decide +kernel
  have henough : (sessionOn twoRemotes (s.streams.client.length + 1) s.streams).isSome = true := by
    decide +kernel
  obtain ⟨r, hr⟩ := Option.isSome_iff_exists.mp hsome
  obtain ⟨hfollows, hdefined⟩ := sessions_follow_streams twoRemotes hreq hres s hs
  obtain ⟨-, hnone⟩ := hdefined fun _ _ _ h => HeadTable.takes (by decide) h
  refine ⟨⟨r, hr, hfollows 2 r hr⟩, fun hundetermined => ?_⟩
  rw [hnone.mpr hundetermined] at henough
  cases henough

end ProxyPP.Http
