import ProxyPP.Http.Reuse
import ProxyPP.Http.Completion
import ProxyPP.Http.Containment
import ProxyPP.Http.Invariants
import ProxyPP.Http.Tunnel

/-!
# ProxyPP.Http.Connect — sessions that become a tunnel

A CONNECT request ends the HTTP part of a session: no exchange follows it and no rule sees it.  If
its remote can be reached, the client gets the head of the session's own response, and from there on
each peer gets what the other one sends and nothing else (`connect_tunnels`).  If nothing fails and
a peer closes its side, the tunnel ends under every schedule that lets both coroutines run, with all
of that side delivered (`connect_completes`).
-/

namespace ProxyPP.Http

open ProxyPP ProxyPP.Lib ProxyPP.Rules

variable {η : Type}

/-! ## The exchange -/

section Exchange

variable (env : Env η)

/-- The exchange that starts in `s` has read a CONNECT request. -/
def GetsConnect (s : Session η) (parser : RequestParser) (t : Session η) : Prop :=
  (∃ raw, readClientRequestHeader env s = .ok (some (parser, raw)) t) ∧
    isConnect parser.header = true

/-- The head the client gets when its remote was reached. -/
def established : Bytes := env.beast.serializeResponse (env.beast.onWire connectEstablished)

/-- What a CONNECT exchange that has read its request in `s` has sent when it is in `u`. -/
inductive Carries (header : RequestHeader) (s u : Session η) : Prop
  /-- The target is no authority with a host and a port, or the remote was not reached. -/
  | unreached : u.clientSock.sent = s.clientSock.sent → u.remoteSock.sent = s.remoteSock.sent →
      Carries header s u
  /-- The client has not taken all of the head. -/
  | unanswered {info : RemoteInfo} {t : Session η} {w : Bytes} :
      parseConnectRemoteInfo env.urls header = some info → Connects info s t →
      SentToClient s u w → w <+: established env → u.remoteSock.sent = s.remoteSock.sent →
      Carries header s u
  | tunnelled {info : RemoteInfo} {t : Session η} {up down : Bytes} :
      parseConnectRemoteInfo env.urls header = some info → Connects info s t →
      SentToClient s u (established env ++ down) →
      text u.remoteSock.sentOctets = text s.remoteSock.sentOctets ++ up →
      up <+: s.upLink.ahead → down <+: t.downLink.ahead → Carries header s u

variable {env}

/-- What a session has sent does not depend on the rest of its state. -/
theorem Carries.of_sent {header : RequestHeader} {s u v : Session η} (h : Carries env header s u)
    (hclient : v.clientSock.sent = u.clientSock.sent)
    (hremote : v.remoteSock.sent = u.remoteSock.sent) : Carries env header s v := by
  have hoctets : v.clientSock.sentOctets = u.clientSock.sentOctets := by
    rw [Socket.sentOctets, hclient, Socket.sentOctets]
  cases h with
  | unreached hc hr => exact .unreached (hclient.trans hc) (hremote.trans hr)
  | unanswered hinfo hconnects hsent hpre hr =>
    refine .unanswered hinfo hconnects ?_ hpre (hremote.trans hr)
    rw [SentToClient, hoctets]
    exact hsent
  | tunnelled hinfo hconnects hsent hup hpre hdown =>
    refine .tunnelled hinfo hconnects ?_ ?_ hpre hdown
    · rw [SentToClient, hoctets]
      exact hsent
    · rw [Socket.sentOctets, hremote]
      exact hup

/-- A write to the client changes nothing else. -/
theorem writeToClient_frame (octets : List Octet) (s : Session η) (E : Stop → Session η → Prop) :
    Ends (writeToClient octets) s (fun ok t => ∃ ws ds,
      t = { s with clientSock := { s.clientSock with
        writes := ws, sent := s.clientSock.sent ++ ds } } ∧
      ds.flatMap Delivery.octets <+: octets ∧
      (ok = true → ds.flatMap Delivery.octets = octets)) E := by
  refine Ends.bind (P := fun r t => ∃ ws ds, t = { s with clientSock := { s.clientSock with
      writes := ws, sent := s.clientSock.sent ++ ds } } ∧
    ds.flatMap Delivery.octets <+: octets ∧ (r.1 = false → ds.flatMap Delivery.octets = octets))
    (ends_zoom ((asyncWrite_ends octets s.clientSock fun _ _ => False).mono ?_
      fun _ _ h => h.elim)) ?_
  · rintro r c ⟨ds, hc, -, hpre, hall⟩
    exact ⟨c.writes, ds, by rw [← hc], hpre, hall⟩
  · rintro ⟨ec, n⟩ t ⟨ws, ds, ht, hpre, hall⟩
    exact ends_pure ⟨ws, ds, ht, hpre, fun hok => hall (by simpa using hok)⟩

/-- What a half delivered was ahead of it. -/
theorem Half.Delivered.ahead {h₀ h : Half} (hd : h₀.Delivered h) : ∃ w,
    text h.sent = text h₀.sent ++ w ∧
      w <+: text h₀.buffer ++ h₀.incoming.flatMap ReadOutcome.delivered := by
  obtain ⟨tx, rx, hsent, hpre, -, hrx⟩ := hd
  refine ⟨text tx, by rw [hsent, text_append], ?_⟩
  obtain ⟨rest, hrest⟩ := hpre
  have htx : text tx <+: text h₀.buffer ++ text rx :=
    ⟨text rest, by rw [← text_append, hrest, text_append]⟩
  exact htx.trans ((List.prefix_append_right_inj _).mpr hrx)

/-- The books of a tunnel under way. -/
theorem relayTunnelBidirectional_delivers (schedule : List Direction) {s : Session η}
    (h : s.closed = false) : Ends (relayTunnelBidirectional schedule true true) s
      (fun _ t => ∀ d, (s.link d).half.Delivered (t.link d).half)
      (fun _ t => ∀ d, (s.link d).half.Delivered (t.link d).half) := by
  obtain ⟨t, hrun, hrelay⟩ :=
    relayTunnelBidirectional_run schedule true true (Tunnel.start s) rfl rfl
  have hdelivered : ∀ d, (s.link d).half.Delivered (t.session.link d).half := by
    intro d
    obtain ⟨tx, rx, hbooks⟩ := (hrun.inv (Tunnel.inv_start h)).books d
    refine ⟨tx, rx, hbooks.sent, hbooks.front, hbooks.origins, ?_⟩
    rw [hbooks.stream, List.append_assoc]
    exact List.prefix_append _ _
  rcases hrelay with ⟨hrelay, -⟩ | hrelay
  · exact Ends.of_ok hrelay hdelivered
  · exact Ends.of_error hrelay hdelivered

/-- The rules have not run. -/
def SameScript (s t : Session η) : Prop := t.script = s.script

instance : IsPreorder (Session η) SameScript where
  refl _ := rfl
  trans _ _ _ h h' := h'.trans h

theorem close_sent {s t : Session η} (h : close s = .ok ⟨⟩ t) :
    t.clientSock.sent = s.clientSock.sent ∧ t.remoteSock.sent = s.remoteSock.sent := by
  rw [close_run] at h
  obtain ⟨-, rfl⟩ := EStateM.Result.ok.inj h
  constructor <;> split <;> rfl

theorem within_close_script : Within SameScript (close (η := η)) := by
  intro s
  refine Ends.of_ok (close_run s) ?_
  split <;> rfl

theorem within_relay_script (schedule : List Direction) (up down : Bool) :
    Within SameScript (relayTunnelBidirectional (η := η) schedule up down) := by
  refine within_relay (fun direction => ?_) within_close_script schedule up down
  cases direction with
  | clientToRemote => exact within_zoom (fun _ _ => by rfl) forwardViaTunnelStep
  | remoteToClient => exact within_zoom (fun _ _ => by rfl) forwardViaTunnelStep

/-- **The exchange of a CONNECT request.**  It never goes on to another exchange. -/
theorem handleConnectExchange_ends (header : RequestHeader) {s : Session η}
    (hconnect : isConnect header = true) (h : s.closed = false) :
    Ends (handleConnectExchange env header) s
      (fun r t => r = .close ∧ Carries env header s t ∧ SameScript s t)
      (fun _ t => Carries env header s t ∧ SameScript s t) := by
  have hparse : parseRemoteInfo env.urls header = parseConnectRemoteInfo env.urls header :=
    if_pos hconnect
  unfold handleConnectExchange
  rw [hparse]
  cases hinfo : parseConnectRemoteInfo env.urls header with
  | none => exact ends_pure ⟨rfl, .unreached rfl rfl, rfl⟩
  | some info =>
    have hlost : ∀ t, Loses s t → Carries env header s t ∧ SameScript s t := by
      intro t ht
      rw [Loses] at ht
      exact ⟨.unreached (by rw [ht]) (by rw [ht]; rfl), by rw [SameScript, ht]⟩
    refine ((ensureRemoteConnected_ends info s).mono (fun _ _ h => h)
      fun e t ht => hlost t ht.2).bind ?_
    rintro (_ | _) t ht
    · exact ends_pure ⟨rfl, hlost t ht⟩
    have hconnects : Connects info s t := ht
    obtain ⟨hframe, hremote⟩ := hconnects.frame
    have hclient : t.clientSock = s.clientSock := by rw [hframe]
    rw [if_pos rfl]
    refine (writeToClient_frame _ t _).bind ?_
    rintro ok u ⟨ws, ds, hu, hpre, hall⟩
    have hsent : SentToClient s u (text (ds.flatMap Delivery.octets)) := by
      rw [SentToClient, hu, Socket.sentOctets, List.flatMap_append, text_append, hclient]
      rfl
    have hscript : SameScript s u := by rw [SameScript, hu, hframe]
    have hup : u.remoteSock.sent = s.remoteSock.sent := by rw [hu]; exact hremote
    cases ok with
    | false =>
      refine ends_pure ⟨rfl, .unanswered hinfo hconnects hsent ?_ hup, hscript⟩
      rw [← text_madeFrom [] (established env)]
      exact hpre.map _
    | true =>
      rw [hall rfl, text_madeFrom] at hsent
      have hclosed : u.closed = false := by rw [hu, hframe]; exact h
      have hrelay : ∀ v, (∀ d, (u.link d).half.Delivered (v.link d).half) → SameScript u v →
          Carries env header s v ∧ SameScript s v := by
        intro v hv hsame
        obtain ⟨up, hupsent, huppre⟩ := (hv .clientToRemote).ahead
        obtain ⟨down, hdownsent, hdownpre⟩ := (hv .remoteToClient).ahead
        have hremotesent : text v.remoteSock.sentOctets = text s.remoteSock.sentOctets ++ up := by
          refine hupsent.trans ?_
          show text u.remoteSock.sentOctets ++ up = _
          rw [Socket.sentOctets, hup]
          rfl
        refine ⟨.tunnelled hinfo hconnects (hsent.trans hdownsent) hremotesent ?_ ?_,
          hsame.trans hscript⟩
        · have hahead : s.upLink.ahead = u.upLink.ahead := by
            rw [hu, hframe]
            rfl
          rw [hahead]
          exact huppre
        · have hahead : t.downLink.ahead = u.downLink.ahead := by rw [hu]; rfl
          rw [hahead]
          exact hdownpre
      rw [if_pos rfl]
      refine Ends.bind ((relayTunnelBidirectional_delivers env.schedule hclosed).and
        (within_relay_script env.schedule true true u) |>.mono (fun _ _ h => h)
        fun _ v hv => hrelay v hv.1 hv.2) fun _ v hv => ends_pure ⟨rfl, hrelay v hv.1 hv.2⟩

theorem GetsConnect.exchange {s s₁ : Session η} {parser : RequestParser}
    (h : GetsConnect env s parser s₁) :
    handleOneExchange env s = handleConnectExchange env parser.header s₁ := by
  obtain ⟨⟨raw, hread⟩, hconnect⟩ := h
  rw [handleOneExchange, bind_ok hread]
  exact congrFun (if_pos hconnect) s₁

theorem GetsConnect.headOnly {s s₁ : Session η} {parser : RequestParser}
    (h : GetsConnect env s parser s₁) : HeadOnly s s₁ := by
  obtain ⟨⟨raw, hread⟩, -⟩ := h
  exact ((readClientRequestHeader_ends env s).ok hread).2

theorem GetsConnect.ends {s s₁ : Session η} {parser : RequestParser}
    (h : GetsConnect env s parser s₁) (hopen : s.closed = false) : Ends (handleOneExchange env) s
      (fun r t => r = .close ∧ Carries env parser.header s₁ t ∧ SameScript s t)
      (fun _ t => Carries env parser.header s₁ t ∧ SameScript s t) := by
  have hscript : SameScript s s₁ := by rw [SameScript, h.headOnly]
  have hclosed : s₁.closed = false := by rw [h.headOnly]; exact hopen
  have hends : Ends (handleConnectExchange env parser.header) s₁ _ _ :=
    handleConnectExchange_ends parser.header h.2 hclosed
  unfold Ends at hends ⊢
  rw [h.exchange]
  cases hr : handleConnectExchange env parser.header s₁ with
  | ok r t =>
    rw [hr] at hends
    exact ⟨hends.1, hends.2.1, hends.2.2.trans hscript⟩
  | error e t =>
    rw [hr] at hends
    exact ⟨hends.1, hends.2.trans hscript⟩

/-! ## Runs -/

/-- In front of an exchange the session is not closed. -/
theorem Reached.isOpen {s₀ s : Session η} {k : ℕ} (hs : Reached env s₀ k s)
    (h₀ : s₀.closed = false) : s.closed = false := by
  induction hs with
  | start => exact h₀
  | @next k s t hs hx ih =>
    refine ((handleOneExchange_closed s fun parser raw s₁ hread => ?_).ok hx).trans ih
    -- a CONNECT request would have ended the run
    by_contra hconnect
    have hget : GetsConnect env s parser s₁ := ⟨⟨raw, hread⟩, by simpa using hconnect⟩
    cases ((hget.ends ih).ok hx).1

theorem Reached.earlier {s₀ t : Session η} {k : ℕ} (h : Reached env s₀ k t) {j : ℕ} (hj : j ≤ k) :
    ∃ s, Reached env s₀ j s := by
  induction h with
  | start => exact ⟨s₀, by rw [Nat.le_zero.mp hj]; exact .start⟩
  | @next k s t hs hx ih =>
    rcases Nat.lt_or_eq_of_le hj with hlt | rfl
    · exact ih (Nat.le_of_lt_succ hlt)
    · exact ⟨t, hs.next hx⟩

/-- The run ends with an exchange that does not continue. -/
theorem Reached.last {s₀ s : Session η} {k : ℕ} (hs : Reached env s₀ k s)
    (hx : ∀ t, handleOneExchange env s ≠ .ok .continue t) {j : ℕ} {t : Session η}
    (ht : Reached env s₀ j t) : j ≤ k := by
  by_contra hlt
  obtain ⟨u, hu⟩ := ht.earlier (show k + 1 ≤ j by omega)
  cases hu with
  | next hs' hx' =>
    obtain rfl := hs.unique hs'
    exact hx _ hx'

/-- Behind an exchange that ends in Close there is only the closing. -/
theorem Reached.run_eq_close {s₀ s u : Session η} {k : ℕ} (hs : Reached env s₀ k s)
    (hx : handleOneExchange env s = .ok .close u) (hk : k < env.fuel) : run env s₀ = close u := by
  obtain ⟨n, hn⟩ : ∃ n, env.fuel = k + (n + 1) := ⟨env.fuel - k - 1, by omega⟩
  have hloop : whileLoop .outOfFuel (runStep env) env.fuel () s₀ = .ok () u := by
    rw [hn, hs.loop]
    exact whileLoop_leave (bind_ok hx)
  exact bind_ok hloop

/-- A run stops where its exchange stops. -/
theorem Reached.run_eq_error {s₀ s u : Session η} {k : ℕ} {e : Stop} (hs : Reached env s₀ k s)
    (hx : handleOneExchange env s = .error e u) (hk : k < env.fuel) :
    run env s₀ = .error e u := by
  obtain ⟨n, hn⟩ : ∃ n, env.fuel = k + (n + 1) := ⟨env.fuel - k - 1, by omega⟩
  refine bind_error ?_
  rw [hn, hs.loop, whileLoop]
  exact bind_error (bind_error hx)

/-- What a run leaves behind is what its last exchange left, at most closed. -/
theorem Reached.stateOf_run {s₀ s : Session η} {k : ℕ} (hs : Reached env s₀ k s)
    (hx : ∀ t, handleOneExchange env s ≠ .ok .continue t) (hk : k < env.fuel) :
    stateOf (run env s₀) = stateOf (handleOneExchange env s) ∨
      close (stateOf (handleOneExchange env s)) = .ok ⟨⟩ (stateOf (run env s₀)) := by
  cases hr : handleOneExchange env s with
  | ok r u =>
    cases r with
    | «continue» => exact absurd hr (hx u)
    | close =>
      rw [hs.run_eq_close hr hk]
      exact Or.inr ((close_run u).trans (congrArg (EStateM.Result.ok _) (by rw [close_run]; rfl)))
  | error e u =>
    rw [hs.run_eq_error hr hk]
    exact Or.inl rfl

/-- **A CONNECT request makes the session a tunnel.**  It is the last request of its run, whatever
the network does, and no rule runs on it.  The client gets nothing, or a front of the head of the
session's own response, or this head and a front of what the remote sends; the remote gets a front
of what the client sends behind its request, and nothing before the client has all of the head. -/
theorem connect_tunnels {s₀ s s₁ : Session η} {k : ℕ} {parser : RequestParser}
    (h₀ : s₀.closed = false) (hs : Reached env s₀ k s) (hget : GetsConnect env s parser s₁)
    (hk : k < env.fuel) :
    HeadOnly s s₁ ∧ Carries env parser.header s₁ (stateOf (run env s₀)) ∧
      SameScript s (stateOf (run env s₀)) ∧ ∀ j t, Reached env s₀ j t → j ≤ k := by
  have hends := hget.ends (hs.isOpen h₀)
  have hlast : ∀ t, handleOneExchange env s ≠ .ok .continue t := by
    intro t ht
    cases (hends.ok ht).1
  have hdone : Carries env parser.header s₁ (stateOf (handleOneExchange env s)) ∧
      SameScript s (stateOf (handleOneExchange env s)) :=
    Ends.stateOf (I := fun t => Carries env parser.header s₁ t ∧ SameScript s t)
      (hends.mono (fun _ _ h => h.2) fun _ _ h => h)
  refine ⟨hget.headOnly, ?_, ?_, fun j t ht => hs.last hlast ht⟩
  · rcases hs.stateOf_run hlast hk with hrun | hclose
    · rw [hrun]
      exact hdone.1
    · exact hdone.1.of_sent (close_sent hclose).1 (close_sent hclose).2
  · rcases hs.stateOf_run hlast hk with hrun | hclose
    · rw [hrun]
      exact hdone.2
    · exact ((within_close_script _).ok hclose).trans hdone.2

/-! ### A session with one CONNECT request -/

/-- A CONNECT request for `a:443`. -/
def connectA : Bytes × RequestParser :=
  (ascii "CONNECT a:443 HTTP/1.1\r\n\r\n",
    ⟨⟨ascii "CONNECT", 11, ascii "a:443", []⟩, false, none, true⟩)

/-- Sessions with this request, in which each coroutine gets some turns. -/
def tunnelToA : Env (List (Except Error Bool)) where
  beast := HeadTable.beast ⟨[ascii "CONNECT"], [(200, ascii "OK")], [connectA], []⟩
  urls :=
    { parseAbsoluteUri := fun _ => none
      parseAuthority := fun target =>
        if target = ascii "a:443" then some ⟨ascii "a", ascii "443"⟩ else none }
  ruleEngine := Engine.scripted
  ruleHttpConfig := none
  schedule := [.clientToRemote, .remoteToClient, .clientToRemote, .clientToRemote, .remoteToClient]
  fuel := 20

/-- The client sends `hi` with its request, and the remote answers `yo`. -/
def greeting : Session (List (Except Error Bool)) :=
  .ofReads [connectA.1 ++ ascii "hi"] [[ascii "yo"]]

/-- The request was read. -/
def greetingRead : Session (List (Except Error Bool)) :=
  stateOf (readClientRequestHeader tunnelToA greeting)

theorem getsConnect_greeting : GetsConnect tunnelToA greeting connectA.2 greetingRead := by
  refine ⟨⟨received ⟨0, ⟨[], 0⟩⟩ connectA.1, ok_stateOf ?_⟩, rfl⟩
  decide +kernel

theorem connect_tunnels_greeting : HeadOnly greeting greetingRead ∧
    Carries tunnelToA connectA.2.header greetingRead (stateOf (run tunnelToA greeting)) ∧
    SameScript greeting (stateOf (run tunnelToA greeting)) ∧
    ∀ j t, Reached tunnelToA greeting j t → j ≤ 0 :=
  connect_tunnels rfl .start getsConnect_greeting (by decide)

end Exchange

/-! ## Tunnels that end -/

/-- All that the target of a direction has accepted, and will get if nothing fails. -/
def Half.whole (h : Half) : Bytes :=
  text h.sent ++ (text h.buffer ++ h.incoming.flatMap ReadOutcome.delivered)

/-- The operations of a direction until nothing is left to read. -/
def Half.turns (h : Half) : ℕ := 2 * h.incoming.length + if h.buffer = [] then 0 else 1

/-- A move that loses nothing keeps the whole. -/
theorem Moved.whole {l l' : Link} {tx rx : List Octet} (h : Moved l l' tx rx) :
    l'.half.whole = l.half.whole := by
  have hahead : text l.readBuffer ++ l.fromPeer.stream
      = text tx ++ (text l'.readBuffer ++ l'.fromPeer.stream) := h.ahead
  show text l'.targetPeer.sentOctets ++ (text l'.readBuffer ++ l'.fromPeer.stream)
    = text l.targetPeer.sentOctets ++ (text l.readBuffer ++ l.fromPeer.stream)
  rw [h.sentOctets, text_append, List.append_assoc, ← hahead]

/-- One operation of a coroutine on a link that flows: there is less to do; or everything was
delivered, and the loop is left if the source has closed its side and else it waits. -/
theorem forwardViaTunnelStep_flows {l : Link} (h : l.Flows) :
    (∃ l', forwardViaTunnelStep l = .ok true l' ∧ l.Follows l' ∧ l.Forwards l' ∧
      l'.half.whole = l.half.whole ∧ l'.half.turns < l.half.turns) ∨
    text l.half.sent = l.half.whole ∧ forwardViaTunnelStep l
      = if l.fromPeer.atEof then .ok false l else .error .blocked l := by
  unfold forwardViaTunnelStep
  rw [bind_ok (get_run l)]
  by_cases hbuf : l.readBuffer.length = 0
  · rw [if_pos hbuf]
    have hempty : l.readBuffer = [] := List.length_eq_zero_iff.mp hbuf
    cases hin : l.fromPeer.incoming with
    | nil =>
      right
      constructor
      · rw [Half.whole, show l.half.buffer = l.readBuffer from rfl, hempty,
          show l.half.incoming = l.fromPeer.incoming from rfl, hin]
        exact (List.append_nil _).symm
      · have hr := readSomeFromPeer_nil fun _ => hin
        rw [if_pos h.source.1] at hr
        by_cases heof : l.fromPeer.atEof = true
        · rw [if_pos heof] at hr ⊢
          exact bind_ok hr
        · rw [if_neg heof] at hr ⊢
          exact bind_error hr
    | cons r rest =>
      left
      obtain ⟨hec, hbytes⟩ := h.source.2 r (by rw [hin]; exact List.mem_cons_self)
      have hr := readSomeFromPeer_cons h.source.1 hin
      rw [hec] at hr
      simp only [if_neg (mt List.length_eq_zero_iff.mp hbytes)] at hr
      refine ⟨l.committed rest r.bytes, bind_ok hr, (follows_readSomeFromPeer l).ok hr, ⟨rfl, rfl⟩,
        (moved_committed hin (by simp [hec])).whole, ?_⟩
      show 2 * rest.length + _ < 2 * l.fromPeer.incoming.length + _
      rw [hin, List.length_cons]
      split <;> omega
  · rw [if_neg hbuf]
    left
    have hw := writeToPeer_ok h.target (le_refl l.readBuffer.length)
    refine ⟨_, bind_ok hw, (follows_writeToPeer _ l).ok hw, ⟨rfl, rfl⟩,
      (moved_written l _ _).whole, ?_⟩
    show 2 * l.fromPeer.incoming.length
        + (if l.readBuffer.drop l.readBuffer.length = [] then 0 else 1)
      < 2 * l.fromPeer.incoming.length + if l.readBuffer = [] then 0 else 1
    rw [List.drop_length, if_pos rfl, if_neg (mt List.length_eq_zero_iff.mpr hbuf)]
    omega

/-- A tunnel that was started in `s₀` and has lost nothing. -/
structure Relaying (s₀ s : Session η) : Prop where
  isOpen : s.closed = false
  flows : ∀ d, (s.link d).Flows
  atEof : ∀ d, (s.link d).fromPeer.atEof = (s₀.link d).fromPeer.atEof
  whole : ∀ d, (s.link d).half.whole = (s₀.link d).half.whole

/-- The tunnel that was started in `s₀` is closed, and all of a side that closed was delivered. -/
structure RelayOver (s₀ s : Session η) : Prop where
  shut : s.closed = true
  sockets : ∀ d, (s.link d).fromPeer.isOpen = false
  all : ∃ d, (s₀.link d).fromPeer.atEof = true ∧ text (s.link d).half.sent = (s₀.link d).half.whole

theorem Relaying.refl {s : Session η} (hopen : s.closed = false) (hflows : ∀ d, (s.link d).Flows) :
    Relaying s s := ⟨hopen, hflows, fun _ => rfl, fun _ => rfl⟩

/-- What a direction sees of an operation of the other one. -/
theorem putLink_follows {s : Session η} {d d' : Direction} {l : Link} (hl : (s.link d).Follows l)
    (hne : d' ≠ d) : (s.link d').Follows ((s.putLink d l).link d') := by
  cases d with
  | clientToRemote =>
    cases d' with
    | clientToRemote => exact absurd rfl hne
    | remoteToClient => exact ⟨hl.target, hl.source⟩
  | remoteToClient =>
    cases d' with
    | clientToRemote => exact ⟨hl.target, hl.source⟩
    | remoteToClient => exact absurd rfl hne

theorem Link.Follows.flows {l l' : Link} (h : l.Follows l') (hl : l.Flows) : l'.Flows :=
  ⟨h.source.delivers hl.source, h.target.writesOk hl.target⟩

theorem close_open {s : Session η} (h : s.closed = false) : close s = .ok ⟨⟩ s.shut := by
  rw [close_run, if_neg (by rw [h]; decide)]
  rfl

section Relay

variable {s₀ s : Session η} {d : Direction}

/-- A turn that moves bytes. -/
theorem Relaying.moves (h : Relaying s₀ s) {l : Link} (hfollows : (s.link d).Follows l)
    (hforwards : (s.link d).Forwards l) (hwhole : l.half.whole = (s.link d).half.whole) :
    Relaying s₀ (s.putLink d l) := by
  have hlink : ∀ d', (s.link d').Follows ((s.putLink d l).link d') ∧
      ((s.putLink d l).link d').half.whole = (s.link d').half.whole := by
    intro d'
    by_cases hd : d' = d
    · rw [hd, link_putLink]
      exact ⟨hfollows, hwhole⟩
    · rw [half_putLink hd hforwards]
      exact ⟨putLink_follows hfollows hd, rfl⟩
  exact ⟨(closed_putLink s d l).trans h.isOpen, fun d' => (hlink d').1.flows (h.flows d'),
    fun d' => (hlink d').1.source.atEof.trans (h.atEof d'),
    fun d' => (hlink d').2.trans (h.whole d')⟩

/-- Closing behind the last byte of a side that has closed. -/
theorem Relaying.shut (h : Relaying s₀ s) (heof : (s₀.link d).fromPeer.atEof = true)
    (hall : text (s.link d).half.sent = (s.link d).half.whole) : RelayOver s₀ s.shut := by
  have hhalf : ∀ d', (s.shut.link d').half = (s.link d').half := by
    intro d'
    cases d' with
    | clientToRemote => rfl
    | remoteToClient => rfl
  refine ⟨rfl, fun d' => ?_, d, heof, ?_⟩
  · cases d' with
    | clientToRemote => rfl
    | remoteToClient => rfl
  · rw [hhalf, hall, h.whole d]

/-- **A turn of a coroutine** of a tunnel that has lost nothing: it has less to do, or it waits, or
it closes the tunnel. -/
theorem Relaying.turn (h : Relaying s₀ s) (d : Direction) : ∃ running t,
    tunnelStep d s = .ok running t ∧ if running then Relaying s₀ t ∧
        (∀ d', d' ≠ d → (t.link d').half = (s.link d').half) ∧
        ((t.link d).half.turns < (s.link d).half.turns ∨
          (s₀.link d).fromPeer.atEof = false ∧ (t.link d).half = (s.link d).half)
      else RelayOver s₀ t := by
  unfold tunnelStep
  rw [viaTunnel_eq_zoom]
  rcases forwardViaTunnelStep_flows (h.flows d) with
    ⟨l, hr, hfollows, hforwards, hwhole, hturns⟩ | ⟨hall, hr⟩
  · refine ⟨true, s.putLink d l, by simp only [zoom, hr], ?_⟩
    rw [if_pos rfl, link_putLink]
    exact ⟨h.moves hfollows hforwards hwhole, fun d' hd => half_putLink hd hforwards, Or.inl hturns⟩
  · by_cases heof : (s.link d).fromPeer.atEof = true
    · rw [if_pos heof] at hr
      refine ⟨false, s.shut, ?_, ?_⟩
      · simp only [zoom, hr, putLink_link]
        exact bind_ok (close_open h.isOpen)
      · rw [if_neg (by decide)]
        exact h.shut ((h.atEof d).symm.trans heof) hall
    · rw [if_neg heof] at hr
      refine ⟨true, s, by simp only [zoom, hr], ?_⟩
      rw [if_pos rfl]
      refine ⟨h, fun _ _ => rfl, Or.inr ⟨?_, rfl⟩⟩
      rw [← h.atEof d]
      simpa using heof

/-- Nothing comes from a closed source and nothing goes to a closed target. -/
theorem forwardViaTunnelStep_shut {l : Link} (hsource : l.fromPeer.isOpen = false)
    (htarget : l.targetPeer.isOpen = false) : forwardViaTunnelStep l = .ok false l := by
  unfold forwardViaTunnelStep
  rw [bind_ok (get_run l)]
  by_cases hbuf : l.readBuffer.length = 0
  · rw [if_pos hbuf]
    have hr := readSomeFromPeer_nil (l := l) fun hopen => by rw [hsource] at hopen; cases hopen
    rw [if_neg (by rw [hsource]; decide)] at hr
    exact bind_ok hr
  · rw [if_neg hbuf]
    have hw : asyncWrite (l.readBuffer.take l.readBuffer.length) l.targetPeer
        = .ok (true, 0) l.targetPeer := by
      unfold asyncWrite
      rw [if_neg (by rw [htarget]; decide)]
    exact bind_ok (writeToPeer_failure hw rfl)

/-- A coroutine of a tunnel that is closed has one turn left. -/
theorem RelayOver.turn (h : RelayOver s₀ s) (d : Direction) : tunnelStep d s = .ok false s := by
  have htarget : (s.link d).targetPeer.isOpen = false := by
    cases d with
    | clientToRemote => exact h.sockets .remoteToClient
    | remoteToClient => exact h.sockets .clientToRemote
  have hr := forwardViaTunnelStep_shut (h.sockets d) htarget
  unfold tunnelStep
  rw [viaTunnel_eq_zoom]
  simp only [zoom, hr, putLink_link]
  have hclose : close s = .ok ⟨⟩ s := by rw [close_run, if_pos h.shut]
  exact bind_ok hclose

/-- Once the tunnel is closed each coroutine that is left ends with its next turn. -/
theorem RelayOver.relay (h : RelayOver s₀ s) (schedule : List Direction) : ∀ up down,
    (up = true → .clientToRemote ∈ schedule) → (down = true → .remoteToClient ∈ schedule) →
    relayTunnelBidirectional schedule up down s = .ok ⟨⟩ s := by
  have hresume : ∀ d running, resume d running s = .ok false s := by
    intro d running
    cases running with
    | true => exact h.turn d
    | false => rfl
  induction schedule with
  | nil =>
    intro up down hup hdown
    have hu : up = false := by
      by_contra hu
      exact absurd (hup (by simpa using hu)) List.not_mem_nil
    have hd : down = false := by
      by_contra hd
      exact absurd (hdown (by simpa using hd)) List.not_mem_nil
    rw [hu, hd]
    rfl
  | cons d schedule ih =>
    intro up down hup hdown
    cases d with
    | clientToRemote =>
      rw [relayTunnelBidirectional, bind_ok (hresume _ up)]
      exact ih false down (fun hu => by cases hu) fun hd => by simpa using hdown hd
    | remoteToClient =>
      rw [relayTunnelBidirectional, bind_ok (hresume _ down)]
      exact ih up false (fun hu => by simpa using hup hu) fun hd => by cases hd

/-- **The tunnel ends** under every schedule that gives the coroutine of a side that closes enough
turns, and afterwards one to each coroutine. -/
theorem Relaying.relay {later : List Direction} (heof : (s₀.link d).fromPeer.atEof = true)
    (hlater : ∀ d, d ∈ later) (schedule : List Direction) : ∀ {s : Session η}, Relaying s₀ s →
      (s.link d).half.turns < schedule.count d →
      ∃ t, relayTunnelBidirectional (schedule ++ later) true true s = .ok ⟨⟩ t ∧
        RelayOver s₀ t := by
  induction schedule with
  | nil => exact fun _ hlt => absurd hlt (Nat.not_lt_zero _)
  | cons d' schedule ih =>
    intro s h hlt
    obtain ⟨running, t, hturn, ht⟩ := h.turn d'
    have hresume : resume d' true s = .ok running t := hturn
    have hmem : ∀ d, d ∈ schedule ++ later := fun d => List.mem_append_right _ (hlater d)
    cases running with
    | true =>
      obtain ⟨hrelaying, hother, hless⟩ := ht
      have hcount : (t.link d).half.turns < schedule.count d := by
        by_cases hd : d' = d
        · subst hd
          rw [List.count_cons_self] at hlt
          rcases hless with hless | ⟨hno, -⟩
          · omega
          · rw [hno] at heof
            cases heof
        · rw [List.count_cons_of_ne hd] at hlt
          rw [hother d (Ne.symm hd)]
          exact hlt
      obtain ⟨u, hu, hover⟩ := ih hrelaying hcount
      refine ⟨u, ?_, hover⟩
      cases d' with
      | clientToRemote =>
        rw [List.cons_append, relayTunnelBidirectional, bind_ok hresume]
        exact hu
      | remoteToClient =>
        rw [List.cons_append, relayTunnelBidirectional, bind_ok hresume]
        exact hu
    | false =>
      have hover : RelayOver s₀ t := ht
      refine ⟨t, ?_, hover⟩
      cases d' with
      | clientToRemote =>
        rw [List.cons_append, relayTunnelBidirectional, bind_ok hresume]
        exact hover.relay _ _ _ (fun _ => hmem _) fun _ => hmem _
      | remoteToClient =>
        rw [List.cons_append, relayTunnelBidirectional, bind_ok hresume]
        exact hover.relay _ _ _ (fun _ => hmem _) fun _ => hmem _

end Relay

/-- **Tunnels get done.**  A session has reached the remote of a CONNECT request, and from there on
no read or write fails.  If a side closes and its coroutine gets enough turns, the run returns: the
client got the head of the response and a front of what the remote sent, the remote a front of what
the client sent behind its request, one side that closed was delivered to its last byte, and both
sockets are closed. -/
theorem connect_completes (env : Env η) {s₀ s s₁ s₂ : Session η} {k : ℕ} {parser : RequestParser}
    {info : RemoteInfo} {d : Direction} {schedule later : List Direction} (h₀ : s₀.closed = false)
    (hs : Reached env s₀ k s) (hk : k < env.fuel) (hget : GetsConnect env s parser s₁)
    (hinfo : parseConnectRemoteInfo env.urls parser.header = some info)
    (hensure : ensureRemoteConnected info s₁ = .ok true s₂) (hflows : ∀ d, (s₂.link d).Flows)
    (heof : (s₂.link d).fromPeer.atEof = true) (hschedule : env.schedule = schedule ++ later)
    (hlater : ∀ d, d ∈ later) (hturns : (s₂.link d).half.turns < schedule.count d) :
    ∃ t up down, run env s₀ = .ok ⟨⟩ t ∧ t.closed = true ∧ t.clientSock.isOpen = false ∧
      t.remoteSock.isOpen = false ∧ SentToClient s t (established env ++ down) ∧
      text t.remoteSock.sentOctets = text s.remoteSock.sentOctets ++ up ∧
      up <+: s₂.upLink.ahead ∧ down <+: s₂.downLink.ahead ∧
      (s₂.clientSock.atEof = true ∧ up = s₂.upLink.ahead ∨
        s₂.remoteSock.atEof = true ∧ down = s₂.downLink.ahead) := by
  have hconnects : Connects info s₁ s₂ := (ensureRemoteConnected_ends info s₁).ok hensure
  obtain ⟨hframe, hremote⟩ := hconnects.frame
  have hopen : s₂.closed = false := by
    rw [hframe, hget.headOnly]
    exact hs.isOpen h₀
  -- the head of the response is written
  obtain ⟨ok, u, hwrite, ⟨rfl, hfollows, -⟩, ws, ds, hu, -, hall⟩ :=
    (writeToClient_returns (madeFrom [] (established env)) (hflows .remoteToClient).target).ends
      (writeToClient_frame _ s₂ fun _ _ => False)
  have hclosed : u.closed = false := by rw [hu]; exact hopen
  have hlinks : ∀ d', (s₂.link d').Follows (u.link d') := by
    intro d'
    cases d' with
    | clientToRemote => exact ⟨hfollows.client, hfollows.remote⟩
    | remoteToClient => exact ⟨hfollows.remote, hfollows.client⟩
  have hturns' : (u.link d).half.turns = (s₂.link d).half.turns := by
    rw [hu]
    cases d with
    | clientToRemote => rfl
    | remoteToClient => rfl
  -- the tunnel ends
  obtain ⟨t, hrelay, hover⟩ := (Relaying.refl hclosed fun d' => (hlinks d').flows (hflows d')).relay
    ((hlinks d).source.atEof.trans heof) hlater schedule (by rw [hturns']; exact hturns)
  have hdelivered := (relayTunnelBidirectional_delivers (schedule ++ later) hclosed).ok hrelay
  obtain ⟨up, hup, huppre⟩ := (hdelivered .clientToRemote).ahead
  obtain ⟨down, hdown, hdownpre⟩ := (hdelivered .remoteToClient).ahead
  have hexchange : handleOneExchange env s = .ok .close t := by
    have hparse : parseRemoteInfo env.urls parser.header = some info := (if_pos hget.2).trans hinfo
    rw [hget.exchange, handleConnectExchange, hparse]
    refine (bind_ok hensure).trans ?_
    rw [if_pos rfl]
    refine (bind_ok hwrite).trans ?_
    rw [if_pos rfl, hschedule]
    exact bind_ok hrelay
  have hahead : u.upLink.ahead = s₂.upLink.ahead ∧ u.downLink.ahead = s₂.downLink.ahead := by
    rw [hu]
    exact ⟨rfl, rfl⟩
  refine ⟨t, up, down, ?_, hover.shut, hover.sockets .clientToRemote, hover.sockets .remoteToClient,
    ?_, ?_, ?_, ?_, ?_⟩
  · rw [hs.run_eq_close hexchange hk, close_run, if_pos hover.shut]
  · have hclient : s₂.clientSock.sentOctets = s.clientSock.sentOctets := by
      rw [hframe, hget.headOnly]
      rfl
    have hhead : SentToClient s u (established env) := by
      rw [SentToClient, hu, Socket.sentOctets, List.flatMap_append, text_append, hall rfl,
        text_madeFrom, ← hclient]
      rfl
    exact hhead.trans hdown
  · have hsent : u.remoteSock.sentOctets = s.remoteSock.sentOctets := by
      rw [hu, Socket.sentOctets, Socket.sentOctets]
      show s₂.remoteSock.sent.flatMap _ = _
      rw [hremote, hget.headOnly]
    rw [← hsent]
    exact hup
  · rw [← hahead.1]
    exact huppre
  · rw [← hahead.2]
    exact hdownpre
  · -- what was sent is all there was, so what was added is all that was ahead
    obtain ⟨d', hd', hall'⟩ := hover.all
    cases d' with
    | clientToRemote =>
      refine Or.inl ⟨hfollows.client.atEof.symm.trans hd', ?_⟩
      rw [← hahead.1]
      exact List.append_cancel_left (hup.symm.trans hall')
    | remoteToClient =>
      refine Or.inr ⟨hfollows.remote.atEof.symm.trans hd', ?_⟩
      rw [← hahead.2]
      exact List.append_cancel_left (hdown.symm.trans hall')

/-- The remote of the greeting. -/
def infoA : RemoteInfo := ⟨ascii "tunnel", ascii "a", ascii "443", []⟩

/-- Its remote was reached. -/
def greetingReached : Session (List (Except Error Bool)) :=
  stateOf (ensureRemoteConnected infoA greetingRead)

theorem connect_completes_greeting : ∃ t up down, run tunnelToA greeting = .ok ⟨⟩ t ∧
    t.closed = true ∧ t.clientSock.isOpen = false ∧ t.remoteSock.isOpen = false ∧
    SentToClient greeting t (established tunnelToA ++ down) ∧
    text t.remoteSock.sentOctets = text greeting.remoteSock.sentOctets ++ up ∧
    up <+: greetingReached.upLink.ahead ∧ down <+: greetingReached.downLink.ahead ∧
    (greetingReached.clientSock.atEof = true ∧ up = greetingReached.upLink.ahead ∨
      greetingReached.remoteSock.atEof = true ∧ down = greetingReached.downLink.ahead) := by
  have hclient : greetingReached.clientSock.isOpen = true ∧
      greetingReached.clientSock.incoming = [] ∧
      greetingReached.clientSock.writes = [] := by decide +kernel
  have hremote : greetingReached.remoteSock.isOpen = true ∧
      greetingReached.remoteSock.incoming = [⟨none, ascii "yo"⟩] ∧
      greetingReached.remoteSock.writes = [] := by decide +kernel
  have hclientReads : greetingReached.clientSock.Delivers := by
    refine ⟨hclient.1, ?_⟩
    rw [hclient.2.1]
    decide
  have hremoteReads : greetingReached.remoteSock.Delivers := by
    refine ⟨hremote.1, ?_⟩
    rw [hremote.2.1]
    decide
  have hclientWrites : greetingReached.clientSock.WritesOk := by
    refine ⟨hclient.1, ?_⟩
    rw [hclient.2.2]
    decide
  have hremoteWrites : greetingReached.remoteSock.WritesOk := by
    refine ⟨hremote.1, ?_⟩
    rw [hremote.2.2]
    decide
  have hinfo : parseConnectRemoteInfo tunnelToA.urls connectA.2.header = some infoA := by
    decide +kernel
  have hensure : ensureRemoteConnected infoA greetingRead = .ok true greetingReached :=
    ok_stateOf (by decide +kernel)
  refine connect_completes tunnelToA (d := .clientToRemote) rfl .start (by decide)
    getsConnect_greeting hinfo hensure ?_ (by decide +kernel)
    (show tunnelToA.schedule = [.clientToRemote, .remoteToClient, .clientToRemote]
      ++ [.clientToRemote, .remoteToClient] from rfl) ?_ (by decide +kernel)
  · intro d
    cases d with
    | clientToRemote => exact ⟨hclientReads, hremoteWrites⟩
    | remoteToClient => exact ⟨hremoteReads, hclientWrites⟩
  · intro d
    cases d with
    | clientToRemote => exact List.mem_cons_self
    | remoteToClient => exact List.mem_cons_of_mem _ List.mem_cons_self

end ProxyPP.Http
