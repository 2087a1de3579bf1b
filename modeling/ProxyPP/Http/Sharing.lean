import ProxyPP.Http.Runs
import ProxyPP.Rules.Simulation

/-!
# ProxyPP.Http.Sharing — sessions that share the rule engine

All sessions of a server run their rules on one engine, whose runtime the other sessions use in
between.  A session depends on the engine through its answers only: over engines that answer alike
every session runs alike (`run_simulates`).  So, if the answers do not depend on the state of the
runtime, whatever the other sessions do to it between two calls, no session can tell
(`sessions_undisturbed`).
-/

namespace ProxyPP.Http

open ProxyPP ProxyPP.Lib ProxyPP.Rules

variable {η η' : Type}

/-! ## Sessions over different engines -/

/-- The session over another runtime. -/
def Session.withScript (script : η') (s : Session η) : Session η' :=
  { clientSock := s.clientSock, remoteSock := s.remoteSock,
    clientReadBuffer := s.clientReadBuffer, remoteReadBuffer := s.remoteReadBuffer,
    remoteState := s.remoteState, closed := s.closed, script, dials := s.dials,
    resolutions := s.resolutions, nextConnection := s.nextConnection }

def Env.withEngine (env : Env η) (ruleEngine : Engine η') : Env η' :=
  { beast := env.beast, urls := env.urls, ruleEngine, ruleHttpConfig := env.ruleHttpConfig,
    schedule := env.schedule, fuel := env.fuel }

/-- The same session over related runtimes. -/
def SessionsAlike (H : η → η' → Prop) (s : Session η) (t : Session η') : Prop :=
  ∃ script, H s.script script ∧ t = s.withScript script

section Simulation

variable {H : η → η' → Prop}

/-! ### Parts that do not use the engine -/

theorem onUpLink_corresponds {α : Type} (m : EStateM Stop Link α) :
    Corresponds (SessionsAlike H) Eq (onUpLink m) (onUpLink m) := by
  refine (corresponds_refl m).zoom ?_ ?_
  · rintro s t ⟨script, hH, rfl⟩
    rfl
  · rintro s t x y ⟨script, hH, rfl⟩ rfl
    exact ⟨script, hH, rfl⟩

theorem onDownLink_corresponds {α : Type} (m : EStateM Stop Link α) :
    Corresponds (SessionsAlike H) Eq (onDownLink m) (onDownLink m) := by
  refine (corresponds_refl m).zoom ?_ ?_
  · rintro s t ⟨script, hH, rfl⟩
    rfl
  · rintro s t x y ⟨script, hH, rfl⟩ rfl
    exact ⟨script, hH, rfl⟩

theorem writeToRemote_corresponds (octets : List Octet) :
    Corresponds (SessionsAlike H) Eq (writeToRemote octets) (writeToRemote octets) := by
  have hwrite : Corresponds (SessionsAlike H) Eq
      (zoom Session.remoteSock (fun r s => { s with remoteSock := r }) (asyncWrite octets))
      (zoom Session.remoteSock (fun r s => { s with remoteSock := r }) (asyncWrite octets)) := by
    refine (corresponds_refl (asyncWrite octets)).zoom ?_ ?_
    · rintro s t ⟨script, hH, rfl⟩
      rfl
    · rintro s t x y ⟨script, hH, rfl⟩ rfl
      exact ⟨script, hH, rfl⟩
  exact hwrite.bind_eq fun _ => corresponds_pure rfl

theorem writeToClient_corresponds (octets : List Octet) :
    Corresponds (SessionsAlike H) Eq (writeToClient octets) (writeToClient octets) := by
  have hwrite : Corresponds (SessionsAlike H) Eq
      (zoom Session.clientSock (fun c s => { s with clientSock := c }) (asyncWrite octets))
      (zoom Session.clientSock (fun c s => { s with clientSock := c }) (asyncWrite octets)) := by
    refine (corresponds_refl (asyncWrite octets)).zoom ?_ ?_
    · rintro s t ⟨script, hH, rfl⟩
      rfl
    · rintro s t x y ⟨script, hH, rfl⟩ rfl
      exact ⟨script, hH, rfl⟩
  exact hwrite.bind_eq fun _ => corresponds_pure rfl

theorem orThrow_corresponds {α : Type} (r : Except Bytes α) :
    Corresponds (SessionsAlike H) Eq (orThrow r) (orThrow r) := by
  cases r with
  | ok a => exact corresponds_pure rfl
  | error what => exact corresponds_throw _

theorem closeRemote_corresponds :
    Corresponds (SessionsAlike H) Eq (closeRemote (η := η)) closeRemote := by
  refine (corresponds_modify ?_).bind_eq fun _ => corresponds_modify ?_
  · rintro s t ⟨script, hH, rfl⟩
    exact ⟨script, hH, rfl⟩
  · rintro s t ⟨script, hH, rfl⟩
    exact ⟨script, hH, rfl⟩

theorem close_corresponds : Corresponds (SessionsAlike H) Eq (close (η := η)) close := by
  refine corresponds_get.bind ?_
  rintro s t ⟨script, hH, rfl⟩
  refine corresponds_ite (fun _ => corresponds_pure rfl) fun _ => ?_
  refine (corresponds_modify ?_).bind_eq fun _ => closeRemote_corresponds.bind_eq fun _ =>
    corresponds_modify ?_
  · rintro s t ⟨script, hH, rfl⟩
    exact ⟨script, hH, rfl⟩
  · rintro s t ⟨script, hH, rfl⟩
    exact ⟨script, hH, rfl⟩

theorem resolveRemote_corresponds (info : RemoteInfo) :
    Corresponds (SessionsAlike H) Eq (resolveRemote (η := η) info) (resolveRemote info) := by
  -- both outcomes that change the session leave its runtime alone
  have hfails : Corresponds (SessionsAlike H) Eq
      (do modify fun s => { s with dials := s.dials.tail }; pure none :
        EStateM Stop (Session η) (Option (List Endpoint)))
      (do modify fun s => { s with dials := s.dials.tail }; pure none) := by
    refine (corresponds_modify ?_).bind_eq fun _ => corresponds_pure rfl
    rintro s t ⟨script, hH, rfl⟩
    exact ⟨script, hH, rfl⟩
  refine corresponds_get.bind ?_
  rintro s t ⟨script, hH, rfl⟩
  rw [show (s.withScript script).dials = s.dials from rfl]
  cases s.dials with
  | nil => exact corresponds_throw _
  | cons dial dials =>
    dsimp only
    cases dial.endpoints with
    | none => exact hfails
    | some endpoints =>
      refine corresponds_ite (fun _ => hfails) fun _ => ?_
      refine (corresponds_modify ?_).bind_eq fun _ => corresponds_pure rfl
      rintro s t ⟨script, hH, rfl⟩
      exact ⟨script, hH, rfl⟩

theorem connectRemote_corresponds (endpoints : List Endpoint) :
    Corresponds (SessionsAlike H) Eq (connectRemote (η := η) endpoints)
      (connectRemote endpoints) := by
  refine corresponds_get.bind ?_
  rintro s t ⟨script, hH, rfl⟩
  refine (corresponds_modify ?_).bind_eq fun _ => ?_
  · rintro s t ⟨script, hH, rfl⟩
    exact ⟨script, hH, rfl⟩
  rw [show (s.withScript script).dials = s.dials from rfl]
  cases connectFirst endpoints (s.dials.head?.elim [] Dial.attempts) with
  | none => exact corresponds_pure rfl
  | some reached =>
    refine (corresponds_modify ?_).bind_eq fun _ => corresponds_pure rfl
    rintro s t ⟨script, hH, rfl⟩
    exact ⟨script, hH, rfl⟩

theorem ensureRemoteConnected_corresponds (info : RemoteInfo) :
    Corresponds (SessionsAlike H) Eq (ensureRemoteConnected (η := η) info)
      (ensureRemoteConnected info) := by
  refine corresponds_get.bind ?_
  rintro s t ⟨script, hH, rfl⟩
  refine corresponds_ite (fun _ => corresponds_pure rfl) fun _ => ?_
  refine closeRemote_corresponds.bind_eq fun _ => (resolveRemote_corresponds info).bind_eq ?_
  rintro (_ | endpoints)
  · exact corresponds_pure rfl
  refine (connectRemote_corresponds endpoints).bind_eq fun connected => ?_
  refine corresponds_ite (fun _ => ?_) fun _ => corresponds_pure rfl
  refine (corresponds_modify ?_).bind_eq fun _ => corresponds_pure rfl
  rintro s t ⟨script, hH, rfl⟩
  exact ⟨script, hH, rfl⟩

theorem shouldKeepAlive_corresponds (parser : RequestParser) (response : ResponseParser) :
    Corresponds (SessionsAlike H) Eq (shouldKeepAlive (η := η) parser response)
      (shouldKeepAlive parser response) := by
  refine corresponds_get.bind ?_
  rintro s t ⟨script, hH, rfl⟩
  exact corresponds_pure rfl

theorem viaTunnel_corresponds (direction : Direction) :
    Corresponds (SessionsAlike H) Eq (viaTunnel (η := η) direction) (viaTunnel direction) := by
  cases direction with
  | clientToRemote => exact onUpLink_corresponds _
  | remoteToClient => exact onDownLink_corresponds _

theorem tunnelStep_corresponds (direction : Direction) :
    Corresponds (SessionsAlike H) Eq (tunnelStep (η := η) direction) (tunnelStep direction) := by
  intro s t hst
  have hm := viaTunnel_corresponds direction s t hst
  unfold tunnelStep
  generalize viaTunnel direction s = r at hm ⊢
  generalize viaTunnel direction t = r' at hm ⊢
  cases hm with
  | @ok running _ s₁ t₁ hrunning hH =>
    subst hrunning
    cases running with
    | true => exact .ok rfl hH
    | false => exact (close_corresponds.bind_eq fun _ => corresponds_pure rfl) s₁ t₁ hH
  | @error e s₁ t₁ hH =>
    cases e with
    | blocked => exact .ok rfl hst
    | outOfFuel => exact .error hH
    | thrown what => exact .error hH

theorem relayTunnelBidirectional_corresponds (schedule : List Direction) :
    ∀ up down, Corresponds (SessionsAlike H) Eq
      (relayTunnelBidirectional (η := η) schedule up down)
      (relayTunnelBidirectional schedule up down) := by
  have hresume : ∀ direction running, Corresponds (SessionsAlike H) Eq
      (resume (η := η) direction running) (resume direction running) := fun direction running =>
    corresponds_ite (fun _ => tunnelStep_corresponds direction) fun _ => corresponds_pure rfl
  induction schedule with
  | nil =>
    exact fun _ _ => corresponds_ite (fun _ => corresponds_throw _) fun _ => corresponds_pure rfl
  | cons direction schedule ih =>
    intro up down
    cases direction with
    | clientToRemote => exact (hresume _ up).bind_eq fun up => ih up down
    | remoteToClient => exact (hresume _ down).bind_eq fun down => ih up down

/-! ### The exchange -/

variable {env : Env η} {E' : Engine η'}
  {C : env.ruleEngine.script.Context → E'.script.Context → Prop}
  (hE : env.ruleEngine.Simulates E' H C)

include hE

theorem applyRequestRules_corresponds (header : RequestHeader) :
    Corresponds (SessionsAlike H) Eq (applyRequestRules env header)
      (applyRequestRules (env.withEngine E') header) := by
  refine corresponds_get.bind ?_
  rintro s t ⟨script, hH, rfl⟩
  have hworlds : WorldsAlike H (⟨s.script, header⟩ : World η RequestHeader) ⟨script, header⟩ :=
    ⟨rfl, hH⟩
  obtain ⟨hmessage, hscript⟩ := hE.ruledRequest env.ruleHttpConfig hworlds
  exact (corresponds_set ⟨_, hscript, rfl⟩).bind_eq fun _ => corresponds_pure hmessage

theorem applyResponseRules_corresponds (request : RequestHeader) (header : ResponseHeader) :
    Corresponds (SessionsAlike H) Eq (applyResponseRules env request header)
      (applyResponseRules (env.withEngine E') request header) := by
  refine corresponds_get.bind ?_
  rintro s t ⟨script, hH, rfl⟩
  have hworlds : WorldsAlike H (⟨s.script, header⟩ : World η ResponseHeader) ⟨script, header⟩ :=
    ⟨rfl, hH⟩
  obtain ⟨hmessage, hscript⟩ := hE.ruledResponse env.ruleHttpConfig request hworlds
  exact (corresponds_set ⟨_, hscript, rfl⟩).bind_eq fun _ => corresponds_pure hmessage

theorem forwardRequest_corresponds (parser : RequestParser) (raw : List Octet)
    (info : RemoteInfo) : Corresponds (SessionsAlike H) Eq (forwardRequest env parser raw info)
      (forwardRequest (env.withEngine E') parser raw info) := by
  have hbody : Corresponds (SessionsAlike H) Eq (forwardRequestBody env parser)
      (forwardRequestBody (env.withEngine E') parser) := by
    unfold forwardRequestBody
    dsimp only
    cases (determineRequestBodyInfo parser).framing with
    | contentLength => exact onUpLink_corresponds _
    | chunked => exact onUpLink_corresponds _
    | none => exact corresponds_pure rfl
  refine (orThrow_corresponds _).bind_eq fun header => ?_
  refine (applyRequestRules_corresponds hE header).bind_eq fun header => ?_
  refine Corresponds.bind_eq (m := writeRemoteRequestHeader env raw header) ?_ fun written => ?_
  · exact (orThrow_corresponds _).bind_eq fun request => writeToRemote_corresponds _
  refine corresponds_ite (fun _ => hbody.bind_eq fun sent => ?_) fun _ => corresponds_pure rfl
  exact corresponds_ite (fun _ => corresponds_pure rfl) fun _ => corresponds_pure rfl

theorem forwardResponse_corresponds (parser : RequestParser) (request : RequestHeader) :
    Corresponds (SessionsAlike H) Eq (forwardResponse env parser request)
      (forwardResponse (env.withEngine E') parser request) := by
  have hbody : ∀ response, Corresponds (SessionsAlike H) Eq
      (forwardResponseBody env parser response)
      (forwardResponseBody (env.withEngine E') parser response) := by
    intro response
    unfold forwardResponseBody
    dsimp only
    cases (determineResponseBodyInfo parser response).framing with
    | contentLength => exact onDownLink_corresponds _
    | chunked => exact onDownLink_corresponds _
    | closeDelimited => exact onDownLink_corresponds _
    | tunnel => exact corresponds_pure rfl
    | none => exact corresponds_pure rfl
  refine (onDownLink_corresponds (asyncReadHeader env.beast.parseResponse env.fuel)).bind_eq ?_
  rintro (_ | ⟨response, raw⟩)
  · exact corresponds_pure rfl
  refine (applyResponseRules_corresponds hE request response.header).bind_eq fun header => ?_
  refine Corresponds.bind_eq (m := writeRemoteResponseHeaderToClient env raw header)
    (writeToClient_corresponds _) fun written => ?_
  refine corresponds_ite (fun _ => (hbody response).bind_eq fun sent => ?_)
    fun _ => corresponds_pure rfl
  refine corresponds_ite (fun _ => ?_) fun _ => corresponds_pure rfl
  refine (shouldKeepAlive_corresponds parser response).bind_eq fun keepAlive => ?_
  exact corresponds_ite (fun _ => corresponds_pure rfl) fun _ => corresponds_pure rfl

theorem handleOneExchange_corresponds : Corresponds (SessionsAlike H) Eq (handleOneExchange env)
    (handleOneExchange (env.withEngine E')) := by
  refine (onUpLink_corresponds (asyncReadHeader env.beast.parseRequest env.fuel)).bind_eq ?_
  rintro (_ | ⟨parser, raw⟩)
  · exact corresponds_pure rfl
  refine corresponds_ite (fun _ => ?_) fun _ => ?_
  · unfold handleConnectExchange
    rw [show (env.withEngine E').urls = env.urls from rfl]
    cases parseRemoteInfo env.urls parser.header with
    | none => exact corresponds_pure rfl
    | some info =>
      refine (ensureRemoteConnected_corresponds info).bind_eq fun connected => ?_
      refine corresponds_ite (fun _ => ?_) fun _ => corresponds_pure rfl
      refine Corresponds.bind_eq (m := writeConnectEstablishedResponseToClient env)
        (writeToClient_corresponds _) fun written => ?_
      refine corresponds_ite (fun _ => ?_) fun _ => corresponds_pure rfl
      exact (relayTunnelBidirectional_corresponds env.schedule true true).bind_eq
        fun _ => corresponds_pure rfl
  · unfold handleHttpExchange
    rw [show (env.withEngine E').urls = env.urls from rfl]
    cases parseRemoteInfo env.urls parser.header with
    | none => exact corresponds_pure rfl
    | some info =>
      refine (ensureRemoteConnected_corresponds info).bind_eq fun connected => ?_
      refine corresponds_ite (fun _ => ?_) fun _ => corresponds_pure rfl
      refine (forwardRequest_corresponds hE parser raw info).bind_eq ?_
      rintro (_ | request)
      · exact corresponds_pure rfl
      · exact forwardResponse_corresponds hE parser request

/-- **Simulation.**  Over engines that answer alike a session runs alike. -/
theorem run_simulates : Corresponds (SessionsAlike H) Eq (run env) (run (env.withEngine E')) := by
  have hturn : ∀ b b' : Unit, b = b' → Corresponds (SessionsAlike H) (Sum.LiftRel Eq Eq)
      (runStep env b) (runStep (env.withEngine E') b') := by
    intro b b' _
    refine (handleOneExchange_corresponds hE).bind_eq fun r => ?_
    cases r with
    | «continue» => exact corresponds_pure (.inl rfl)
    | close => exact corresponds_pure (.inr rfl)
  exact (corresponds_whileLoop hturn env.fuel () () rfl).bind_eq fun _ => close_corresponds

end Simulation

/-! ## Many sessions -/

/-- What can be seen of the end of a run from outside the engine. -/
def observed {α : Type} : EStateM.Result Stop (Session η) α → EStateM.Result Stop (Session Unit) α
  | .ok a s => .ok a (s.withScript ⟨⟩)
  | .error e s => .error e (s.withScript ⟨⟩)

theorem observed_of_alike {α : Type} {H : η → η' → Prop} {r : EStateM.Result Stop (Session η) α}
    {r' : EStateM.Result Stop (Session η') α} (h : ResultsAlike (SessionsAlike H) Eq r r') :
    observed r' = observed r := by
  cases h with
  | ok ha ht =>
    obtain ⟨script, -, rfl⟩ := ht
    rw [ha]
    rfl
  | error ht =>
    obtain ⟨script, -, rfl⟩ := ht
    rfl

/-- A session on an engine that the others use in between. -/
theorem run_undisturbed {ι : Type} [DecidableEq ι] {env : Env η} {H : η → η → Prop}
    {C : env.ruleEngine.script.Context → env.ruleEngine.script.Context → Prop}
    (hE : env.ruleEngine.Simulates env.ruleEngine H C) {s : Session η} (hs : H s.script s.script)
    {i : ι} {calls : List (ι × (η → η))}
    (hothers : ∀ call ∈ calls, call.1 ≠ i → Unnoticed H call.2) :
    ResultsAlike (SessionsAlike (Undisturbed H)) Eq (run env s)
      (run (env.withEngine env.ruleEngine.interrupted)
        (s.withScript (s.script, foreignCalls i id calls))) := by
  have hstart : Undisturbed H s.script (s.script, foreignCalls i id calls) :=
    ⟨hs, unnoticed_foreignCalls hothers fun h h' hH => hH⟩
  exact run_simulates hE.interrupted s _ ⟨_, hstart, rfl⟩

/-- **Sessions do not disturb each other.**  However the sessions of a server take turns on the one
rule engine, a session whose engine answers alike from runtimes related by `H`, a relation the calls
of the others keep, goes as if it had the engine to itself. -/
theorem sessions_undisturbed {ι : Type} [DecidableEq ι] (env : Env η) (H : η → η → Prop)
    (C : env.ruleEngine.script.Context → env.ruleEngine.script.Context → Prop)
    (hE : env.ruleEngine.Simulates env.ruleEngine H C) (s : Session η) (hs : H s.script s.script)
    (i : ι) (calls : List (ι × (η → η)))
    (hothers : ∀ call ∈ calls, call.1 ≠ i → Unnoticed H call.2) :
    observed (run (env.withEngine env.ruleEngine.interrupted)
      (s.withScript (s.script, foreignCalls i id calls))) = observed (run env s) :=
  observed_of_alike (run_undisturbed hE hs hothers)

/-- An engine that numbers its contexts; a match is the method of the injected request. -/
def countingEngine : Engine ℕ where
  script :=
    { Context := ℕ × Bytes
      Value := Bool
      createContext := fun n => .ok (n, []) (n + 1)
      eval := fun context expr => pure (context.2 == expr)
      isBool := fun _ => true
      toBool := .ok }
  injectRequestContext context request := pure (context.1, request.method)
  injectResponseContext context request _ := pure (context.1, request.method)

/-- Requests to `a` are marked if they are `GET` requests. -/
def markedGets : Env ℕ :=
  { (Env.ofHosts [ascii "a"] [emptyOk]).withEngine countingEngine with
    ruleHttpConfig := some ⟨some [⟨ascii "mark", true, .request, some ⟨ascii "GET"⟩,
      [⟨.set, .header, .headerNameValue (ascii "X-Mark") (ascii "1")⟩]⟩]⟩ }

theorem countingEngine_simulates : countingEngine.Simulates countingEngine (fun _ _ => True)
    fun c c' => c.2 = c'.2 where
  createContext _ _ _ := .ok rfl ⟨⟩
  injectRequestContext _ _ _ _ := corresponds_pure rfl
  injectResponseContext _ _ _ _ _ := corresponds_pure rfl
  eval c c' hc expr := corresponds_pure ⟨rfl, by rw [show c.2 = c'.2 from hc]⟩

/-- Session 1 makes contexts before and between the calls of session 0. -/
theorem sessions_undisturbed_marked :
    let s := (Session.ofReads [(getOf (ascii "a")).1] [[emptyOk.1]]).withScript 0
    let calls : List (ℕ × (ℕ → ℕ)) := [(1, (· + 1)), (0, (· + 1)), (1, (· + 2)), (0, id)]
    observed (run (markedGets.withEngine markedGets.ruleEngine.interrupted)
      (s.withScript (s.script, foreignCalls 0 id calls))) = observed (run markedGets s) :=
  sessions_undisturbed markedGets (fun _ _ => True) (fun c c' => c.2 = c'.2)
    countingEngine_simulates _ ⟨⟩ 0 _ fun _ _ _ _ _ _ => ⟨⟩

end ProxyPP.Http
