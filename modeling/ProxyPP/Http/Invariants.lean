import ProxyPP.Http.Session

/-!
# ProxyPP.Http.Invariants — what every run of a session keeps

A relation on session states that allows each step of the session is kept by every run
(`Allows.run`), whether the run ends, waits, or is cut off.
-/

namespace ProxyPP.Http

open ProxyPP ProxyPP.Lib ProxyPP.Rules

variable {η : Type}

/-- `R` allows everything the coroutines of a session do. -/
structure Allows (env : Env η) (R : Session η → Session η → Prop) : Prop where
  readRequest : Within R (readClientRequestHeader env)
  connect : ∀ info, Within R (ensureRemoteConnected info)
  requestRules : ∀ header, Within R (applyRequestRules env header)
  responseRules : ∀ request header, Within R (applyResponseRules env request header)
  writeToRemote : ∀ octets, Within R (writeToRemote octets)
  writeToClient : ∀ octets, Within R (writeToClient octets)
  requestBody : ∀ parser, Within R (forwardRequestBody env parser)
  readResponse : Within R (readRemoteResponseHeader env)
  responseBody : ∀ parser response, Within R (forwardResponseBody env parser response)
  tunnel : ∀ direction, Within R (viaTunnel direction)
  close : Within R close

variable {env : Env η} {R : Session η → Session η → Prop} [IsPreorder (Session η) R]

/-- The coroutines of a tunnel keep what their operations and closing keep. -/
theorem within_relay (htunnel : ∀ direction, Within R (viaTunnel (η := η) direction))
    (hclose : Within R (close (η := η))) (schedule : List Direction) :
    ∀ up down, Within R (relayTunnelBidirectional schedule up down) := by
  have hstep : ∀ direction, Within R (tunnelStep (η := η) direction) := by
    intro direction s
    have hvia := htunnel direction s
    unfold Ends tunnelStep at *
    cases hr : viaTunnel direction s with
    | ok running t =>
      rw [hr] at hvia
      cases running with
      | true => exact hvia
      | false => exact (Within.bind hclose fun _ => within_pure false).after hvia
    | error e t =>
      rw [hr] at hvia
      cases e with
      | blocked => exact Std.Refl.refl s
      | outOfFuel => exact hvia
      | thrown what => exact hvia
  have hresume : ∀ direction running, Within R (resume (η := η) direction running) :=
    fun direction _ => within_ite (fun _ => hstep direction) fun _ => within_pure _
  induction schedule with
  | nil => exact fun _ _ => within_ite (fun _ => within_throw _) fun _ => within_pure _
  | cons direction schedule ih =>
    intro up down
    cases direction with
    | clientToRemote => exact Within.bind (hresume _ up) fun up => ih up down
    | remoteToClient => exact Within.bind (hresume _ down) fun down => ih up down

theorem Allows.forwardRequest (h : Allows env R) (parser : RequestParser) (raw : List Octet)
    (info : RemoteInfo) : Within R (forwardRequest env parser raw info) := by
  have hthrow : ∀ {α : Type} (r : Except Bytes α),
      Within R (orThrow r : EStateM Stop (Session η) α) := by
    intro α r
    cases r with
    | ok a => exact within_pure a
    | error what => exact within_throw _
  refine Within.bind (hthrow _) fun header => ?_
  refine Within.bind (h.requestRules _) fun header => ?_
  refine Within.bind (Within.bind (hthrow _) fun _ => h.writeToRemote _) fun _ => ?_
  refine within_ite (fun _ => ?_) fun _ => within_pure _
  refine Within.bind (h.requestBody parser) fun _ => ?_
  exact within_ite (fun _ => within_pure _) fun _ => within_pure _

theorem Allows.forwardResponse (h : Allows env R) (parser : RequestParser)
    (request : RequestHeader) : Within R (forwardResponse env parser request) := by
  refine Within.bind h.readResponse ?_
  rintro (_ | ⟨response, raw⟩)
  · exact within_pure _
  refine Within.bind (h.responseRules _ _) fun header => ?_
  refine Within.bind (h.writeToClient _) fun _ => within_ite (fun _ => ?_) fun _ => within_pure _
  refine Within.bind (h.responseBody parser response) fun _ =>
    within_ite (fun _ => ?_) fun _ => within_pure _
  refine Within.bind (Within.bind within_get fun _ => within_pure _) fun _ => ?_
  exact within_ite (fun _ => within_pure _) fun _ => within_pure _

theorem Allows.handleOneExchange (h : Allows env R) : Within R (handleOneExchange env) := by
  refine Within.bind h.readRequest ?_
  rintro (_ | ⟨parser, raw⟩)
  · exact within_pure _
  refine within_ite (fun _ => ?_) fun _ => ?_
  · unfold handleConnectExchange
    cases parseRemoteInfo env.urls parser.header with
    | none => exact within_pure _
    | some info =>
      refine Within.bind (h.connect info) fun _ => within_ite (fun _ => ?_) fun _ => within_pure _
      refine Within.bind (h.writeToClient _) fun _ => within_ite (fun _ => ?_) fun _ =>
        within_pure _
      exact Within.bind (within_relay h.tunnel h.close _ _ _) fun _ => within_pure _
  · unfold handleHttpExchange
    cases parseRemoteInfo env.urls parser.header with
    | none => exact within_pure _
    | some info =>
      refine Within.bind (h.connect info) fun _ => within_ite (fun _ => ?_) fun _ => within_pure _
      refine Within.bind (h.forwardRequest parser raw info) ?_
      rintro (_ | request)
      · exact within_pure _
      · exact h.forwardResponse parser request

/-- **Invariant rule.**  What all steps of a session keep, a run keeps. -/
theorem Allows.run (h : Allows env R) : Within R (run env) := by
  refine Within.bind (within_whileLoop (fun _ => ?_) _ _) fun _ => h.close
  refine Within.bind h.handleOneExchange fun r => ?_
  cases r with
  | «continue» => exact within_pure _
  | close => exact within_pure _

end ProxyPP.Http
