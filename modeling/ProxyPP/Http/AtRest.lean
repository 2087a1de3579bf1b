import ProxyPP.Http.Invariants
import ProxyPP.Http.Runs
import ProxyPP.Http.SessionSteps
import ProxyPP.Http.Sharing
import ProxyPP.Rules.Lifetimes

/-!
# ProxyPP.Http.AtRest — the script runtime between the rule runs

A session touches the script runtime only in its rule runs, and these do not wait.  So what a rule
run keeps is kept by sessions (`allows_onScript`); over QuickJS, whenever a session waits for one of
its peers or is over, no context is left and every handle that was made has departed
(`sessions_leave_nothing`).
-/

namespace ProxyPP.Http

open ProxyPP ProxyPP.Lib ProxyPP.Rules ProxyPP.Qjs

/-! ## Relations on the script state -/

section Script

variable {η : Type}

/-- The script states are related. -/
def OnScript (P : η → η → Prop) (s t : Session η) : Prop := P s.script t.script

variable {P : η → η → Prop} [IsPreorder η P]

instance : IsPreorder (Session η) (OnScript P) where
  refl s := Std.Refl.refl s.script
  trans s t u h h' := IsTrans.trans s.script t.script u.script h h'

theorem OnScript.of_eq {s t : Session η} (h : t.script = s.script) : OnScript P s t := by
  rw [OnScript, h]
  exact Std.Refl.refl s.script

theorem onScript_up {α : Type} (m : EStateM Stop Link α) :
    Within (OnScript P) (onUpLink m : EStateM Stop (Session η) α) :=
  within_zoom (fun _ _ => .of_eq rfl) m

theorem onScript_down {α : Type} (m : EStateM Stop Link α) :
    Within (OnScript P) (onDownLink m : EStateM Stop (Session η) α) :=
  within_zoom (fun _ _ => .of_eq rfl) m

theorem onScript_connect (info : RemoteInfo) :
    Within (OnScript P) (ensureRemoteConnected (η := η) info) := by
  intro s
  have hlost : ∀ t, Loses s t → OnScript P s t := by
    intro t ht
    unfold Loses at ht
    exact .of_eq (by rw [ht])
  refine (ensureRemoteConnected_ends info s).mono ?_ fun e t ht => hlost t ht.2
  rintro (_ | _) t ht
  · exact hlost t ht
  · have hconnects : Connects info s t := ht
    exact .of_eq (by rw [hconnects.frame.1])

/-- **Sessions keep what their rule runs keep.** -/
theorem allows_onScript {env : Env η}
    (hrequest : ∀ w, P w.script (ruledRequest env.ruleEngine env.ruleHttpConfig w).script)
    (hresponse : ∀ request w,
      P w.script (ruledResponse env.ruleEngine env.ruleHttpConfig request w).script) :
    Allows env (OnScript P) where
  readRequest := onScript_up _
  connect := onScript_connect
  requestRules header s := hrequest ⟨s.script, header⟩
  responseRules request header s := hresponse request ⟨s.script, header⟩
  writeToRemote _ := Within.bind (within_zoom (fun _ _ => .of_eq rfl) _) fun _ => within_pure _
  writeToClient _ := Within.bind (within_zoom (fun _ _ => .of_eq rfl) _) fun _ => within_pure _
  requestBody parser := by
    unfold forwardRequestBody
    rcases determineRequestBodyInfo parser with ⟨framing, contentLength⟩
    cases framing with
    | none => exact within_pure true
    | contentLength => exact onScript_up _
    | chunked => exact onScript_up _
  readResponse := onScript_down _
  responseBody parser response := by
    unfold forwardResponseBody
    rcases determineResponseBodyInfo parser response with ⟨framing, contentLength⟩
    cases framing with
    | none => exact within_pure true
    | contentLength => exact onScript_down _
    | chunked => exact onScript_down _
    | closeDelimited => exact onScript_down _
    | tunnel => exact within_pure false
  tunnel direction := by
    cases direction with
    | clientToRemote => exact onScript_up _
    | remoteToClient => exact onScript_down _
  close s := by
    refine Ends.of_ok (close_run s) (.of_eq ?_)
    split <;> rfl

end Script

/-! ## Over QuickJS -/

section Runtime

variable {N J : Type} {A : Api N J} {pending : N → Bool}

/-- The rule engine over QuickJS that destroys its contexts. -/
def qjsEager (A : Api N J) (B : Beast) : Engine (Runtime (Native N) J) :=
  (qjsEngine A.interpreter.toQuickJs B (.over A.interpreter)).eager
    fun context : MatchContext => destroyContext A.interpreter context.scriptContext

theorem allows_lived (hA : A.Lawful pending) (B : Beast) (env : Env (Runtime (Native N) J)) :
    Allows (env.withEngine (qjsEager A B)) (OnScript (Lived pending)) := by
  refine allows_onScript (fun w => ?_) fun request w => ?_
  · show Lived pending w.script (ruledRequest (qjsEager A B) env.ruleHttpConfig w).script
    unfold ruledRequest
    cases env.ruleHttpConfig with
    | none => exact Std.Refl.refl w.script
    | some config =>
      dsimp only
      rw [show applyRequest (qjsEager A B) config = _ from (applyRequestScoped_eq _ _ config).symm]
      exact applyRequestScoped_lived hA B config w
  · show Lived pending w.script (ruledResponse (qjsEager A B) env.ruleHttpConfig request w).script
    unfold ruledResponse
    cases env.ruleHttpConfig with
    | none => exact Std.Refl.refl w.script
    | some config =>
      dsimp only
      rw [show applyResponse (qjsEager A B) config request = _ from
        (applyResponseScoped_eq _ _ config request).symm]
      exact applyResponseScoped_lived hA B config request w

/-- **Sessions leave nothing in QuickJS.**  Whatever the peers send, in front of every exchange and
wherever the run waits or ends, the runtime is at rest: its contexts were created and destroyed one
after the other, and every handle and every temporary has gone, once. -/
theorem sessions_leave_nothing (hA : A.Lawful pending) (B : Beast)
    (env : Env (Runtime (Native N) J)) (s₀ : Session (Runtime (Native N) J))
    (hquiet : pending s₀.script.native.state = false) :
    (∀ k s, Reached (env.withEngine (qjsEager A B)) s₀ k s →
      LeavesNothing pending s₀.script s.script) ∧
    LeavesNothing pending s₀.script
      (stateOf (run (env.withEngine (qjsEager A B)) s₀)).script := by
  have hallows := allows_lived hA B env
  refine ⟨fun k s hs => ?_, ?_⟩
  · refine Lived.leavesNothing ?_ hquiet
    show OnScript (Lived pending) s₀ s
    induction hs with
    | start => exact Std.Refl.refl s₀
    | next _ hx ih => exact IsTrans.trans _ _ _ ih ((hallows.handleOneExchange _).ok hx)
  · exact (Ends.stateOf (I := OnScript (Lived pending) s₀) (hallows.run s₀)).leavesNothing hquiet

end Runtime

/-- A request and its response, with a rule whose expression throws. -/
theorem sessions_leave_nothing_throwing :
    let env := { (Env.ofHosts [ascii "a"] [emptyOk]).withEngine
      (qjsEager Api.tables HeadTable.minimal.beast) with ruleHttpConfig := some throwingConfig }
    let s₀ := (Session.ofReads [(getOf (ascii "a")).1] [[emptyOk.1]]).withScript freshRuntime
    (∀ k s, Reached env s₀ k s → LeavesNothing (fun n => n.2.isSome) freshRuntime s.script) ∧
    LeavesNothing (fun n => n.2.isSome) freshRuntime (stateOf (run env s₀)).script := by
  intro env s₀
  exact sessions_leave_nothing Api.tables_lawful HeadTable.minimal.beast env s₀ rfl

end ProxyPP.Http
