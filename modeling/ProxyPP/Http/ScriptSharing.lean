import ProxyPP.Http.AtRest
import ProxyPP.Rules.ScriptSimulation

/-!
# ProxyPP.Http.ScriptSharing — sessions that share QuickJS

What `sessions_undisturbed` asks of an engine is asked of the calls of QuickJS here: to one session
they answer alike, whatever the others do with contexts and values of their own
(`qjs_sessions_undisturbed`).  The engine is the one that destroys its contexts.
-/

namespace ProxyPP.Http

open ProxyPP ProxyPP.Lib ProxyPP.Rules ProxyPP.Qjs

variable {N J : Type} {A : Api N J} {L : Likeness N J}

theorem qjsEager_simulates (hA : A.AnswersAlike L) (B : Beast) :
    (qjsEager A B).Simulates (qjsEager A B) (RuntimesAlike L.native) fun p p' =>
      ContextsAlike L.native p.1 p'.1 ∧ ContextsAlike L.native p.2 p'.2 :=
  (qjsEngine_simulates hA.interpreter B).eager fun _ _ hc _ _ hr =>
    destroyContext_alike hA.interpreter hc hr

/-- **Sessions that share QuickJS.**  If its calls answer alike to a session from states that are
alike, and the calls of the other sessions keep them so, the session goes as if it had QuickJS to
itself. -/
theorem qjs_sessions_undisturbed {ι : Type} [DecidableEq ι] (hA : A.AnswersAlike L) (B : Beast)
    (env : Env (Runtime (Native N) J)) (s : Session (Runtime (Native N) J))
    (hs : L.states s.script.native.state s.script.native.state) (i : ι)
    (calls : List (ι × (Runtime (Native N) J → Runtime (Native N) J)))
    (hothers : ∀ call ∈ calls, call.1 ≠ i → Unnoticed (RuntimesAlike L.native) call.2) :
    observed (run (env.withEngine (qjsEager A B).interrupted)
      (s.withScript (s.script, foreignCalls i id calls)))
        = observed (run (env.withEngine (qjsEager A B)) s) := by
  let shared := env.withEngine (qjsEager A B)
  have hE : shared.ruleEngine.Simulates shared.ruleEngine (RuntimesAlike L.native) _ :=
    qjsEager_simulates hA B
  exact observed_of_alike (run_undisturbed hE hs hothers)

/-- An object that another session makes in its context. -/
def makesObject (r : Runtime (Native Api.Pending) (Option JsValue)) :
    Runtime (Native Api.Pending) (Option JsValue) :=
  stateOf (Value.object Api.tables.interpreter.toQuickJs 1 r)

/-- Session 1 makes objects before and between the calls of session 0. -/
theorem qjs_sessions_undisturbed_objects (env : Env (Runtime (Native Api.Pending) (Option JsValue)))
    (B : Beast) (s : Session (Runtime (Native Api.Pending) (Option JsValue))) :
    observed (run (env.withEngine (qjsEager Api.tables B).interrupted)
      (s.withScript (s.script, foreignCalls 0 id [(1, makesObject), (0, id), (1, makesObject)])))
        = observed (run (env.withEngine (qjsEager Api.tables B)) s) := by
  have hobject : Unnoticed (RuntimesAlike Likeness.tables.native) makesObject := fun _ _ hr => hr
  refine qjs_sessions_undisturbed Api.tables_answersAlike B env s rfl 0 _ fun call hcall hne => ?_
  rcases List.mem_cons.mp hcall with rfl | hcall
  · exact hobject
  rcases List.mem_cons.mp hcall with rfl | hcall
  · exact absurd rfl hne
  · rw [List.mem_singleton.mp hcall]
    exact hobject

end ProxyPP.Http
