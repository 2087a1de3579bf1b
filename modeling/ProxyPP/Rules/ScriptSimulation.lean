import ProxyPP.Qjs.Likeness
import ProxyPP.Rules.Lifetimes
import ProxyPP.Rules.Simulation

/-!
# ProxyPP.Rules.ScriptSimulation — the rule engine over a shared QuickJS

The engine reaches QuickJS through the wrappers only.  So where the calls of QuickJS answer alike,
match contexts are filled and evaluated alike (`qjsEngine_simulates`), also by the engine that
destroys them (`Engine.Simulates.eager`).
-/

namespace ProxyPP.Rules

open ProxyPP ProxyPP.Lib ProxyPP.Http ProxyPP.Qjs

variable {N J : Type} {I : Interpreter N J} {L : Likeness N J}

/-! ## Filling a context -/

section Injection

variable (hI : I.AnswersAlike L) {c c' : JSContext} (hc : L.contexts c c') (hne : c ≠ nullptr)

include hI hc hne

theorem buildObject_corresponds {cleanup cleanup' : Runtime N J → Runtime N J}
    (hcleanup : ∀ r r', RuntimesAlike L r r' → RuntimesAlike L (cleanup r) (cleanup' r'))
    {ss ss' : List (Setter J)} (h : List.Forall₂ (SetterAlike L c c') ss ss') :
    Corresponds (RuntimesAlike L) (HeldAlike L c c') (buildObject I.toQuickJs cleanup c ss)
      (buildObject I.toQuickJs cleanup' c' ss') := by
  refine ((create_builder_corresponds hI hc hne).onError hcleanup).bind fun b b' hb => ?_
  have hall : Corresponds (RuntimesAlike L) (BuildersAlike L c c')
      (modifyGet (ObjectBuilder.applyAll I.toQuickJs ss b) : EStateM Error _ _)
      (modifyGet (ObjectBuilder.applyAll I.toQuickJs ss' b')) := by
    intro r r' hr
    obtain ⟨hb', hr'⟩ := applyAll_alike hI hc hne h hb hr
    exact .ok hb' hr'
  exact hall.bind fun b b' hb => hb.build hI hc hne

theorem buildHeaderObject_corresponds (fields : Fields) :
    Corresponds (RuntimesAlike L) (HeldAlike L c c') (buildHeaderObject I.toQuickJs fields c)
      (buildHeaderObject I.toQuickJs fields c') := by
  refine buildObject_corresponds hI hc hne (fun _ _ hr => hr) (List.forall₂_same.mpr ?_)
  intro s hs
  obtain ⟨f, -, rfl⟩ := List.mem_map.mp hs
  exact .setString _ _

theorem buildRequestObject_corresponds (request : RequestHeader) :
    Corresponds (RuntimesAlike L) (HeldAlike L c c') (buildRequestObject I.toQuickJs request c)
      (buildRequestObject I.toQuickJs request c') := by
  refine (buildHeaderObject_corresponds hI hc hne request.fields).bind fun object object' ho => ?_
  refine buildObject_corresponds hI hc hne (fun _ _ hr => destroy_alike hI hc hne ho hr) ?_
  exact .cons (.setString _ _) (.cons (.setString _ _) (.cons (.setInt32 _ _)
    (.cons (.setObject _ ho) .nil)))

theorem buildResponseObject_corresponds (B : Beast) (response : ResponseHeader) :
    Corresponds (RuntimesAlike L) (HeldAlike L c c')
      (buildResponseObject I.toQuickJs B response c)
      (buildResponseObject I.toQuickJs B response c') := by
  refine (buildHeaderObject_corresponds hI hc hne response.fields).bind fun object object' ho => ?_
  refine buildObject_corresponds hI hc hne (fun _ _ hr => destroy_alike hI hc hne ho hr) ?_
  exact .cons (.setInt32 _ _) (.cons (.setString _ _) (.cons (.setInt32 _ _)
    (.cons (.setObject _ ho) .nil)))

theorem addObject_corresponds (name : Bytes) {object object' : Value J}
    (h : HeldAlike L c c' object object') :
    Corresponds (RuntimesAlike L) Eq
      (MatchContext.addObject I.toQuickJs ⟨c⟩ name object)
      (MatchContext.addObject I.toQuickJs ⟨c'⟩ name object') := by
  obtain ⟨hvalid, hvalid'⟩ := h.isValid hne (ne_nullptr hI hc hne)
  have hdestroy : ∀ {v v' : Value J}, HeldAlike L c c' v v' → ∀ r r', RuntimesAlike L r r' →
      RuntimesAlike L (v.destroy I.toQuickJs r) (v'.destroy I.toQuickJs r') :=
    fun hv _ _ hr => destroy_alike hI hc hne hv hr
  unfold MatchContext.addObject
  rw [hvalid, hvalid', h.isObject hI hc hne]
  refine corresponds_ite (fun habsurd => absurd habsurd (by simp)) fun _ => ?_
  refine corresponds_ite (fun _ => (corresponds_throw _).atExit (hdestroy h)) fun _ => ?_
  have hglobal : Corresponds (RuntimesAlike L) (HeldAlike L c c')
      (Value.globalObject I.toQuickJs c) (Value.globalObject I.toQuickJs c') :=
    create_corresponds hI hc hne (call_corresponds (hI.getGlobalObject hc))
  refine (hglobal.adaptExcept.onError (hdestroy h)).bind fun global global' hg => ?_
  exact (setProperty_corresponds hI hc hne name hg h).adaptExcept.atExit (hdestroy hg)

theorem injectRequestContext_corresponds (request : RequestHeader) :
    Corresponds (RuntimesAlike L) Eq (injectRequestContext I.toQuickJs ⟨c⟩ request)
      (injectRequestContext I.toQuickJs ⟨c'⟩ request) := by
  refine (buildRequestObject_corresponds hI hc hne request).bind fun object object' ho => ?_
  refine Corresponds.bind (buildObject_corresponds hI hc hne
    (fun _ _ hr => destroy_alike hI hc hne ho hr) ?_)
    fun _ _ hctx => addObject_corresponds hI hc hne _ hctx
  exact .cons (.setString _ _) (.cons (.setObject _ ho) .nil)

theorem injectResponseContext_corresponds (B : Beast) (request : RequestHeader)
    (response : ResponseHeader) :
    Corresponds (RuntimesAlike L) Eq (injectResponseContext I.toQuickJs B ⟨c⟩ request response)
      (injectResponseContext I.toQuickJs B ⟨c'⟩ request response) := by
  refine (buildRequestObject_corresponds hI hc hne request).bind fun q q' hq => ?_
  refine ((buildResponseObject_corresponds hI hc hne B response).onError
    fun _ _ hr => destroy_alike hI hc hne hq hr).bind fun p p' hp => ?_
  refine Corresponds.bind (buildObject_corresponds hI hc hne (fun _ _ hr => ?_) ?_)
    fun _ _ hctx => addObject_corresponds hI hc hne _ hctx
  · exact destroy_alike hI hc hne hq (destroy_alike hI hc hne hp hr)
  · exact .cons (.setString _ _) (.cons (.setObject _ hq) (.cons (.setObject _ hp) .nil))

/-! ## Evaluating -/

theorem verdict_corresponds {v v' : Value J} (h : HeldAlike L c c' v v') :
    Corresponds (RuntimesAlike L) Eq (verdict I v) (verdict I v') := by
  obtain ⟨hvalid, hvalid'⟩ := h.isValid hne (ne_nullptr hI hc hne)
  have hbool : v.isBool I = v'.isBool I := by
    unfold Value.isBool
    rw [hvalid, hvalid', Bool.true_and, Bool.true_and]
    obtain ⟨id, id', hj⟩ := h
    exact hI.isBool hj
  have hread : Corresponds (RuntimesAlike L) Eq (v.toBool I) (v'.toBool I) := by
    unfold Value.toBool Value.convert
    rw [hvalid, hvalid']
    obtain ⟨id, id', hj⟩ := h
    exact call_corresponds (hI.toBool hc hj)
  intro r r' hr
  have hm := hread r r' hr
  unfold verdict
  rw [hbool]
  cases v'.isBool I with
  | false => exact .ok rfl hr
  | true =>
    rw [if_pos rfl, if_pos rfl]
    generalize v.toBool I r = x at hm ⊢
    generalize v'.toBool I r' = x' at hm ⊢
    cases hm with
    | ok hQ hr => exact .ok (by rw [hQ]) hr
    | error hr => exact .ok rfl hr

theorem eval_corresponds (expr : Bytes) : Corresponds (RuntimesAlike L) Eq
    ((Evaluator.over I).eval ⟨c⟩ expr) ((Evaluator.over I).eval ⟨c'⟩ expr) := by
  have heval : Corresponds (RuntimesAlike L) (HeldAlike L c c')
      (Qjs.Evaluator.eval I c expr Qjs.Evaluator.defaultFileName)
      (Qjs.Evaluator.eval I c' expr Qjs.Evaluator.defaultFileName) := by
    unfold Qjs.Evaluator.eval
    rw [if_neg hne, if_neg (ne_nullptr hI hc hne)]
    exact (call_corresponds (hI.evalGlobal expr _ hc).adaptExcept).bind
      fun _ _ hj => adopt_corresponds hI hj
  exact heval.bind fun v v' hv => (verdict_corresponds hI hc hne hv).atExit
    fun _ _ hr => destroy_alike hI hc hne hv hr

end Injection

/-! ## The engine -/

/-- Contexts that are alike, and no null pointers. -/
def ContextsAlike (L : Likeness N J) (c c' : MatchContext) : Prop :=
  L.contexts c.scriptContext c'.scriptContext ∧ c.scriptContext ≠ nullptr

theorem createContext_corresponds (hI : I.AnswersAlike L) :
    Corresponds (RuntimesAlike L) (fun c c' => L.contexts c c' ∧ c ≠ nullptr)
      (createContext I.toQuickJs) (createContext I.toQuickJs) := by
  intro r r' hr
  obtain ⟨hc, hn⟩ := hI.newContext r.native r'.native hr
  unfold createContext
  dsimp only
  by_cases hnull : (I.newContext r.native).1 = nullptr
  · rw [if_pos hnull, if_pos ((hI.nullptr hc).mp hnull)]
    exact .error hn
  · rw [if_neg hnull, if_neg fun h => hnull ((hI.nullptr hc).mpr h)]
    exact .ok ⟨hc, hnull⟩ hn

/-- **The rule engine** answers alike where QuickJS does. -/
theorem qjsEngine_simulates (hI : I.AnswersAlike L) (B : Beast) :
    (qjsEngine I.toQuickJs B (.over I)).Simulates (qjsEngine I.toQuickJs B (.over I))
      (RuntimesAlike L) (ContextsAlike L) where
  createContext := (createContext_corresponds hI).bind fun _ _ hc => corresponds_pure hc
  injectRequestContext := fun _ _ hc request =>
    (injectRequestContext_corresponds hI hc.1 hc.2 request).bind fun _ _ _ => corresponds_pure hc
  injectResponseContext := fun _ _ hc request response =>
    (injectResponseContext_corresponds hI hc.1 hc.2 B request response).bind
      fun _ _ _ => corresponds_pure hc
  eval := fun _ _ hc expr =>
    (eval_corresponds hI hc.1 hc.2 expr).mono fun _ _ h => ⟨by rw [h], by rw [h]⟩

/-- Engines that destroy their contexts early. -/
theorem Engine.Simulates.eager {η η' : Type} {E : Engine η} {E' : Engine η'} {H : η → η' → Prop}
    {C : E.script.Context → E'.script.Context → Prop} (h : E.Simulates E' H C)
    {destroy : E.script.Context → η → η} {destroy' : E'.script.Context → η' → η'}
    (hdestroy : ∀ c c', C c c' → ∀ x y, H x y → H (destroy c x) (destroy' c' y)) :
    (E.eager destroy).Simulates (E'.eager destroy') H
      (fun p p' => C p.1 p'.1 ∧ C p.2 p'.2) where
  createContext := h.createContext.map fun _ _ hc => ⟨hc, hc⟩
  injectRequestContext := fun _ _ hp request =>
    ((h.injectRequestContext _ _ hp.2 request).map fun _ _ hc => ⟨hp.1, hc⟩).onError
      (hdestroy _ _ hp.1)
  injectResponseContext := fun _ _ hp request response =>
    ((h.injectResponseContext _ _ hp.2 request response).map fun _ _ hc => ⟨hp.1, hc⟩).onError
      (hdestroy _ _ hp.1)
  eval := fun _ _ hp expr => (h.eval _ _ hp.2 expr).atExit (hdestroy _ _ hp.1)

theorem destroyContext_alike (hI : I.AnswersAlike L) {c c' : MatchContext}
    (hc : ContextsAlike L c c') {r r' : Runtime N J} (hr : RuntimesAlike L r r') :
    RuntimesAlike L (destroyContext I c.scriptContext r)
      (destroyContext I c'.scriptContext r') := by
  unfold destroyContext
  rw [if_neg hc.2, if_neg (ne_nullptr hI hc.1 hc.2)]
  exact hI.freeContext hc.1 r.native r'.native hr

end ProxyPP.Rules
