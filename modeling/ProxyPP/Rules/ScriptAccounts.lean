import ProxyPP.Qjs.Accounts
import ProxyPP.Rules.ContextInjector

/-!
# ProxyPP.Rules.ScriptAccounts — `EvaluateMatch`, and the handles of a match context

`RuleEngine::EvaluateMatch` as it is over QuickJS, where the result of an expression is a value with
a handle.  Filling a context and evaluating in it are accounted for: however they end, every handle
they made has departed.
-/

namespace ProxyPP.Rules

open ProxyPP ProxyPP.Lib ProxyPP.Http ProxyPP.Qjs

variable {N J : Type}

/-! ## `EvaluateMatch` -/

namespace RuleEngine

variable (I : Interpreter N J)

/-- The second half of `EvaluateMatch`: what is read off the result. -/
def readMatch (expr : Bytes) (result : Value J) : EStateM Error (Runtime N J) Bool :=
  if result.isBool I then
    EStateM.adaptExcept
      (fun e => ⟨.rule .matchEvaluationFailed,
        failedTo (ascii "convert match expression result to boolean") expr e.message⟩)
      (result.toBool I)
  else
    throw ⟨.rule .matchResultNotBoolean,
      ascii "match expression result is not boolean: expr=\"" ++ expr ++ ascii "\""⟩

/-- `RuleEngine::EvaluateMatch` -/
def evaluateMatch (context : MatchContext) (expr : Bytes) : EStateM Error (Runtime N J) Bool := do
  let result ← EStateM.adaptExcept
    (fun e => ⟨.rule .matchEvaluationFailed,
      failedTo (ascii "evaluate match expression") expr e.message⟩)
    (Qjs.Evaluator.eval I context.scriptContext expr Qjs.Evaluator.defaultFileName)
  atExit (result.destroy I.toQuickJs) (readMatch I expr result)

end RuleEngine

/-- What `EvaluateMatch` reads off the result of an expression. -/
structure Verdict where
  isBool : Bool
  matched : Except Error Bool

/-- `ToBool`, with its error as a value; a result that is not boolean is not converted. -/
def verdict (I : Interpreter N J) (result : Value J) : EStateM Error (Runtime N J) Verdict :=
  fun r =>
  if result.isBool I then
    match result.toBool I r with
    | .ok matched r' => .ok ⟨true, .ok matched⟩ r'
    | .error e r' => .ok ⟨true, .error e⟩ r'
  else .ok ⟨false, .ok false⟩ r

/-- Evaluation over QuickJS.  The result is read and destroyed. -/
def Evaluator.over (I : Interpreter N J) : Evaluator N J where
  Value := Verdict
  eval context expr := do
    let result ← Qjs.Evaluator.eval I context.scriptContext expr Qjs.Evaluator.defaultFileName
    atExit (result.destroy I.toQuickJs) (verdict I result)
  isBool := Verdict.isBool
  toBool := Verdict.matched

theorem evaluateMatch_over (I : Interpreter N J) (B : Beast) (context : MatchContext)
    (expr : Bytes) :
    evaluateMatch (qjsEngine I.toQuickJs B (.over I)).script context expr
      = RuleEngine.evaluateMatch I context expr := by
  funext r
  unfold RuleEngine.evaluateMatch
  cases hr : Qjs.Evaluator.eval I context.scriptContext expr Qjs.Evaluator.defaultFileName r with
  | error e r' =>
    have heval : (qjsEngine I.toQuickJs B (.over I)).script.eval context expr r = .error e r' :=
      bind_error hr
    refine Eq.trans ?_ (bind_error (adaptExcept_error hr)).symm
    unfold evaluateMatch
    rw [heval]
  | ok result r' =>
    have heval : (qjsEngine I.toQuickJs B (.over I)).script.eval context expr r
        = atExit (result.destroy I.toQuickJs) (verdict I result) r' := bind_ok hr
    refine Eq.trans ?_ (bind_ok (adaptExcept_eq_ok.mpr hr)).symm
    unfold evaluateMatch
    rw [heval]
    cases hb : result.isBool I with
    | false =>
      have hverdict : verdict I result r' = .ok ⟨false, .ok false⟩ r' := by simp [verdict, hb]
      have hread : RuleEngine.readMatch I expr result r' = .error ⟨.rule .matchResultNotBoolean,
          ascii "match expression result is not boolean: expr=\"" ++ expr ++ ascii "\""⟩ r' := by
        unfold RuleEngine.readMatch
        rw [hb]
        rfl
      rw [atExit_ok hverdict, atExit_error hread]
      rfl
    | true =>
      cases ht : result.toBool I r' with
      | ok matched r'' =>
        have hverdict : verdict I result r' = .ok ⟨true, .ok matched⟩ r'' := by
          simp [verdict, hb, ht]
        have hread : RuleEngine.readMatch I expr result r' = .ok matched r'' := by
          unfold RuleEngine.readMatch
          rw [hb]
          exact adaptExcept_eq_ok.mpr ht
        rw [atExit_ok hverdict, atExit_ok hread]
        rfl
      | error e r'' =>
        have hverdict : verdict I result r' = .ok ⟨true, .error e⟩ r'' := by
          simp [verdict, hb, ht]
        have hread : RuleEngine.readMatch I expr result r' = .error ⟨.rule .matchEvaluationFailed,
            failedTo (ascii "convert match expression result to boolean") expr e.message⟩ r'' := by
          unfold RuleEngine.readMatch
          rw [hb]
          exact adaptExcept_error ht
        rw [atExit_ok hverdict, atExit_error hread]
        rfl

/-! ## What an injection accounts for -/

section Accounts

variable {Q : QuickJs N J} {P : N → Prop} {context : JSContext}

/-- An object is built from what its setters are passed.  Whether the builder cannot be made, a
setter fails or the object is returned, nothing of that is left over. -/
theorem buildObject_accounts (hQ : Q.Respects P) {cleanup : Runtime N J → Runtime N J}
    {setters : List (Setter J)} {inp : Multiset ℕ} (hpassed : (setters.map Setter.passed).sum = inp)
    (hcleanup : (regime P context).Frees inp cleanup)
    (hsetters : ∀ s ∈ setters, s.OfContext context) : (regime P context).Accounts inp
      (buildObject Q cleanup context setters) (Value.OfContext context) Value.holds := by
  subst hpassed
  have hcreate : (regime P context).Accounts 0 (ObjectBuilder.create Q context)
      (fun b => b.context = context ∧ b.error = none ∧ b.object.OfContext context)
      fun b => b.object.holds := by
    unfold ObjectBuilder.create
    refine (create_accounts hQ (call_accounts (hQ.newObject _))).bind fun object hobject => ?_
    exact fun r => ends_pure ⟨⟨rfl, rfl, hobject⟩, .refl _ r⟩
  have hbuilder := hcreate.onError hcleanup
  rw [zero_add] at hbuilder
  unfold buildObject
  refine hbuilder.bind ?_
  rintro b ⟨hb, -, hobject⟩ r
  obtain ⟨hst, hsame⟩ := ObjectBuilder.applyAll_settles (P := P) hQ hb hsetters r
  have hframe := hst.frame b.object.holds
  rw [zero_add, add_comm] at hframe
  refine ends_bind (Ends.of_ok (a := (ObjectBuilder.applyAll Q setters b r).1)
    (t := (ObjectBuilder.applyAll Q setters b r).2) rfl ?_)
  unfold ObjectBuilder.build
  rw [hsame]
  cases (ObjectBuilder.applyAll Q setters b r).1.error with
  | none => exact ends_pure ⟨hobject, hframe⟩
  | some e => exact ends_atExit (ends_throw (hframe.trans (destroy_frees hQ hobject _)))

theorem addGlobalValue_accounts (hQ : Q.Respects P) (c : MatchContext) (name : Bytes)
    {value : Value J} (hvalue : value.OfContext c.scriptContext) :
    (regime P c.scriptContext).Accounts value.holds (c.addGlobalValue Q name value)
      (fun _ => True) fun _ => 0 := by
  unfold MatchContext.addGlobalValue
  have hglobal : (regime P c.scriptContext).Accounts 0 (Value.globalObject Q c.scriptContext)
      (Value.OfContext c.scriptContext) Value.holds :=
    create_accounts hQ (call_accounts (hQ.getGlobalObject _))
  have h : (regime P c.scriptContext).Accounts (0 + value.holds)
      (onError (value.destroy Q) (EStateM.adaptExcept (fun e => preparationFailed e.message)
        (Value.globalObject Q c.scriptContext))) (Value.OfContext c.scriptContext)
      fun global => global.holds + value.holds :=
    hglobal.adaptExcept.onError (destroy_frees hQ hvalue)
  rw [zero_add] at h
  refine h.bind fun global hg => ?_
  rw [add_comm]
  exact (setProperty_accounts hQ name hvalue).adaptExcept.atExit (destroy_frees hQ hg)

theorem addObject_accounts (hQ : Q.Respects P) (c : MatchContext) (name : Bytes)
    {object : Value J} (hobject : object.OfContext c.scriptContext) :
    (regime P c.scriptContext).Accounts object.holds (c.addObject Q name object)
      (fun _ => True) fun _ => 0 := by
  have hrefuse : ∀ e, (regime P c.scriptContext).Accounts object.holds
      (atExit (object.destroy Q) (throw e) : EStateM Error (Runtime N J) PUnit) (fun _ => True)
      fun _ => 0 := by
    intro e
    have h := (Regime.accounts_throw (R := regime P c.scriptContext) e (fun _ : PUnit => True)
      fun _ => 0).atExit (destroy_frees hQ hobject)
    rwa [zero_add] at h
  unfold MatchContext.addObject
  refine Regime.accounts_ite (fun _ => hrefuse _) fun _ => ?_
  exact Regime.accounts_ite (fun _ => hrefuse _) fun _ => addGlobalValue_accounts hQ c name hobject

theorem buildHeaderObject_accounts (hQ : Q.Respects P) (fields : Fields) :
    (regime P context).Accounts 0 (buildHeaderObject Q fields context) (Value.OfContext context)
      Value.holds := by
  refine buildObject_accounts hQ (List.sum_eq_zero fun n hn => ?_) Regime.frees_id fun s hs => ?_
  · rw [headerSetters, List.map_map] at hn
    obtain ⟨f, -, rfl⟩ := List.mem_map.mp hn
    rfl
  · obtain ⟨f, -, rfl⟩ := List.mem_map.mp hs
    trivial

/-- The request and the response object differ in the properties beside the headers. -/
theorem buildMessageObject_accounts (hQ : Q.Respects P) (fields : Fields)
    {setters : Value J → List (Setter J)}
    (hpassed : ∀ headers, ((setters headers).map Setter.passed).sum = headers.holds)
    (hsetters : ∀ headers : Value J, headers.OfContext context →
      ∀ s ∈ setters headers, s.OfContext context) :
    (regime P context).Accounts 0 (do
      let headerObject ← buildHeaderObject Q fields context
      buildObject Q (headerObject.destroy Q) context (setters headerObject))
      (Value.OfContext context) Value.holds :=
  (buildHeaderObject_accounts hQ fields).bind fun headers hheaders =>
    buildObject_accounts hQ (hpassed headers) (destroy_frees hQ hheaders)
      (hsetters headers hheaders)

theorem buildRequestObject_accounts (hQ : Q.Respects P) (request : RequestHeader) :
    (regime P context).Accounts 0 (buildRequestObject Q request context) (Value.OfContext context)
      Value.holds := by
  refine buildMessageObject_accounts hQ request.fields (fun headers => ?_)
    fun headers hheaders => ?_
  · simp [requestSetters, Setter.passed]
  · simpa [requestSetters, Setter.OfContext] using hheaders

theorem buildResponseObject_accounts (hQ : Q.Respects P) (B : Beast) (response : ResponseHeader) :
    (regime P context).Accounts 0 (buildResponseObject Q B response context)
      (Value.OfContext context) Value.holds := by
  refine buildMessageObject_accounts hQ response.fields (fun headers => ?_)
    fun headers hheaders => ?_
  · simp [responseSetters, Setter.passed]
  · simpa [responseSetters, Setter.OfContext] using hheaders

/-- **Injecting a request**, wherever it fails, leaves no handle. -/
theorem injectRequestContext_accounts (hQ : Q.Respects P) (c : MatchContext)
    (request : RequestHeader) : (regime P c.scriptContext).Accounts 0
      (injectRequestContext Q c request) (fun _ => True) fun _ => 0 := by
  unfold injectRequestContext
  refine (buildRequestObject_accounts hQ request).bind fun requestObj hrequest => ?_
  refine (buildObject_accounts hQ ?_ (destroy_frees hQ hrequest) ?_).bind fun ctxObj hctx =>
    addObject_accounts hQ c _ hctx
  · simp [requestContextSetters, Setter.passed]
  · simpa [requestContextSetters, Setter.OfContext] using hrequest

theorem injectResponseContext_accounts (hQ : Q.Respects P) (B : Beast) (c : MatchContext)
    (request : RequestHeader) (response : ResponseHeader) : (regime P c.scriptContext).Accounts 0
      (injectResponseContext Q B c request response) (fun _ => True) fun _ => 0 := by
  unfold injectResponseContext
  refine (buildRequestObject_accounts hQ request).bind fun requestObj hrequest => ?_
  have hresponse : (regime P c.scriptContext).Accounts requestObj.holds
      (onError (requestObj.destroy Q) (buildResponseObject Q B response c.scriptContext))
      (Value.OfContext c.scriptContext)
      fun responseObj => responseObj.holds + requestObj.holds := by
    have h := (buildResponseObject_accounts hQ B response).onError
      (destroy_frees (P := P) hQ hrequest)
    rwa [zero_add] at h
  refine hresponse.bind fun responseObj hresp => ?_
  have hboth := (destroy_frees (P := P) hQ hresp).comp (destroy_frees hQ hrequest)
  refine (buildObject_accounts hQ ?_ hboth ?_).bind fun ctxObj hctx =>
    addObject_accounts hQ c _ hctx
  · simp [responseContextSetters, Setter.passed, add_comm]
  · simpa [responseContextSetters, Setter.OfContext] using ⟨hrequest, hresp⟩

theorem evaluateMatch_accounts {I : Interpreter N J} (hI : I.Respects P) (c : MatchContext)
    (expr : Bytes) : (regime P c.scriptContext).Accounts 0 (RuleEngine.evaluateMatch I c expr)
      (fun _ => True) fun _ => 0 := by
  unfold RuleEngine.evaluateMatch
  refine (eval_accounts hI expr _).adaptExcept.bind fun result hresult => ?_
  have hread : (regime P c.scriptContext).Accounts 0 (RuleEngine.readMatch I expr result)
      (fun _ => True) fun _ => 0 := by
    unfold RuleEngine.readMatch
    refine Regime.accounts_ite (fun _ => ?_) fun _ => Regime.accounts_throw _ _ _
    exact (convert_accounts hI.toBool result).adaptExcept
  have h := hread.atExit (destroy_frees hI.toRespects hresult)
  rwa [zero_add] at h

end Accounts

end ProxyPP.Rules
