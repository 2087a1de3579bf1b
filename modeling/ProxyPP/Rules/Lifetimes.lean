import ProxyPP.Qjs.Api
import ProxyPP.Rules.Scoped
import ProxyPP.Rules.ScriptAccounts

/-!
# ProxyPP.Rules.Lifetimes — the life of a match context

`ApplyRequest` and `ApplyResponse` with the destructors of their contexts.  They are the ones of
`Apply` over an engine that destroys a context early, so all that is proved of sessions over every
engine is true of sessions that destroy their contexts.

Over QuickJS a rule run goes from life to life (`Lives`): a context is created, and by the time it
is destroyed every handle that was made in it has departed, once, and no exception is left behind.
-/

namespace ProxyPP.Rules

open ProxyPP ProxyPP.Lib ProxyPP.Http ProxyPP.Qjs

variable {N J η : Type}

/-! ## The code -/

section Code

variable (engine : Engine η) (destroy : engine.script.Context → η → η)

def applyRequestScoped (httpConfig : Config) : EStateM Error (World η RequestHeader) PUnit :=
  match httpConfig.rules with
  | none => pure ⟨⟩
  | some rules =>
    if rules.isEmpty then pure ⟨⟩ else applyRulesScoped (requestCallbacks engine) destroy rules

def applyResponseScoped (httpConfig : Config) (request : RequestHeader) :
    EStateM Error (World η ResponseHeader) PUnit :=
  match httpConfig.rules with
  | none => pure ⟨⟩
  | some rules => applyRulesScoped (responseCallbacks engine request) destroy rules

end Code

/-! ## Destroying early -/

/-- The engine that destroys a context once it is evaluated, or not filled. -/
def Engine.eager (engine : Engine η) (destroy : engine.script.Context → η → η) : Engine η where
  script := engine.script.eager destroy
  injectRequestContext := ((requestCallbacks engine).eager destroy).injectContext
  injectResponseContext context request :=
    ((responseCallbacks engine request).eager destroy).injectContext context

theorem applyRequestScoped_eq (engine : Engine η) (destroy : engine.script.Context → η → η)
    (httpConfig : Config) :
    applyRequestScoped engine destroy httpConfig
      = applyRequest (engine.eager destroy) httpConfig := by
  unfold applyRequestScoped applyRequest
  cases httpConfig.rules with
  | none => rfl
  | some rules =>
    show (if _ then _ else _) = (if _ then _ else _)
    rw [applyRulesScoped_eq]
    rfl

theorem applyResponseScoped_eq (engine : Engine η) (destroy : engine.script.Context → η → η)
    (httpConfig : Config) (request : RequestHeader) :
    applyResponseScoped engine destroy httpConfig request
      = applyResponse (engine.eager destroy) httpConfig request := by
  unfold applyResponseScoped applyResponse
  cases httpConfig.rules with
  | none => rfl
  | some rules => exact applyRulesScoped_eq _ destroy rules

/-- **Destructors.**  A run whose contexts are destroyed where their iterations end, behind the
actions or on an error, decides rules and performs actions as the reference does over the engine
that destroys a context before the actions. -/
theorem scoped_runs_follow_reference (engine : Engine η) (destroy : engine.script.Context → η → η)
    (config : Config) (request : RequestHeader) :
    (∀ w, ∃ done error w', Reference (requestCallbacks (engine.eager destroy))
        (config.rules.getD []) w done error w' ∧
      applyRequestScoped engine destroy config w = outcome error w') ∧
    ∀ w, ∃ done error w', Reference (responseCallbacks (engine.eager destroy) request)
        (config.rules.getD []) w done error w' ∧
      applyResponseScoped engine destroy config request w = outcome error w' := by
  refine ⟨fun w => ?_, fun w => ?_⟩
  · rw [applyRequestScoped_eq, applyRequest_eq]
    exact applyRules_reference _ _ w
  · rw [applyResponseScoped_eq, applyResponse_eq]
    exact applyRules_reference _ _ w

/-! ## Lives -/

/-- The life of `context`, from `r` to `r'`. -/
structure Life (context : JSContext) (r r' : Runtime (Native N) J) : Prop where
  made : context ≠ nullptr
  events : r'.native.contexts = r.native.contexts ++ [.created context, .destroyed context]
  /-- Every handle that was made departed, in this life and of this context. -/
  handles : (regime (fun _ => True) context).Settles 0 0 r r'
  /-- Every reference to an exception and every C string was given back. -/
  temporaries : Native.regime.Settles 0 0 r.native r'.native

/-- From `r` to `r'`: one life after the other, of `contexts`, and attempts to create one. -/
inductive Lives : Runtime (Native N) J → List JSContext → Runtime (Native N) J → Prop
  | done (r : Runtime (Native N) J) : Lives r [] r
  | noContext {r r' : Runtime (Native N) J} {contexts : List JSContext} (state : N)
      (h : Lives { r with native := { r.native with state := state } } contexts r') :
      Lives r contexts r'
  | life {r r₁ r' : Runtime (Native N) J} {context : JSContext} {contexts : List JSContext}
      (hlife : Life context r r₁) (h : Lives r₁ contexts r') : Lives r (context :: contexts) r'

namespace Lives

variable {r r' r'' : Runtime (Native N) J} {contexts contexts' : List JSContext}

theorem trans (h : Lives r contexts r') (h' : Lives r' contexts' r'') :
    Lives r (contexts ++ contexts') r'' := by
  induction h with
  | done r => exact h'
  | noContext state _ ih => exact .noContext state (ih h')
  | life hlife _ ih => exact .life hlife (ih h')

/-- The log of the contexts: they do not overlap, and none is left. -/
theorem events (h : Lives r contexts r') : r'.native.contexts
    = r.native.contexts ++ contexts.flatMap fun c => [.created c, .destroyed c] := by
  induction h with
  | done r => simp
  | noContext state _ ih => exact ih
  | life hlife _ ih => rw [ih, hlife.events, List.flatMap_cons, List.append_assoc]

theorem made (h : Lives r contexts r') : nullptr ∉ contexts := by
  induction h with
  | done r => simp
  | noContext state _ ih => exact ih
  | life hlife _ ih =>
    intro hmem
    rcases List.mem_cons.mp hmem with heq | hmem
    · exact hlife.made heq.symm
    · exact ih hmem

/-- What the handles of these contexts are accounted for. -/
def books (contexts : List JSContext) : Regime (Runtime (Native N) J) (Departure J) where
  ledger r := ⟨r.created, r.departures⟩
  token d := d.handle.id
  allowed d := d.handle.context ∈ contexts
  invariant _ := True

theorem handles (h : Lives r contexts r') : (books contexts).Settles 0 0 r r' := by
  induction h with
  | done r => exact .refl 0 r
  | noContext state _ ih => exact ⟨fun _ => trivial, ih.issued, ih.balance⟩
  | @life r r₁ r' context contexts hlife _ ih =>
    have hfirst : (books (context :: contexts)).Settles 0 0 r r₁ :=
      hlife.handles.weaken rfl rfl (fun d hd => List.mem_cons.mpr (Or.inl hd)) id
    exact hfirst.trans (ih.weaken rfl rfl (fun d hd => List.mem_cons_of_mem _ hd) id)

theorem temporaries (h : Lives r contexts r') : Native.regime.Settles 0 0 r.native r'.native := by
  induction h with
  | done r => exact .refl 0 _
  | noContext state _ ih => exact ⟨fun _ => trivial, ih.issued, ih.balance⟩
  | life hlife _ ih => exact hlife.temporaries.trans ih

end Lives

/-! ## Scopes over QuickJS -/

section Scopes

variable {A : Api N J} {pending : N → Bool}

/-- What a rule run does to the runtime, if no exception is pending. -/
def Lived (pending : N → Bool) (r r' : Runtime (Native N) J) : Prop :=
  pending r.native.state = false →
    pending r'.native.state = false ∧ ∃ contexts, Lives r contexts r'

instance : IsPreorder (Runtime (Native N) J) (Lived pending) where
  refl r := fun h => ⟨h, [], .done r⟩
  trans r r' r'' h h' := fun hr => by
    obtain ⟨hr', contexts, hlives⟩ := h hr
    obtain ⟨hr'', contexts', hlives'⟩ := h' hr'
    exact ⟨hr'', _, hlives.trans hlives'⟩

/-- The runtime with `context`, which `JS_NewContext` made in `r`. -/
def withContext (context : JSContext) (state : N) (r : Runtime (Native N) J) :
    Runtime (Native N) J :=
  { r with native := { r.native with
    state := state
    contexts := r.native.contexts ++ [.created context] } }

/-- `r'` is in the scope of `context`, which was made in `r`. -/
def InScope (pending : N → Bool) (context : MatchContext) (r r' : Runtime (Native N) J) : Prop :=
  pending r.native.state = false → context.scriptContext ≠ nullptr ∧ ∃ state,
    pending state = false ∧
      (regime (Api.Calm pending (withContext context.scriptContext state r).native)
        context.scriptContext).Settles 0 0 (withContext context.scriptContext state r) r'

/-- `~Context` ends a life. -/
theorem InScope.closed (hA : A.Lawful pending) {context : MatchContext}
    {r r' : Runtime (Native N) J} (h : InScope pending context r r') :
    Lived pending r (destroyContext A.interpreter context.scriptContext r') := by
  intro hr
  obtain ⟨hmade, state, hstate, hst⟩ := h hr
  obtain ⟨hsettled, hquiet⟩ := hst.invariant (Api.calm_refl hstate)
  unfold destroyContext
  rw [if_neg hmade]
  refine ⟨hA.freeContext _ _ hquiet, [context.scriptContext], .life ⟨hmade, ?_, ?_, ?_⟩ (.done _)⟩
  · show r'.native.contexts ++ [.destroyed context.scriptContext] = _
    rw [hsettled.contexts]
    exact List.append_assoc _ _ _
  · exact ⟨fun _ => trivial, hst.issued, hst.balance⟩
  · exact ⟨fun _ => trivial, hsettled.temporaries.issued, hsettled.temporaries.balance⟩

/-- Accounting for a scope's handles keeps the scope. -/
theorem InScope.account {α : Type} {context : MatchContext}
    {m : EStateM Error (Runtime (Native N) J) α} {Q : α → Prop}
    (hm : ∀ n₀, (regime (Api.Calm pending n₀) context.scriptContext).Accounts 0 m Q fun _ => 0)
    {r r' : Runtime (Native N) J} (h : InScope pending context r r') :
    Ends m r' (fun a r'' => Q a ∧ InScope pending context r r'') fun _ r'' =>
      InScope pending context r r'' := by
  by_cases hr : pending r.native.state = false
  · obtain ⟨hmade, state, hstate, hst⟩ := h hr
    refine (hm (withContext context.scriptContext state r).native r').mono ?_ ?_
    · rintro a r'' ⟨hQ, hst'⟩
      exact ⟨hQ, fun _ => ⟨hmade, state, hstate, hst.trans hst'⟩⟩
    · rintro e r'' hst' -
      exact ⟨hmade, state, hstate, hst.trans hst'⟩
  · refine (hm r'.native r').mono (fun a r'' ha => ⟨ha.1, fun hr' => absurd hr' hr⟩) ?_
    exact fun _ r'' _ hr' => absurd hr' hr

/-- `Context::Create`: without a context there is no event. -/
theorem createContext_ends (A : Api N J) (r : Runtime (Native N) J) :
    Ends (createContext A.interpreter.toQuickJs) r
      (fun c r' => c ≠ nullptr ∧ r' = withContext c (A.newContext r.native.state).2 r)
      fun _ r' => r' = { r with native := { r.native with
        state := (A.newContext r.native.state).2 } } := by
  by_cases hc : (A.newContext r.native.state).1 = nullptr
  · refine Ends.of_error (e := qjsError .createContextFailed []) (t := _) ?_ rfl
    simp [createContext, Api.interpreter, hc]
  · refine Ends.of_ok (a := (A.newContext r.native.state).1) (t := _) ?_ ⟨hc, rfl⟩
    simp [createContext, Api.interpreter, hc, withContext]

theorem createMatchContext_ends (hA : A.Lawful pending) (B : Beast) (r : Runtime (Native N) J) :
    Ends (createMatchContext (qjsEngine A.interpreter.toQuickJs B (.over A.interpreter)).script) r
      (fun context r' => InScope pending context r r') fun _ r' => Lived pending r r' := by
  have hcreate := createContext_ends A r
  cases hr : createContext A.interpreter.toQuickJs r with
  | ok c r' =>
    obtain ⟨hc, rfl⟩ := hcreate.ok hr
    have hmake : (qjsEngine A.interpreter.toQuickJs B (.over A.interpreter)).script.createContext r
        = .ok ⟨c⟩ _ := bind_ok hr
    refine Ends.of_ok (a := ⟨c⟩) (t := withContext c (A.newContext r.native.state).2 r) ?_ ?_
    · unfold createMatchContext
      rw [hmake]
    · exact fun hquiet => ⟨hc, _, hA.newContext _ hquiet, .refl 0 _⟩
  | error e r' =>
    obtain rfl := hcreate.error hr
    have hmake : (qjsEngine A.interpreter.toQuickJs B (.over A.interpreter)).script.createContext r
        = .error e _ := bind_error hr
    refine Ends.of_error (e := ⟨.rule .ruleEngineInitializationFailed,
      ascii "create match context failed: " ++ e.message⟩) (t := { r with native := { r.native with
        state := (A.newContext r.native.state).2 } }) ?_ ?_
    · unfold createMatchContext
      rw [hmake]
    · exact fun hquiet => ⟨hA.newContext _ hquiet, [], .noContext _ (.done _)⟩

theorem evaluateMatch_ends (hA : A.Lawful pending) (B : Beast) {context : MatchContext}
    (expr : Bytes) {r r' : Runtime (Native N) J} (h : InScope pending context r r') :
    Ends (evaluateMatch (qjsEngine A.interpreter.toQuickJs B (.over A.interpreter)).script context
      expr) r' (fun _ r'' => InScope pending context r r'') fun _ r'' =>
        InScope pending context r r'' := by
  rw [evaluateMatch_over]
  exact (h.account fun n₀ => evaluateMatch_accounts (Api.respects hA) context expr).mono
    (fun _ _ h => h.2) fun _ _ h => h

/-- **A rule run over QuickJS**, for any callbacks that fill their contexts accountably. -/
theorem scopes (hA : A.Lawful pending) (B : Beast) {μ R α : Type}
    (cb : Callbacks (Runtime (Native N) J) μ R α
      (qjsEngine A.interpreter.toQuickJs B (.over A.interpreter)).script)
    (hcb : ∀ n₀ (context : MatchContext) m, (regime (Api.Calm pending n₀)
      context.scriptContext).Accounts 0 (cb.injectContext context m) (· = context) fun _ => 0) :
    Scopes cb (fun context : MatchContext =>
      destroyContext A.interpreter context.scriptContext) (Lived pending) (InScope pending) where
  failed := fun hc => (createMatchContext_ends hA B _).error hc
  opened := fun hc => (createMatchContext_ends hA B _).ok hc
  injected := fun {context} _ _ m hopen => hopen.account fun n₀ => hcb n₀ context m
  evaluated := fun expr hopen => evaluateMatch_ends hA B expr hopen
  closed := fun hopen => hopen.closed hA

theorem requestCallbacks_accounts (hA : A.Lawful pending) (B : Beast) (n₀ : Native N)
    (context : MatchContext) (request : RequestHeader) :
    (regime (J := J) (Api.Calm pending n₀) context.scriptContext).Accounts 0
      ((requestCallbacks (qjsEngine A.interpreter.toQuickJs B (.over A.interpreter))).injectContext
        context request) (· = context) fun _ => 0 :=
  (injectRequestContext_accounts (Api.respects hA).toRespects context request).bind fun _ _ r =>
    ends_pure ⟨rfl, .refl 0 r⟩

theorem responseCallbacks_accounts (hA : A.Lawful pending) (B : Beast) (n₀ : Native N)
    (request : RequestHeader) (context : MatchContext) (response : ResponseHeader) :
    (regime (J := J) (Api.Calm pending n₀) context.scriptContext).Accounts 0
      ((responseCallbacks (qjsEngine A.interpreter.toQuickJs B (.over A.interpreter))
        request).injectContext context response) (· = context) fun _ => 0 :=
  (injectResponseContext_accounts (Api.respects hA).toRespects B context request response).bind
    fun _ _ r => ends_pure ⟨rfl, .refl 0 r⟩

end Scopes

/-! ## Rule runs -/

/-- From `r` to `r'` nothing is left over. -/
structure LeavesNothing (pending : N → Bool) (r r' : Runtime (Native N) J) : Prop where
  quiet : pending r'.native.state = false
  /-- Contexts are created and destroyed one after the other, the handles of each in its life. -/
  lives : ∃ contexts, nullptr ∉ contexts ∧ Lives r contexts r' ∧ r'.native.contexts
    = r.native.contexts ++ contexts.flatMap fun c => [.created c, .destroyed c]
  /-- Each handle that was made departed, once. -/
  handles : ∃ ds, r'.departures = r.departures ++ ds ∧ (ds.map fun d => d.handle.id).Nodup ∧
    ∀ n, n ∈ ds.map (fun d => d.handle.id) ↔ r.created ≤ n ∧ n < r'.created
  /-- Each temporary that was taken was given back, once. -/
  temporaries : ∃ ids, r'.native.givenBack = r.native.givenBack ++ ids ∧ ids.Nodup ∧
    ∀ n, n ∈ ids ↔ r.native.taken ≤ n ∧ n < r'.native.taken

theorem Lived.leavesNothing {pending : N → Bool} {r r' : Runtime (Native N) J}
    (h : Lived pending r r') (hr : pending r.native.state = false) :
    LeavesNothing pending r r' := by
  obtain ⟨hquiet, contexts, hlives⟩ := h hr
  obtain ⟨ds, hds, -, hnodup, hmem⟩ := hlives.handles.closed
  obtain ⟨ids, hids, -, hnodup', hmem'⟩ := hlives.temporaries.closed
  have hid : ids.map (Native.regime (N := N)).token = ids := List.map_id ids
  rw [hid] at hnodup' hmem'
  exact ⟨hquiet, ⟨contexts, hlives.made, hlives, hlives.events⟩, ⟨ds, hds, hnodup, hmem⟩,
    ids, hids, hnodup', hmem'⟩

section Runs

variable {A : Api N J} {pending : N → Bool}

theorem applyRequestScoped_lived (hA : A.Lawful pending) (B : Beast) (config : Config)
    (w : World (Runtime (Native N) J) RequestHeader) : Lived pending w.script
      (stateOf (applyRequestScoped (qjsEngine A.interpreter.toQuickJs B (.over A.interpreter))
        (fun context : MatchContext => destroyContext A.interpreter context.scriptContext)
        config w)).script := by
  unfold applyRequestScoped
  cases config.rules with
  | none => exact Std.Refl.refl w.script
  | some rules =>
    dsimp only
    by_cases hempty : rules.isEmpty = true
    · rw [if_pos hempty]
      exact Std.Refl.refl w.script
    · rw [if_neg hempty]
      have hscopes := scopes hA B _
        fun n₀ context m => requestCallbacks_accounts hA B n₀ context m
      exact Ends.stateOf (I := fun w' : World _ RequestHeader => Lived pending w.script w'.script)
        (hscopes.applyRulesScoped_ends rules w)

theorem applyResponseScoped_lived (hA : A.Lawful pending) (B : Beast) (config : Config)
    (request : RequestHeader) (w : World (Runtime (Native N) J) ResponseHeader) :
    Lived pending w.script
      (stateOf (applyResponseScoped (qjsEngine A.interpreter.toQuickJs B (.over A.interpreter))
        (fun context : MatchContext => destroyContext A.interpreter context.scriptContext)
        config request w)).script := by
  unfold applyResponseScoped
  cases config.rules with
  | none => exact Std.Refl.refl w.script
  | some rules =>
    have hscopes := scopes hA B _
      fun n₀ context m => responseCallbacks_accounts hA B n₀ request context m
    exact Ends.stateOf (I := fun w' : World _ ResponseHeader => Lived pending w.script w'.script)
      (hscopes.applyRulesScoped_ends rules w)

/-- **Rule runs leave nothing in QuickJS**, whichever rules match, calls fail and actions are
rejected. -/
theorem rule_runs_leave_nothing {A : Api N J} {pending : N → Bool} (hA : A.Lawful pending)
    (B : Beast) (config : Config) {r : Runtime (Native N) J}
    (hr : pending r.native.state = false) :
    let engine := qjsEngine A.interpreter.toQuickJs B (.over A.interpreter)
    let destroy := fun context : MatchContext => destroyContext A.interpreter context.scriptContext
    (∀ request, LeavesNothing pending r
      (stateOf (applyRequestScoped engine destroy config ⟨r, request⟩)).script) ∧
    ∀ request response, LeavesNothing pending r
      (stateOf (applyResponseScoped engine destroy config request ⟨r, response⟩)).script := by
  intro engine destroy
  refine ⟨fun request => ?_, fun request response => ?_⟩
  · exact (applyRequestScoped_lived hA B config ⟨r, request⟩).leavesNothing hr
  · exact (applyResponseScoped_lived hA B config request ⟨r, response⟩).leavesNothing hr

end Runs

/-- A rule that matches and one whose expression throws. -/
def throwingConfig : Config :=
  ⟨some [⟨ascii "match", true, .request, some ⟨ascii "true"⟩,
      [⟨.add, .header, .headerNameValue (ascii "X-B") (ascii "2")⟩]⟩,
    ⟨ascii "throw", true, .request, some ⟨ascii "("⟩, []⟩]⟩

/-- The runtime before any call. -/
def freshRuntime : Runtime (Native Api.Pending) (Option JsValue) :=
  ⟨⟨(⟨0, 0, []⟩, none), 0, [], []⟩, 0, []⟩

theorem rule_runs_leave_nothing_throwing :
    let I := Api.tables.interpreter
    let w := stateOf (applyRequestScoped
      (qjsEngine I.toQuickJs HeadTable.minimal.beast (.over I))
      (fun context : MatchContext => destroyContext I context.scriptContext) throwingConfig
      ⟨freshRuntime, ⟨ascii "GET", 11, ascii "/", [⟨ascii "X-A", ascii "1"⟩]⟩⟩)
    LeavesNothing (fun n => n.2.isSome) freshRuntime w.script := by
  intro I w
  have h := rule_runs_leave_nothing Api.tables_lawful HeadTable.minimal.beast throwingConfig
    (r := freshRuntime) rfl
  exact h.1 _

end ProxyPP.Rules
