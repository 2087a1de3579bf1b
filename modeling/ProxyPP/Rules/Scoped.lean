import ProxyPP.Rules.Engine

/-!
# ProxyPP.Rules.Scoped — `ApplyRules` with the destructor of its context

The match context of a rule is a variable of the loop body, so it is destroyed where the iteration
ends: behind the actions, by a `continue`, and on every error path.  `applyRulesScoped` is the loop
with that destructor.

It is the loop of `Engine` over callbacks that destroy the context as early as they can, behind the
evaluation or a failed injection (`applyRulesScoped_eq`), so what holds of rule runs over every
script engine holds of it.  `ScopeRules` are the proof rules for what a run does to the script
state.
-/

namespace ProxyPP.Rules

open ProxyPP ProxyPP.Lib

variable {η μ R A : Type} {S : Script η}

/-! ## The code -/

section Code

variable (cb : Callbacks η μ R A S) (destroy : S.Context → η → η)

/-- `destroy` on the script state of a run. -/
def destroyIn (context : S.Context) (w : World η μ) : World η μ :=
  { w with script := destroy context w.script }

/-- One iteration, and the end of its scope. -/
def applyRuleScoped (rule : R) : EStateM Error (World η μ) PUnit :=
  if cb.filter rule then
    match cb.getMatch rule with
    | none => onMessage (executeActions cb.executeAction (cb.getActions rule))
    | some m => do
      let context ← onScript (createMatchContext S)
      atExit (destroyIn destroy context) do
        let w ← get
        let context ← onScript (cb.injectContext context w.message)
        let matched ← onScript (evaluateMatch S context m.expr)
        if matched then onMessage (executeActions cb.executeAction (cb.getActions rule))
        else pure ⟨⟩
  else pure ⟨⟩

def applyRulesScoped : List R → EStateM Error (World η μ) PUnit
  | [] => pure ⟨⟩
  | rule :: rules => do
    applyRuleScoped cb destroy rule
    applyRulesScoped rules

end Code

/-! ## The loop without destructors -/

/-- A script engine whose contexts are destroyed by their evaluation.  Beside a context stands the
one it was created as. -/
def Script.eager (S : Script η) (destroy : S.Context → η → η) : Script η where
  Context := S.Context × S.Context
  Value := S.Value
  createContext := (fun context => (context, context)) <$> S.createContext
  eval context expr := atExit (destroy context.1) (S.eval context.2 expr)
  isBool := S.isBool
  toBool := S.toBool

/-- The callbacks on it: a context that cannot be filled is destroyed as well. -/
def Callbacks.eager (cb : Callbacks η μ R A S) (destroy : S.Context → η → η) :
    Callbacks η μ R A (S.eager destroy) where
  filter := cb.filter
  injectContext context m := onError (destroy context.1) <|
    (fun filled => (context.1, filled)) <$> cb.injectContext context.2 m
  getMatch := cb.getMatch
  getActions := cb.getActions
  executeAction := cb.executeAction
  atomic := cb.atomic

theorem createMatchContext_eager (destroy : S.Context → η → η) :
    createMatchContext (S.eager destroy)
      = (fun context => (context, context)) <$> createMatchContext S := by
  funext h
  have hcreate : (S.eager destroy).createContext h
      = ((fun context => (context, context)) <$> S.createContext) h := rfl
  rw [map_run] at hcreate ⊢
  unfold createMatchContext
  rw [hcreate]
  cases S.createContext h with
  | ok c h' => rfl
  | error e h' => rfl

theorem evaluateMatch_eager (destroy : S.Context → η → η) (created context : S.Context)
    (expr : Bytes) : evaluateMatch (S.eager destroy) (created, context) expr
      = atExit (destroy created) (evaluateMatch S context expr) := by
  funext h
  cases hr : S.eval context expr h with
  | error e h' =>
    have heager : (S.eager destroy).eval (created, context) expr h
        = .error e (destroy created h') :=
      atExit_error hr
    simp only [evaluateMatch, atExit, hr, heager]
  | ok value h' =>
    have heager : (S.eager destroy).eval (created, context) expr h
        = .ok value (destroy created h') :=
      atExit_ok hr
    have hisBool : (S.eager destroy).isBool value = S.isBool value := rfl
    have htoBool : (S.eager destroy).toBool value = S.toBool value := rfl
    simp only [evaluateMatch, atExit, hr, heager, hisBool, htoBool]
    cases S.isBool value with
    | false => rfl
    | true => cases S.toBool value with
      | ok matched => rfl
      | error e => rfl

/-- Actions work on the message, so it is all the same to them whether the context is there. -/
theorem atExit_onMessage (destroy : S.Context → η → η) (context : S.Context) {α : Type}
    (m : EStateM Error μ α) (w : World η μ) :
    atExit (destroyIn destroy context) (onMessage m) w
      = onMessage m (destroyIn destroy context w) := by
  have hmessage : (destroyIn destroy context w).message = w.message := rfl
  simp only [atExit, onMessage, zoom, hmessage]
  cases m w.message with
  | ok a t => rfl
  | error e t => rfl

theorem injectContext_eager_ok {cb : Callbacks η μ R A S} (destroy : S.Context → η → η)
    {context filled : S.Context} {m : μ} {h h' : η}
    (hi : cb.injectContext context m h = .ok filled h') :
    (cb.eager destroy).injectContext (context, context) m h = .ok (context, filled) h' := by
  show onError (destroy context)
    ((fun filled => (context, filled)) <$> cb.injectContext context m) h
    = .ok (context, filled) h'
  exact onError_ok (by rw [map_run, hi])

theorem injectContext_eager_error {cb : Callbacks η μ R A S} (destroy : S.Context → η → η)
    {context : S.Context} {m : μ} {e : Error} {h h' : η}
    (hi : cb.injectContext context m h = .error e h') :
    (cb.eager destroy).injectContext (context, context) m h = .error e (destroy context h') := by
  show onError (destroy context)
    ((fun filled => (context, filled)) <$> cb.injectContext context m) h
    = .error e (destroy context h')
  exact onError_error (by rw [map_run, hi])

/-- The scope of a context, behind its creation. -/
theorem scope_eq (cb : Callbacks η μ R A S) (destroy : S.Context → η → η) (context : S.Context)
    (expr : Bytes) (actions : List A) (w : World η μ) :
    atExit (destroyIn destroy context) (do
      let w ← get
      let context ← onScript (cb.injectContext context w.message)
      let matched ← onScript (evaluateMatch S context expr)
      if matched then onMessage (executeActions cb.executeAction actions) else pure ⟨⟩) w
    = (do
      let w ← get
      let context ← onScript ((cb.eager destroy).injectContext (context, context) w.message)
      let matched ← onScript (evaluateMatch (S.eager destroy) context expr)
      if matched then onMessage (executeActions cb.executeAction actions) else pure ⟨⟩ :
        EStateM Error (World η μ) PUnit) w := by
  cases hi : cb.injectContext context w.message w.script with
  | error e h =>
    have hscoped := onScript_error (w := w) hi
    have heager := onScript_error (w := w) (injectContext_eager_error destroy hi)
    exact (atExit_error (bind_error hscoped)).trans (bind_error heager).symm
  | ok filled h =>
    have hscoped := onScript_ok (w := w) hi
    have heager := onScript_ok (w := w) (injectContext_eager_ok destroy hi)
    cases he : evaluateMatch S filled expr h with
    | error e h' =>
      have hevalScoped := onScript_error (w := ⟨h, w.message⟩) he
      have hevalEager := onScript_error (w := ⟨h, w.message⟩)
        (atExit_error (f := destroy context) he)
      rw [← evaluateMatch_eager] at hevalEager
      exact (atExit_error ((bind_ok hscoped).trans (bind_error hevalScoped))).trans
        ((bind_ok heager).trans (bind_error hevalEager)).symm
    | ok matched h' =>
      have hevalScoped := onScript_ok (w := ⟨h, w.message⟩) he
      have hevalEager := onScript_ok (w := ⟨h, w.message⟩) (atExit_ok (f := destroy context) he)
      rw [← evaluateMatch_eager] at hevalEager
      have hscope : (do
          let w ← get
          let context ← onScript (cb.injectContext context w.message)
          let matched ← onScript (evaluateMatch S context expr)
          if matched then onMessage (executeActions cb.executeAction actions) else pure ⟨⟩) w
          = (if matched then onMessage (executeActions cb.executeAction actions) else pure ⟨⟩ :
            EStateM Error (World η μ) PUnit) ⟨h', w.message⟩ :=
        (bind_ok hscoped).trans (bind_ok hevalScoped)
      refine Eq.trans ?_ ((bind_ok heager).trans (bind_ok hevalEager)).symm
      unfold atExit
      rw [hscope]
      cases matched with
      | true => exact atExit_onMessage destroy context _ ⟨h', w.message⟩
      | false => rfl

/-- One iteration. -/
theorem applyRuleScoped_eq (cb : Callbacks η μ R A S) (destroy : S.Context → η → η) (rule : R) :
    applyRuleScoped cb destroy rule = applyRule (cb.eager destroy) rule := by
  funext w
  unfold applyRuleScoped applyRule
  have hfilter : (cb.eager destroy).filter rule = cb.filter rule := rfl
  have hmatch : (cb.eager destroy).getMatch rule = cb.getMatch rule := rfl
  rw [hfilter, hmatch]
  cases cb.filter rule with
  | false => rfl
  | true =>
    cases cb.getMatch rule with
    | none => rfl
    | some m =>
      simp only [if_true]
      cases hc : createMatchContext S w.script with
      | error e h =>
        have heager : createMatchContext (S.eager destroy) w.script = .error e h := by
          rw [createMatchContext_eager, map_run, hc]
          rfl
        exact (bind_error (onScript_error hc)).trans (bind_error (onScript_error heager)).symm
      | ok context h =>
        have heager : createMatchContext (S.eager destroy) w.script = .ok (context, context) h := by
          rw [createMatchContext_eager, map_run, hc]
          rfl
        refine (bind_ok (onScript_ok hc)).trans (Eq.trans ?_ (bind_ok (onScript_ok heager)).symm)
        exact scope_eq cb destroy context m.expr (cb.getActions rule) _

/-- **The loop with destructors.** -/
theorem applyRulesScoped_eq (cb : Callbacks η μ R A S) (destroy : S.Context → η → η)
    (rules : List R) : applyRulesScoped cb destroy rules = applyRules (cb.eager destroy) rules := by
  induction rules with
  | nil => rfl
  | cons rule rules ih => rw [applyRulesScoped, applyRules, applyRuleScoped_eq, ih]

/-! ## What a run does to the script state -/

/-- `Open context h` is what holds in the scope of a context that was made in the state `h`, and
`Rel` relates `h` to the state behind the scope. -/
structure Scopes (cb : Callbacks η μ R A S) (destroy : S.Context → η → η) (Rel : η → η → Prop)
    (Open : S.Context → η → η → Prop) : Prop where
  failed : ∀ {h e h'}, createMatchContext S h = .error e h' → Rel h h'
  opened : ∀ {h context h'}, createMatchContext S h = .ok context h' → Open context h h'
  injected : ∀ {context h h'} m, Open context h h' → Ends (cb.injectContext context m) h'
    (fun filled h'' => filled = context ∧ Open context h h'') fun _ h'' => Open context h h''
  evaluated : ∀ {context h h'} expr, Open context h h' → Ends (evaluateMatch S context expr) h'
    (fun _ h'' => Open context h h'') fun _ h'' => Open context h h''
  closed : ∀ {context h h'}, Open context h h' → Rel h (destroy context h')

namespace Scopes

variable {cb : Callbacks η μ R A S} {destroy : S.Context → η → η} {Rel : η → η → Prop}
  {Open : S.Context → η → η → Prop} [IsPreorder η Rel]

/-- Actions leave the script state alone. -/
theorem onMessage_ends {I : η → Prop} {α : Type} (m : EStateM Error μ α) {w : World η μ}
    (hw : I w.script) : Ends (onMessage m) w (fun _ w' => I w'.script) fun _ w' => I w'.script := by
  refine ends_zoom ?_
  unfold Ends
  cases m w.message with
  | ok a m' => exact hw
  | error e m' => exact hw

/-- One iteration. -/
theorem applyRuleScoped_ends (hs : Scopes cb destroy Rel Open) (rule : R) (w : World η μ) :
    Ends (applyRuleScoped cb destroy rule) w (fun _ w' => Rel w.script w'.script)
      fun _ w' => Rel w.script w'.script := by
  have hrefl : Rel w.script w.script := Std.Refl.refl _
  unfold applyRuleScoped
  refine ends_ite (fun _ => ?_) fun _ => ends_pure hrefl
  cases cb.getMatch rule with
  | none => exact onMessage_ends _ hrefl
  | some m =>
    have hcreate : Ends (onScript (createMatchContext S)) w
        (fun context w' => Open context w.script w'.script) fun _ w' => Rel w.script w'.script := by
      refine ends_zoom ?_
      cases hc : createMatchContext S w.script with
      | ok context h => exact Ends.of_ok hc (hs.opened hc)
      | error e h => exact Ends.of_error hc (hs.failed hc)
    refine hcreate.bind fun context w' hopen => ends_atExit ?_
    have hbody : Ends (do
        let w ← get
        let context ← onScript (cb.injectContext context w.message)
        let matched ← onScript (evaluateMatch S context m.expr)
        if matched then onMessage (executeActions cb.executeAction (cb.getActions rule))
        else pure ⟨⟩) w' (fun _ w'' => Open context w.script w''.script)
        fun _ w'' => Open context w.script w''.script := by
      refine ends_bind (ends_get ?_)
      refine Ends.bind (P := fun filled w₁ => filled = context ∧ Open context w.script w₁.script)
        (ends_zoom (hs.injected w'.message hopen)) ?_
      rintro filled w₁ ⟨rfl, h₁⟩
      refine Ends.bind (P := fun _ w₂ => Open filled w.script w₂.script)
        (ends_zoom (hs.evaluated m.expr h₁)) fun matched w₂ h₂ => ?_
      exact ends_ite (fun _ => onMessage_ends _ h₂) fun _ => ends_pure h₂
    exact hbody.mono (fun _ _ h => hs.closed h) fun _ _ h => hs.closed h

/-- **A rule run** goes from scope to scope. -/
theorem applyRulesScoped_ends (hs : Scopes cb destroy Rel Open) (rules : List R) (w : World η μ) :
    Ends (applyRulesScoped cb destroy rules) w (fun _ w' => Rel w.script w'.script)
      fun _ w' => Rel w.script w'.script := by
  induction rules generalizing w with
  | nil => exact ends_pure (Std.Refl.refl _)
  | cons rule rules ih =>
    refine (hs.applyRuleScoped_ends rule w).bind fun _ w' hw => ?_
    refine (ih w').mono (fun _ w'' hw' => ?_) fun _ w'' hw' => ?_
    · exact IsTrans.trans _ _ _ hw hw'
    · exact IsTrans.trans _ _ _ hw hw'

end Scopes

end ProxyPP.Rules
