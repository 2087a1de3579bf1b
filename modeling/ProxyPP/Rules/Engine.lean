import ProxyPP.Lib.Program
import ProxyPP.Rules.Model

/-!
# ProxyPP.Rules.Engine — `rule_engine.h`, `rule_engine.cpp`

`ApplyRules` over any rule, action and message type, with its callbacks as parameters.  The script
engine is a parameter too: its state (the runtime shared by all contexts) is hidden, so a context
creation, an injection or an evaluation can go any way at any time.

`Reference` is what `ApplyRules` is for: rules decided from left to right on the message as the
earlier rules left it, and the actions of the decided rules performed in order up to the first
error.  `applyRules_eq_reference` says that the code is that.
-/

namespace ProxyPP.Rules

open ProxyPP ProxyPP.Lib

/-! ## The code -/

/-- The script engine: runtime states `η`, contexts and values. -/
structure Script (η : Type) where
  Context : Type
  Value : Type
  createContext : EStateM Error η Context
  eval : Context → Bytes → EStateM Error η Value
  isBool : Value → Bool
  toBool : Value → Except Error Bool

/-- The state of a rule run: the script runtime and the message the adapter wraps. -/
structure World (η μ : Type) where
  script : η
  message : μ
  deriving DecidableEq, Repr

variable {η μ R A : Type}

def onScript {α : Type} (m : EStateM Error η α) : EStateM Error (World η μ) α :=
  zoom World.script (fun h w => { w with script := h }) m

def onMessage {α : Type} (m : EStateM Error μ α) : EStateM Error (World η μ) α :=
  zoom World.message (fun m w => { w with message := m }) m

def executeActions (executeAction : A → EStateM Error μ PUnit) : List A → EStateM Error μ PUnit
  | [] => pure ⟨⟩
  | action :: actions => do
    executeAction action
    executeActions executeAction actions

variable (S : Script η)

def createMatchContext : EStateM Error η S.Context := fun h =>
  match S.createContext h with
  | .ok context h' => .ok context h'
  | .error e h' => .error
      ⟨.rule .ruleEngineInitializationFailed, ascii "create match context failed: " ++ e.message⟩ h'

/-- The message of an evaluation error. -/
def failedTo (what expr reason : Bytes) : Bytes :=
  ascii "failed to " ++ what ++ ascii ": expr=\"" ++ expr ++ ascii "\", error=\"" ++ reason
    ++ ascii "\""

def evaluateMatch (context : S.Context) (expr : Bytes) : EStateM Error η Bool := fun h =>
  match S.eval context expr h with
  | .error e h' => .error
      ⟨.rule .matchEvaluationFailed, failedTo (ascii "evaluate match expression") expr e.message⟩ h'
  | .ok value h' =>
    if S.isBool value then
      match S.toBool value with
      | .ok matched => .ok matched h'
      | .error e => .error ⟨.rule .matchEvaluationFailed,
          failedTo (ascii "convert match expression result to boolean") expr e.message⟩ h'
    else .error ⟨.rule .matchResultNotBoolean,
      ascii "match expression result is not boolean: expr=\"" ++ expr ++ ascii "\""⟩ h'

/-- The callbacks of `ApplyRules`.  An action that fails leaves the message as it is. -/
structure Callbacks (η μ R A : Type) (S : Script η) where
  filter : R → Bool
  injectContext : S.Context → μ → EStateM Error η S.Context
  getMatch : R → Option Match
  getActions : R → List A
  executeAction : A → EStateM Error μ PUnit
  atomic : ∀ {action m e m'}, executeAction action m = .error e m' → m' = m

variable {S} (cb : Callbacks η μ R A S)

/-- One iteration of the loop over the rules. -/
def applyRule (rule : R) : EStateM Error (World η μ) PUnit :=
  if cb.filter rule then
    match cb.getMatch rule with
    | none => onMessage (executeActions cb.executeAction (cb.getActions rule))
    | some m => do
      let context ← onScript (createMatchContext S)
      let w ← get
      let context ← onScript (cb.injectContext context w.message)
      let matched ← onScript (evaluateMatch S context m.expr)
      if matched then onMessage (executeActions cb.executeAction (cb.getActions rule))
      else pure ⟨⟩
  else pure ⟨⟩

def applyRules : List R → EStateM Error (World η μ) PUnit
  | [] => pure ⟨⟩
  | rule :: rules => do
    applyRule cb rule
    applyRules rules

/-! ## The reference semantics -/

/-- The verdict on an expression in a context, and the script state behind it: an error if the
evaluation fails, if the value is not a boolean or if it cannot be taken as one, and else the
value. -/
inductive Judges (S : Script η) (context : S.Context) (expr : Bytes) (h : η) :
    Except Error Bool → η → Prop
  | failed {e : Error} {h' : η} (he : S.eval context expr h = .error e h') :
      Judges S context expr h (.error ⟨.rule .matchEvaluationFailed,
        failedTo (ascii "evaluate match expression") expr e.message⟩) h'
  | notBoolean {value : S.Value} {h' : η} (he : S.eval context expr h = .ok value h')
      (hb : S.isBool value = false) :
      Judges S context expr h (.error ⟨.rule .matchResultNotBoolean,
        ascii "match expression result is not boolean: expr=\"" ++ expr ++ ascii "\""⟩) h'
  | notConverted {value : S.Value} {e : Error} {h' : η} (he : S.eval context expr h = .ok value h')
      (hb : S.isBool value = true) (hv : S.toBool value = .error e) :
      Judges S context expr h (.error ⟨.rule .matchEvaluationFailed,
        failedTo (ascii "convert match expression result to boolean") expr e.message⟩) h'
  | boolean {value : S.Value} {matched : Bool} {h' : η} (he : S.eval context expr h = .ok value h')
      (hb : S.isBool value = true) (hv : S.toBool value = .ok matched) :
      Judges S context expr h (.ok matched) h'

/-- Whether a rule runs its actions on message `m`, and the script state after deciding it. -/
inductive Decides (rule : R) (m : μ) (h : η) : Except Error Bool → η → Prop
  | rejected (hf : cb.filter rule = false) : Decides rule m h (.ok false) h
  | unconditional (hf : cb.filter rule = true) (hm : cb.getMatch rule = none) :
      Decides rule m h (.ok true) h
  | noContext {mt : Match} {e : Error} {h' : η} (hf : cb.filter rule = true)
      (hm : cb.getMatch rule = some mt) (hc : S.createContext h = .error e h') :
      Decides rule m h (.error ⟨.rule .ruleEngineInitializationFailed,
        ascii "create match context failed: " ++ e.message⟩) h'
  | notInjected {mt : Match} {c : S.Context} {e : Error} {h₁ h' : η} (hf : cb.filter rule = true)
      (hm : cb.getMatch rule = some mt) (hc : S.createContext h = .ok c h₁)
      (hi : cb.injectContext c m h₁ = .error e h') : Decides rule m h (.error e) h'
  | judged {mt : Match} {c c' : S.Context} {verdict : Except Error Bool} {h₁ h₂ h' : η}
      (hf : cb.filter rule = true) (hm : cb.getMatch rule = some mt)
      (hc : S.createContext h = .ok c h₁) (hi : cb.injectContext c m h₁ = .ok c' h₂)
      (hj : Judges S c' mt.expr h₂ verdict h') : Decides rule m h verdict h'

/-- The effect of a list of actions that all succeed. -/
def effect (executeAction : A → EStateM Error μ PUnit) : List A → μ → Option μ
  | [], m => some m
  | action :: actions, m => match executeAction action m with
    | .ok _ m' => effect executeAction actions m'
    | .error _ _ => none

/-- Of `actions` exactly `done` are performed: all of them, or those in front of the first that
fails. -/
structure Performs (executeAction : A → EStateM Error μ PUnit) (actions : List A) (m : μ)
    (done : List A) (error : Option Error) (m' : μ) : Prop where
  effect : effect executeAction done m = some m'
  all : error = none → actions = done
  failing : ∀ e, error = some e → ∃ action rest, actions = done ++ action :: rest ∧
    executeAction action m' = .error e m'

/-- The reference run of a rule list: the actions performed, the error it stopped at if any, and
the state it ends in. -/
inductive Reference : List R → World η μ → List A → Option Error → World η μ → Prop
  | nil (w : World η μ) : Reference [] w [] none w
  | undecided {rule : R} {rules : List R} {w : World η μ} {e : Error} {h : η}
      (hd : Decides cb rule w.message w.script (.error e) h) :
      Reference (rule :: rules) w [] (some e) ⟨h, w.message⟩
  | skipped {rule : R} {rules : List R} {w w' : World η μ} {h : η} {done : List A}
      {error : Option Error} (hd : Decides cb rule w.message w.script (.ok false) h)
      (hr : Reference rules ⟨h, w.message⟩ done error w') :
      Reference (rule :: rules) w done error w'
  | stopped {rule : R} {rules : List R} {w : World η μ} {h : η} {done : List A} {e : Error} {m : μ}
      (hd : Decides cb rule w.message w.script (.ok true) h)
      (hp : Performs cb.executeAction (cb.getActions rule) w.message done (some e) m) :
      Reference (rule :: rules) w done (some e) ⟨h, m⟩
  | performed {rule : R} {rules : List R} {w w' : World η μ} {h : η} {done done' : List A} {m : μ}
      {error : Option Error} (hd : Decides cb rule w.message w.script (.ok true) h)
      (hp : Performs cb.executeAction (cb.getActions rule) w.message done none m)
      (hr : Reference rules ⟨h, m⟩ done' error w') :
      Reference (rule :: rules) w (done ++ done') error w'

/-! ## The code is the reference -/

theorem executeActions_cons_ok {executeAction : A → EStateM Error μ PUnit} {action : A}
    {actions : List A} {m m₁ : μ} (h : executeAction action m = .ok ⟨⟩ m₁) :
    executeActions executeAction (action :: actions) m = executeActions executeAction actions m₁ :=
  bind_ok h

theorem effect_cons_ok {executeAction : A → EStateM Error μ PUnit} {action : A}
    {actions : List A} {m m₁ : μ} (h : executeAction action m = .ok ⟨⟩ m₁) :
    effect executeAction (action :: actions) m = effect executeAction actions m₁ := by
  rw [effect, h]

/-- The result of a run that stopped at `error`, if any, in state `t`. -/
def outcome {σ : Type} (error : Option Error) (t : σ) : EStateM.Result Error σ PUnit :=
  match error with
  | none => .ok ⟨⟩ t
  | some e => .error e t

theorem Performs.nil {executeAction : A → EStateM Error μ PUnit} (m : μ) :
    Performs executeAction [] m [] none m where
  effect := rfl
  all _ := rfl
  failing := by simp

theorem Performs.cons {executeAction : A → EStateM Error μ PUnit} {action : A}
    {actions done : List A} {m m₁ m' : μ} {error : Option Error}
    (h : Performs executeAction actions m₁ done error m')
    (hr : executeAction action m = .ok ⟨⟩ m₁) :
    Performs executeAction (action :: actions) m (action :: done) error m' where
  effect := by rw [effect_cons_ok hr]; exact h.effect
  all hnone := by rw [h.all hnone]
  failing e he := by
    obtain ⟨failed, rest, hsplit, hfail⟩ := h.failing e he
    exact ⟨failed, rest, by rw [hsplit]; rfl, hfail⟩

/-- The first action fails. -/
theorem Performs.failed {executeAction : A → EStateM Error μ PUnit} {action : A}
    {actions : List A} {m : μ} {e : Error} (hr : executeAction action m = .error e m) :
    Performs executeAction (action :: actions) m [] (some e) m where
  effect := rfl
  all := by simp
  failing e' he := by
    obtain rfl := Option.some.inj he
    exact ⟨action, actions, rfl, hr⟩

/-- `ExecuteActions` performs the actions in order up to the first failure. -/
theorem executeActions_performs (cb : Callbacks η μ R A S) : ∀ (actions : List A) (m : μ),
    ∃ done error m', Performs cb.executeAction actions m done error m' ∧
      executeActions cb.executeAction actions m = outcome error m'
  | [], m => ⟨[], none, m, .nil m, rfl⟩
  | action :: actions, m => by
    cases hr : cb.executeAction action m with
    | ok u m₁ =>
      obtain ⟨done, error, m', hp, hrun⟩ := executeActions_performs cb actions m₁
      exact ⟨action :: done, error, m', hp.cons hr, (executeActions_cons_ok hr).trans hrun⟩
    | error e m₁ =>
      have hm : m₁ = m := cb.atomic hr
      subst hm
      exact ⟨[], some e, m₁, .failed hr, bind_error hr⟩

theorem createMatchContext_ok {h h₁ : η} {c : S.Context} :
    createMatchContext S h = .ok c h₁ ↔ S.createContext h = .ok c h₁ := by
  unfold createMatchContext
  cases S.createContext h with
  | ok c' h' => rfl
  | error e h' => simp

theorem createMatchContext_error {h h' : η} {e : Error} (hc : S.createContext h = .error e h') :
    createMatchContext S h = .error ⟨.rule .ruleEngineInitializationFailed,
      ascii "create match context failed: " ++ e.message⟩ h' := by
  rw [createMatchContext, hc]

/-- A verdict as the result of `EvaluateMatch`. -/
def verdictResult (verdict : Except Error Bool) (h : η) : EStateM.Result Error η Bool :=
  match verdict with
  | .ok matched => .ok matched h
  | .error e => .error e h

theorem Judges.evaluateMatch {context : S.Context} {expr : Bytes} {h h' : η}
    {verdict : Except Error Bool} (hj : Judges S context expr h verdict h') :
    evaluateMatch S context expr h = verdictResult verdict h' := by
  unfold Rules.evaluateMatch
  cases hj with
  | failed he => rw [he]; rfl
  | notBoolean he hb => simp only [he, hb]; rfl
  | notConverted he hb hv => simp only [he, hb, hv]; rfl
  | boolean he hb hv => simp only [he, hb, hv]; rfl

/-- Every expression is judged. -/
theorem exists_judges (context : S.Context) (expr : Bytes) (h : η) :
    ∃ verdict h', Judges S context expr h verdict h' := by
  cases he : S.eval context expr h with
  | error e h' => exact ⟨_, h', .failed he⟩
  | ok value h' =>
    cases hb : S.isBool value with
    | false => exact ⟨_, h', .notBoolean he hb⟩
    | true =>
      cases hv : S.toBool value with
      | error e => exact ⟨_, h', .notConverted he hb hv⟩
      | ok matched => exact ⟨_, h', .boolean he hb hv⟩

/-- Every rule is decided. -/
theorem exists_decides (cb : Callbacks η μ R A S) (rule : R) (m : μ) (h : η) :
    ∃ decision h', Decides cb rule m h decision h' := by
  by_cases hf : cb.filter rule = true
  · cases hm : cb.getMatch rule with
    | none => exact ⟨_, _, .unconditional hf hm⟩
    | some mt =>
      cases hc : S.createContext h with
      | error e h₁ => exact ⟨_, _, .noContext hf hm hc⟩
      | ok c h₁ =>
        cases hi : cb.injectContext c m h₁ with
        | error e h₂ => exact ⟨_, _, .notInjected hf hm hc hi⟩
        | ok c' h₂ =>
          obtain ⟨verdict, h', hj⟩ := exists_judges c' mt.expr h₂
          exact ⟨verdict, h', .judged hf hm hc hi hj⟩
  · exact ⟨_, _, .rejected (by simpa using hf)⟩

/-- What one iteration does once the rule is decided. -/
def afterDecision (cb : Callbacks η μ R A S) (rule : R) (m : μ) (decision : Except Error Bool)
    (h : η) : EStateM.Result Error (World η μ) PUnit :=
  match decision with
  | .error e => .error e ⟨h, m⟩
  | .ok false => .ok ⟨⟩ ⟨h, m⟩
  | .ok true => onMessage (executeActions cb.executeAction (cb.getActions rule)) ⟨h, m⟩

theorem afterDecision_true {cb : Callbacks η μ R A S} {rule : R} {m m' : μ} {error : Option Error}
    {h : η} (hacts : executeActions cb.executeAction (cb.getActions rule) m = outcome error m') :
    afterDecision cb rule m (.ok true) h = outcome error ⟨h, m'⟩ := by
  unfold afterDecision onMessage zoom
  cases error with
  | none => simp only [hacts, outcome]
  | some e => simp only [hacts, outcome]

theorem onScript_ok {α : Type} {m : EStateM Error η α} {w : World η μ} {a : α} {h : η}
    (hr : m w.script = .ok a h) : onScript m w = .ok a ⟨h, w.message⟩ := zoom_ok hr

theorem onScript_error {α : Type} {m : EStateM Error η α} {w : World η μ} {e : Error} {h : η}
    (hr : m w.script = .error e h) : onScript m w = .error e ⟨h, w.message⟩ := by
  unfold onScript zoom; rw [hr]

/-- The iteration follows the decision. -/
theorem applyRule_of_decides {cb : Callbacks η μ R A S} {rule : R} {w : World η μ}
    {decision : Except Error Bool} {h : η} (hd : Decides cb rule w.message w.script decision h) :
    applyRule cb rule w = afterDecision cb rule w.message decision h := by
  cases hd with
  | rejected hf => rw [applyRule, if_neg (by simp [hf])]; rfl
  | unconditional hf hm => rw [applyRule, if_pos hf, hm]; rfl
  | noContext hf hm hc =>
    rw [applyRule, if_pos hf, hm]
    exact bind_error (onScript_error (createMatchContext_error hc))
  | notInjected hf hm hc hi =>
    have hc := createMatchContext_ok.mpr hc
    rw [applyRule, if_pos hf, hm]
    refine (bind_ok (onScript_ok hc)).trans ((bind_ok (get_run _)).trans ?_)
    exact bind_error (onScript_error hi)
  | @judged mt c c' verdict h₁ h₂ h' hf hm hc hi hj =>
    have hc := createMatchContext_ok.mpr hc
    have he := hj.evaluateMatch
    rw [applyRule, if_pos hf, hm]
    refine (bind_ok (onScript_ok hc)).trans ((bind_ok (get_run _)).trans ?_)
    refine (bind_ok (onScript_ok hi)).trans ?_
    cases decision with
    | error e =>
      have heval := onScript_error (w := ⟨h₂, w.message⟩) he
      exact bind_error heval
    | ok matched =>
      refine (bind_ok (onScript_ok he)).trans ?_
      cases matched with
      | true => rfl
      | false => rfl

theorem effect_append {executeAction : A → EStateM Error μ PUnit} {done done' : List A} {m m₁ : μ}
    (h : effect executeAction done m = some m₁) :
    effect executeAction (done ++ done') m = effect executeAction done' m₁ := by
  induction done generalizing m with
  | nil => rw [effect] at h; rw [List.nil_append, Option.some.inj h]
  | cons action done ih =>
    cases hr : executeAction action m with
    | ok u m₂ =>
      rw [effect_cons_ok hr] at h
      rw [List.cons_append, effect_cons_ok hr, ih h]
    | error e m₂ =>
      rw [effect, hr] at h
      exact absurd h (by simp)

/-- A list of actions is performed in one way. -/
theorem executeActions_of_performs {executeAction : A → EStateM Error μ PUnit}
    {actions done : List A} {m m' : μ} {error : Option Error}
    (hp : Performs executeAction actions m done error m') :
    executeActions executeAction actions m = outcome error m' := by
  have hrun : ∀ (done rest : List A) (m : μ), effect executeAction done m = some m' →
      executeActions executeAction (done ++ rest) m
        = executeActions executeAction rest m' := by
    intro done rest
    induction done with
    | nil =>
      intro m h
      rw [effect] at h
      rw [List.nil_append, Option.some.inj h]
    | cons action done ih =>
      intro m h
      cases hr : executeAction action m with
      | ok u m₁ =>
        rw [effect_cons_ok hr] at h
        rw [List.cons_append, executeActions_cons_ok hr, ih m₁ h]
      | error e m₁ =>
        rw [effect, hr] at h
        exact absurd h (by simp)
  cases error with
  | none =>
    have h := hrun done [] m hp.effect
    rw [List.append_nil] at h
    rw [hp.all rfl, h]
    rfl
  | some e =>
    obtain ⟨failed, rest, hsplit, hfail⟩ := hp.failing e rfl
    rw [hsplit, hrun done _ m hp.effect]
    exact bind_error hfail

/-- Every rule list has a reference run, and `ApplyRules` ends as it does. -/
theorem applyRules_reference (cb : Callbacks η μ R A S) (rules : List R) (w : World η μ) :
    ∃ done error w', Reference cb rules w done error w' ∧
      applyRules cb rules w = outcome error w' := by
  induction rules generalizing w with
  | nil => exact ⟨[], none, w, .nil w, rfl⟩
  | cons rule rules ih =>
    obtain ⟨decision, h, hd⟩ := exists_decides cb rule w.message w.script
    have hrule := applyRule_of_decides hd
    rcases decision with e | _ | _
    · exact ⟨[], some e, _, .undecided hd, bind_error hrule⟩
    · obtain ⟨done, error, w', hr, hrun⟩ := ih ⟨h, w.message⟩
      exact ⟨done, error, w', .skipped hd hr, (bind_ok hrule).trans hrun⟩
    · obtain ⟨done, error, m, hp, hacts⟩ :=
        executeActions_performs cb (cb.getActions rule) w.message
      rcases error with _ | e
      · obtain ⟨done', error, w', hr, hrun⟩ := ih ⟨h, m⟩
        have hstep := hrule.trans (afterDecision_true hacts)
        exact ⟨done ++ done', error, w', .performed hd hp hr, (bind_ok hstep).trans hrun⟩
      · have hstep := hrule.trans (afterDecision_true hacts)
        exact ⟨done, some e, _, .stopped hd hp, bind_error hstep⟩

theorem applyRules_of_reference {cb : Callbacks η μ R A S} {rules : List R} {w w' : World η μ}
    {done : List A} {error : Option Error} (hr : Reference cb rules w done error w') :
    applyRules cb rules w = outcome error w' := by
  induction hr with
  | nil w => rfl
  | undecided hd => exact bind_error (applyRule_of_decides hd)
  | skipped hd _ ih => exact (bind_ok (applyRule_of_decides hd)).trans ih
  | stopped hd hp =>
    have hacts := executeActions_of_performs hp
    exact bind_error ((applyRule_of_decides hd).trans (afterDecision_true hacts))
  | performed hd hp _ ih =>
    have hacts := executeActions_of_performs hp
    exact (bind_ok ((applyRule_of_decides hd).trans (afterDecision_true hacts))).trans ih

/-- A reference run leaves the message as the actions it performed make it. -/
theorem Reference.effect {cb : Callbacks η μ R A S} {rules : List R} {w w' : World η μ}
    {done : List A} {error : Option Error} (hr : Reference cb rules w done error w') :
    effect cb.executeAction done w.message = some w'.message := by
  induction hr with
  | nil w => rfl
  | undecided hd => rfl
  | skipped hd _ ih => exact ih
  | stopped hd hp => exact hp.effect
  | performed hd hp _ ih => rw [effect_append hp.effect]; exact ih

/-- Runs of two rule lists one behind the other. -/
theorem Reference.append {cb : Callbacks η μ R A S} {rules rules' : List R} {w w₁ w' : World η μ}
    {done done' : List A} {error : Option Error} (hr : Reference cb rules w done none w₁)
    (hr' : Reference cb rules' w₁ done' error w') :
    Reference cb (rules ++ rules') w (done ++ done') error w' := by
  generalize herror : (none : Option Error) = error₁ at hr
  induction hr with
  | nil w => exact hr'
  | undecided hd => cases herror
  | skipped hd _ ih => exact .skipped hd (ih hr' herror)
  | stopped hd hp => cases herror
  | performed hd hp _ ih =>
    rw [List.append_assoc]
    exact .performed hd hp (ih hr' herror)

theorem outcome_injective {σ : Type} {error error' : Option Error} {t t' : σ}
    (h : outcome error t = outcome error' t') : error = error' ∧ t = t' := by
  cases error <;> cases error' <;> simp_all [outcome]

/-- However `ApplyRules` ends, a reference run ends so. -/
theorem exists_reference {cb : Callbacks η μ R A S} {rules : List R} {w w' : World η μ}
    {error : Option Error} (h : applyRules cb rules w = outcome error w') :
    ∃ done, Reference cb rules w done error w' := by
  obtain ⟨done, error', w'', hr, hrun⟩ := applyRules_reference cb rules w
  obtain ⟨rfl, rfl⟩ := outcome_injective (hrun.symm.trans h)
  exact ⟨done, hr⟩

/-- **`ApplyRules` is its reference semantics**: it returns with an error, or without one, in a
state exactly if the reference run does, and the message is then the effect of exactly the actions
in front of the point where the run stopped. -/
theorem applyRules_eq_reference (cb : Callbacks η μ R A S) (rules : List R) (w : World η μ) :
    (∀ error w', applyRules cb rules w = outcome error w' ↔
      ∃ done, Reference cb rules w done error w') ∧
    ∀ done error w', Reference cb rules w done error w' →
      effect cb.executeAction done w.message = some w'.message := by
  refine ⟨fun error w' => ⟨fun h => ?_, fun ⟨_, hr⟩ => applyRules_of_reference hr⟩,
    fun _ _ _ hr => hr.effect⟩
  exact exists_reference h

theorem effect_keeps {executeAction : A → EStateM Error μ PUnit} {I : μ → Prop}
    (hI : ∀ action m m', executeAction action m = .ok ⟨⟩ m' → I m → I m') {done : List A} {m m' : μ}
    (h : effect executeAction done m = some m') (hm : I m) : I m' := by
  induction done generalizing m with
  | nil => rw [effect] at h; rwa [← Option.some.inj h]
  | cons action done ih =>
    cases hr : executeAction action m with
    | ok u m₁ =>
      rw [effect_cons_ok hr] at h
      exact ih h (hI action m m₁ hr hm)
    | error e m₁ =>
      rw [effect, hr] at h
      exact absurd h (by simp)

/-- What every successful action keeps, a rule run keeps, however it ends. -/
theorem applyRules_keeps {cb : Callbacks η μ R A S} {I : μ → Prop}
    (hI : ∀ action m m', cb.executeAction action m = .ok ⟨⟩ m' → I m → I m') (rules : List R)
    (w : World η μ) (hw : I w.message) : Ends (applyRules cb rules) w
      (fun _ w' => I w'.message) (fun _ w' => I w'.message) := by
  obtain ⟨done, error, w', hr, hrun⟩ := applyRules_reference cb rules w
  have hI' : I w'.message := effect_keeps hI hr.effect hw
  cases error with
  | none => exact Ends.of_ok hrun hI'
  | some e => exact Ends.of_error hrun hI'

end ProxyPP.Rules
