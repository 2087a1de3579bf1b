import ProxyPP.Lib.Relational
import ProxyPP.Rules.Apply

/-!
# ProxyPP.Rules.Simulation — what rules see of the script engine

A rule run sees of the script engine whether contexts are created and filled and what the matches
evaluate to.  `Engine.Simulates` says that two engines are alike in this, step by step, from related
states of their runtimes; then every rule run ends alike over both, with the same message.
-/

namespace ProxyPP.Rules

open ProxyPP ProxyPP.Lib ProxyPP.Http

variable {η η' μ R A : Type}

/-- Values that are the same to `EvaluateMatch`. -/
def ValuesAlike (S : Script η) (S' : Script η') (v : S.Value) (v' : S'.Value) : Prop :=
  S.isBool v = S'.isBool v' ∧ S.toBool v = S'.toBool v'

/-- Over runtimes related by `H` and contexts related by `C`, two engines answer alike. -/
structure Engine.Simulates (E : Engine η) (E' : Engine η') (H : η → η' → Prop)
    (C : E.script.Context → E'.script.Context → Prop) : Prop where
  createContext : Corresponds H C E.script.createContext E'.script.createContext
  injectRequestContext : ∀ c c', C c c' → ∀ request,
    Corresponds H C (E.injectRequestContext c request) (E'.injectRequestContext c' request)
  injectResponseContext : ∀ c c', C c c' → ∀ request response,
    Corresponds H C (E.injectResponseContext c request response)
      (E'.injectResponseContext c' request response)
  eval : ∀ c c', C c c' → ∀ expr,
    Corresponds H (ValuesAlike E.script E'.script) (E.script.eval c expr) (E'.script.eval c' expr)

/-- The same message, and related runtimes. -/
def WorldsAlike (H : η → η' → Prop) (w : World η μ) (w' : World η' μ) : Prop :=
  w.message = w'.message ∧ H w.script w'.script

section Run

variable {S : Script η} {S' : Script η'} {H : η → η' → Prop} {C : S.Context → S'.Context → Prop}

theorem createMatchContext_corresponds
    (h : Corresponds H C S.createContext S'.createContext) :
    Corresponds H C (createMatchContext S) (createMatchContext S') := by
  intro s t hst
  have hm := h s t hst
  unfold createMatchContext
  cases hr : S.createContext s with
  | ok c s₁ =>
    cases hr' : S'.createContext t with
    | ok c' t₁ => rw [hr, hr'] at hm; cases hm with | ok hC hR => exact .ok hC hR
    | error e t₁ => rw [hr, hr'] at hm; cases hm
  | error e s₁ =>
    cases hr' : S'.createContext t with
    | ok c' t₁ => rw [hr, hr'] at hm; cases hm
    | error e' t₁ => rw [hr, hr'] at hm; cases hm with | error hR => exact .error hR

theorem evaluateMatch_corresponds {c : S.Context} {c' : S'.Context} {expr : Bytes}
    (h : Corresponds H (ValuesAlike S S') (S.eval c expr) (S'.eval c' expr)) :
    Corresponds H Eq (evaluateMatch S c expr) (evaluateMatch S' c' expr) := by
  intro s t hst
  have hm := h s t hst
  unfold evaluateMatch
  cases hr : S.eval c expr s with
  | ok v s₁ =>
    cases hr' : S'.eval c' expr t with
    | ok v' t₁ =>
      rw [hr, hr'] at hm
      cases hm with
      | ok hV hR =>
        -- equal values go through the same branch
        simp only [hV.1, hV.2]
        split
        · split
          · exact .ok rfl hR
          · exact .error hR
        · exact .error hR
    | error e t₁ => rw [hr, hr'] at hm; cases hm
  | error e s₁ =>
    cases hr' : S'.eval c' expr t with
    | ok v' t₁ => rw [hr, hr'] at hm; cases hm
    | error e' t₁ => rw [hr, hr'] at hm; cases hm with | error hR => exact .error hR

theorem onScript_corresponds {α α' : Type} {Q : α → α' → Prop} {m : EStateM Error η α}
    {m' : EStateM Error η' α'} (h : Corresponds H Q m m') :
    Corresponds (WorldsAlike (μ := μ) H) Q (onScript m) (onScript m') :=
  h.zoom (fun _ _ hw => hw.2) fun _ _ _ _ hw hH => ⟨hw.1, hH⟩

theorem onMessage_corresponds {α : Type} (m : EStateM Error μ α) :
    Corresponds (WorldsAlike H) Eq (onMessage m) (onMessage m) :=
  (corresponds_refl m).zoom (fun _ _ hw => hw.1) fun _ _ _ _ hw hm => ⟨hm, hw.2⟩

/-- The callbacks of one rule run over two engines. -/
structure Callbacks.Simulates (cb : Callbacks η μ R A S) (cb' : Callbacks η' μ R A S')
    (H : η → η' → Prop) (C : S.Context → S'.Context → Prop) : Prop where
  filter : cb.filter = cb'.filter
  getMatch : cb.getMatch = cb'.getMatch
  getActions : cb.getActions = cb'.getActions
  executeAction : cb.executeAction = cb'.executeAction
  createContext : Corresponds H C S.createContext S'.createContext
  injectContext : ∀ c c', C c c' → ∀ m,
    Corresponds H C (cb.injectContext c m) (cb'.injectContext c' m)
  eval : ∀ c c', C c c' → ∀ expr,
    Corresponds H (ValuesAlike S S') (S.eval c expr) (S'.eval c' expr)

variable {cb : Callbacks η μ R A S} {cb' : Callbacks η' μ R A S'}

theorem Callbacks.Simulates.applyRule (h : cb.Simulates cb' H C) (rule : R) :
    Corresponds (WorldsAlike H) Eq (applyRule cb rule) (applyRule cb' rule) := by
  unfold Rules.applyRule
  rw [h.filter, h.getMatch, h.getActions, h.executeAction]
  refine corresponds_ite (fun _ => ?_) fun _ => corresponds_pure rfl
  cases cb'.getMatch rule with
  | none => exact onMessage_corresponds _
  | some m =>
    refine (onScript_corresponds (createMatchContext_corresponds h.createContext)).bind
      fun c c' hc => ?_
    refine corresponds_get.bind fun w w' hw => ?_
    rw [hw.1]
    refine (onScript_corresponds (h.injectContext c c' hc w'.message)).bind fun d d' hd => ?_
    refine (onScript_corresponds (evaluateMatch_corresponds (h.eval d d' hd m.expr))).bind_eq
      fun matched => ?_
    exact corresponds_ite (fun _ => onMessage_corresponds _) fun _ => corresponds_pure rfl

/-- A whole rule run, by induction on the rules. -/
theorem Callbacks.Simulates.applyRules (h : cb.Simulates cb' H C) (rules : List R) :
    Corresponds (WorldsAlike H) Eq (applyRules cb rules) (applyRules cb' rules) := by
  induction rules with
  | nil => exact corresponds_pure rfl
  | cons rule rules ih => exact (h.applyRule rule).bind_eq fun _ => ih

end Run

section Http

variable {E : Engine η} {E' : Engine η'} {H : η → η' → Prop}
  {C : E.script.Context → E'.script.Context → Prop}

theorem Engine.Simulates.requestCallbacks (h : E.Simulates E' H C) :
    (requestCallbacks E).Simulates (requestCallbacks E') H C :=
  ⟨rfl, rfl, rfl, rfl, h.createContext, h.injectRequestContext, h.eval⟩

theorem Engine.Simulates.responseCallbacks (h : E.Simulates E' H C) (request : RequestHeader) :
    (responseCallbacks E request).Simulates (responseCallbacks E' request) H C :=
  ⟨rfl, rfl, rfl, rfl, h.createContext,
    fun c c' hc response => h.injectResponseContext c c' hc request response, h.eval⟩

theorem ResultsAlike.stateOf {α : Type} {σ τ ε : Type} {K : σ → τ → Prop} {Q : α → α → Prop}
    {r : EStateM.Result ε σ α} {r' : EStateM.Result ε τ α} (h : ResultsAlike K Q r r') :
    K (stateOf r) (stateOf r') := by
  cases h with
  | ok _ hK => exact hK
  | error hK => exact hK

/-- The rules of a session over two engines: the same request, and related runtimes. -/
theorem Engine.Simulates.ruledRequest (h : E.Simulates E' H C) (config : Option Config)
    {w : World η RequestHeader} {w' : World η' RequestHeader} (hw : WorldsAlike H w w') :
    WorldsAlike H (ruledRequest E config w) (ruledRequest E' config w') := by
  cases config with
  | none => exact hw
  | some config =>
    unfold Rules.ruledRequest
    simp only [applyRequest_eq]
    exact ResultsAlike.stateOf (h.requestCallbacks.applyRules _ w w' hw)

theorem Engine.Simulates.ruledResponse (h : E.Simulates E' H C) (config : Option Config)
    (request : RequestHeader) {w : World η ResponseHeader} {w' : World η' ResponseHeader}
    (hw : WorldsAlike H w w') :
    WorldsAlike H (ruledResponse E config request w) (ruledResponse E' config request w') := by
  cases config with
  | none => exact hw
  | some config =>
    unfold Rules.ruledResponse
    simp only [applyResponse_eq]
    exact ResultsAlike.stateOf ((h.responseCallbacks request).applyRules _ w w' hw)

end Http

/-! ## An engine the other sessions use in between -/

/-- `m`, on the runtime as the others leave it: `others` is what they do to it before the next
calls, in order. -/
def interrupted {ε α : Type} (m : EStateM ε η α) : EStateM ε (η × List (η → η)) α :=
  fun (h, others) => match m (others.headD id h) with
    | .ok a h' => .ok a (h', others.tail)
    | .error e h' => .error e (h', others.tail)

def Engine.interrupted (E : Engine η) : Engine (η × List (η → η)) where
  script :=
    { Context := E.script.Context
      Value := E.script.Value
      createContext := Rules.interrupted E.script.createContext
      eval := fun context expr => Rules.interrupted (E.script.eval context expr)
      isBool := E.script.isBool
      toBool := E.script.toBool }
  injectRequestContext context request := Rules.interrupted (E.injectRequestContext context request)
  injectResponseContext context request response :=
    Rules.interrupted (E.injectResponseContext context request response)

/-- `f` does nothing to a runtime that the session could tell. -/
def Unnoticed (H : η → η → Prop) (f : η → η) : Prop :=
  ∀ h h', H h h' → H h (f h')

/-- The runtime of a session on its own, and that it shares. -/
def Undisturbed (H : η → η → Prop) (h : η) (shared : η × List (η → η)) : Prop :=
  H h shared.1 ∧ ∀ f ∈ shared.2, Unnoticed H f

theorem interrupted_corresponds {ε α α' : Type} {H : η → η → Prop} {Q : α → α' → Prop}
    {m : EStateM ε η α} {m' : EStateM ε η α'} (h : Corresponds H Q m m') :
    Corresponds (Undisturbed H) Q m (interrupted m') := by
  rintro s ⟨t, others⟩ ⟨hst, hothers⟩
  have hrest : ∀ f ∈ others.tail, Unnoticed H f := fun f hf => hothers f (List.mem_of_mem_tail hf)
  have hnext : H s (others.headD id t) := by
    cases others with
    | nil => exact hst
    | cons f others => exact hothers f List.mem_cons_self s t hst
  have hm := h s _ hnext
  unfold interrupted
  dsimp only
  generalize m s = r at hm ⊢
  generalize m' (others.headD id t) = r' at hm ⊢
  cases hm with
  | ok hQ hH => exact .ok hQ ⟨hH, hrest⟩
  | error hH => exact .error ⟨hH, hrest⟩

theorem Engine.Simulates.interrupted {E : Engine η} {H : η → η → Prop}
    {C : E.script.Context → E.script.Context → Prop} (hE : E.Simulates E H C) :
    E.Simulates E.interrupted (Undisturbed H) C where
  createContext := interrupted_corresponds hE.createContext
  injectRequestContext c c' hc request :=
    interrupted_corresponds (hE.injectRequestContext c c' hc request)
  injectResponseContext c c' hc request response :=
    interrupted_corresponds (hE.injectResponseContext c c' hc request response)
  eval c c' hc expr := interrupted_corresponds (hE.eval c c' hc expr)

/-- What the others do to the runtime before each call of session `i`, in a server whose sessions
make `calls` in this order; `before` is what they did since its last call. -/
def foreignCalls {ι : Type} [DecidableEq ι] (i : ι) (before : η → η) :
    List (ι × (η → η)) → List (η → η)
  | [] => [before]
  | (j, f) :: calls =>
    if j = i then before :: foreignCalls i id calls else foreignCalls i (f ∘ before) calls

theorem unnoticed_foreignCalls {ι : Type} [DecidableEq ι] {i : ι} {H : η → η → Prop} :
    ∀ {calls : List (ι × (η → η))} {before : η → η},
      (∀ call ∈ calls, call.1 ≠ i → Unnoticed H call.2) → Unnoticed H before →
      ∀ f ∈ foreignCalls i before calls, Unnoticed H f := by
  intro calls
  induction calls with
  | nil =>
    intro before _ hbefore f hf
    rw [foreignCalls, List.mem_singleton] at hf
    rw [hf]
    exact hbefore
  | cons call calls ih =>
    intro before hcalls hbefore f hf
    have hrest : ∀ c ∈ calls, c.1 ≠ i → Unnoticed H c.2 := fun c hc =>
      hcalls c (List.mem_cons_of_mem _ hc)
    obtain ⟨j, g⟩ := call
    rw [foreignCalls] at hf
    split at hf
    · rcases List.mem_cons.mp hf with rfl | hf
      · exact hbefore
      · exact ih hrest (fun h h' hH => hH) f hf
    · rename_i hj
      refine ih hrest (fun h h' hH => ?_) f hf
      exact hcalls (j, g) List.mem_cons_self hj h _ (hbefore h h' hH)

end ProxyPP.Rules
