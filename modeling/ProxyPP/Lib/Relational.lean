import ProxyPP.Lib.Program

/-!
# ProxyPP.Lib.Relational — two programs side by side

`Corresponds R Q m m'`: run from states related by `R`, the programs `m` and `m'` end alike.  Either
both return, with values related by `Q`, or both stop for the same reason, and the states they reach
are related by `R` again.  One rule per program former; two loops correspond if their bodies do.
-/

namespace ProxyPP.Lib

variable {ε σ τ α α' β β' : Type}

/-- Two results that are alike. -/
inductive ResultsAlike (R : σ → τ → Prop) (Q : α → α' → Prop) :
    EStateM.Result ε σ α → EStateM.Result ε τ α' → Prop
  | ok {a : α} {a' : α'} {s : σ} {t : τ} (hQ : Q a a') (hR : R s t) :
      ResultsAlike R Q (.ok a s) (.ok a' t)
  | error {e : ε} {s : σ} {t : τ} (hR : R s t) : ResultsAlike R Q (.error e s) (.error e t)

def Corresponds (R : σ → τ → Prop) (Q : α → α' → Prop) (m : EStateM ε σ α)
    (m' : EStateM ε τ α') : Prop :=
  ∀ s t, R s t → ResultsAlike R Q (m s) (m' t)

variable {R : σ → τ → Prop}

theorem ResultsAlike.mono {Q Q' : α → α' → Prop} {r : EStateM.Result ε σ α}
    {r' : EStateM.Result ε τ α'} (h : ResultsAlike R Q r r') (hQ : ∀ a a', Q a a' → Q' a a') :
    ResultsAlike R Q' r r' := by
  cases h with
  | ok h hR => exact .ok (hQ _ _ h) hR
  | error hR => exact .error hR

theorem Corresponds.mono {Q Q' : α → α' → Prop} {m : EStateM ε σ α} {m' : EStateM ε τ α'}
    (h : Corresponds R Q m m') (hQ : ∀ a a', Q a a' → Q' a a') : Corresponds R Q' m m' :=
  fun s t hst => (h s t hst).mono hQ

theorem corresponds_pure {Q : α → α' → Prop} {a : α} {a' : α'} (h : Q a a') :
    Corresponds R Q (pure a : EStateM ε σ α) (pure a' : EStateM ε τ α') :=
  fun _ _ hst => .ok h hst

theorem corresponds_throw {Q : α → α' → Prop} (e : ε) :
    Corresponds R Q (throw e : EStateM ε σ α) (throw e : EStateM ε τ α') :=
  fun _ _ hst => .error hst

theorem corresponds_get : Corresponds R R (get : EStateM ε σ σ) (get : EStateM ε τ τ) :=
  fun _ _ hst => .ok hst hst

theorem corresponds_modify {f : σ → σ} {g : τ → τ} (h : ∀ s t, R s t → R (f s) (g t)) :
    Corresponds R Eq (modify f : EStateM ε σ PUnit) (modify g : EStateM ε τ PUnit) :=
  fun s t hst => .ok rfl (h s t hst)

theorem corresponds_set {s : σ} {t : τ} (h : R s t) :
    Corresponds R Eq (set s : EStateM ε σ PUnit) (set t : EStateM ε τ PUnit) :=
  fun _ _ _ => .ok rfl h

theorem Corresponds.bind {P : α → α' → Prop} {Q : β → β' → Prop} {m : EStateM ε σ α}
    {m' : EStateM ε τ α'} {f : α → EStateM ε σ β} {f' : α' → EStateM ε τ β'}
    (h : Corresponds R P m m') (hf : ∀ a a', P a a' → Corresponds R Q (f a) (f' a')) :
    Corresponds R Q (m >>= f) (m' >>= f') := by
  intro s t hst
  have hm := h s t hst
  rw [bind_run, bind_run]
  cases hr : m s with
  | ok a s₁ =>
    cases hr' : m' t with
    | ok a' t₁ =>
      rw [hr, hr'] at hm
      cases hm with
      | ok hP hR => exact hf a a' hP s₁ t₁ hR
    | error e t₁ =>
      rw [hr, hr'] at hm
      cases hm
  | error e s₁ =>
    cases hr' : m' t with
    | ok a' t₁ =>
      rw [hr, hr'] at hm
      cases hm
    | error e' t₁ =>
      rw [hr, hr'] at hm
      cases hm with
      | error hR => exact .error hR

/-- After the same value. -/
theorem Corresponds.bind_eq {Q : β → β' → Prop} {m : EStateM ε σ α} {m' : EStateM ε τ α}
    {f : α → EStateM ε σ β} {f' : α → EStateM ε τ β'} (h : Corresponds R Eq m m')
    (hf : ∀ a, Corresponds R Q (f a) (f' a)) : Corresponds R Q (m >>= f) (m' >>= f') :=
  h.bind fun a a' haa' => by
    subst haa'
    exact hf a

theorem corresponds_ite {Q : α → α' → Prop} {c : Prop} [Decidable c] {m₁ m₂ : EStateM ε σ α}
    {m₁' m₂' : EStateM ε τ α'} (h₁ : c → Corresponds R Q m₁ m₁')
    (h₂ : ¬ c → Corresponds R Q m₂ m₂') :
    Corresponds R Q (if c then m₁ else m₂) (if c then m₁' else m₂') := by
  by_cases hc : c
  · rw [if_pos hc, if_pos hc]
    exact h₁ hc
  · rw [if_neg hc, if_neg hc]
    exact h₂ hc

theorem Corresponds.map {P : α → α' → Prop} {Q : β → β' → Prop} {m : EStateM ε σ α}
    {m' : EStateM ε τ α'} {f : α → β} {f' : α' → β'} (h : Corresponds R P m m')
    (hf : ∀ a a', P a a' → Q (f a) (f' a')) : Corresponds R Q (f <$> m) (f' <$> m') := by
  intro s t hst
  rw [map_run, map_run]
  have hm := h s t hst
  generalize m s = r at hm ⊢
  generalize m' t = r' at hm ⊢
  cases hm with
  | ok hP hR => exact .ok (hf _ _ hP) hR
  | error hR => exact .error hR

theorem Corresponds.atExit {Q : α → α' → Prop} {m : EStateM ε σ α} {m' : EStateM ε τ α'}
    {f : σ → σ} {g : τ → τ} (h : Corresponds R Q m m') (hfg : ∀ s t, R s t → R (f s) (g t)) :
    Corresponds R Q (Lib.atExit f m) (Lib.atExit g m') := by
  intro s t hst
  unfold Lib.atExit
  have hm := h s t hst
  generalize m s = r at hm ⊢
  generalize m' t = r' at hm ⊢
  cases hm with
  | ok hQ hR => exact .ok hQ (hfg _ _ hR)
  | error hR => exact .error (hfg _ _ hR)

theorem Corresponds.onError {Q : α → α' → Prop} {m : EStateM ε σ α} {m' : EStateM ε τ α'}
    {f : σ → σ} {g : τ → τ} (h : Corresponds R Q m m') (hfg : ∀ s t, R s t → R (f s) (g t)) :
    Corresponds R Q (Lib.onError f m) (Lib.onError g m') := by
  intro s t hst
  unfold Lib.onError
  have hm := h s t hst
  generalize m s = r at hm ⊢
  generalize m' t = r' at hm ⊢
  cases hm with
  | ok hQ hR => exact .ok hQ hR
  | error hR => exact .error (hfg _ _ hR)

theorem Corresponds.adaptExcept {ε' : Type} {Q : α → α' → Prop} {m : EStateM ε σ α}
    {m' : EStateM ε τ α'} {f : ε → ε'} (h : Corresponds R Q m m') :
    Corresponds R Q (EStateM.adaptExcept f m) (EStateM.adaptExcept f m') := by
  intro s t hst
  unfold EStateM.adaptExcept
  have hm := h s t hst
  generalize m s = r at hm ⊢
  generalize m' t = r' at hm ⊢
  cases hm with
  | ok hQ hR => exact .ok hQ hR
  | error hR => exact .error hR

/-- Corresponding programs on parts of the states. -/
theorem Corresponds.zoom {σ' τ' : Type} {R' : σ' → τ' → Prop} {Q : α → α' → Prop}
    {get : σ → σ'} {put : σ' → σ → σ} {get' : τ → τ'} {put' : τ' → τ → τ} {m : EStateM ε σ' α}
    {m' : EStateM ε τ' α'} (h : Corresponds R' Q m m')
    (hget : ∀ s t, R s t → R' (get s) (get' t))
    (hput : ∀ s t x y, R s t → R' x y → R (put x s) (put' y t)) :
    Corresponds R Q (Lib.zoom get put m) (Lib.zoom get' put' m') := by
  intro s t hst
  have hm := h _ _ (hget s t hst)
  unfold Lib.zoom
  cases hr : m (get s) with
  | ok a x =>
    cases hr' : m' (get' t) with
    | ok a' y =>
      rw [hr, hr'] at hm
      cases hm with
      | ok hQ hR => exact .ok hQ (hput s t x y hst hR)
    | error e y =>
      rw [hr, hr'] at hm
      cases hm
  | error e x =>
    cases hr' : m' (get' t) with
    | ok a' y =>
      rw [hr, hr'] at hm
      cases hm
    | error e' y =>
      rw [hr, hr'] at hm
      cases hm with
      | error hR => exact .error (hput s t x y hst hR)

/-- A program corresponds to itself on equal states. -/
theorem corresponds_refl (m : EStateM ε σ α) : Corresponds Eq Eq m m := by
  intro s t hst
  subst hst
  cases m s with
  | ok a u => exact .ok rfl rfl
  | error e u => exact .error rfl

/-- **Loop rule.**  The loop states are related by `B` at the head of every iteration. -/
theorem corresponds_whileLoop {B : β → β' → Prop} {Q : α → α' → Prop} {timeout : ε}
    {body : β → EStateM ε σ (β ⊕ α)} {body' : β' → EStateM ε τ (β' ⊕ α')}
    (h : ∀ b b', B b b' → Corresponds R (Sum.LiftRel B Q) (body b) (body' b')) (fuel : ℕ) :
    ∀ b b', B b b' →
      Corresponds R Q (whileLoop timeout body fuel b) (whileLoop timeout body' fuel b') := by
  induction fuel with
  | zero => exact fun _ _ _ => corresponds_throw timeout
  | succ fuel ih =>
    intro b b' hb
    refine (h b b' hb).bind fun r r' hr => ?_
    cases hr with
    | inl hb => exact ih _ _ hb
    | inr hQ => exact corresponds_pure hQ

end ProxyPP.Lib
