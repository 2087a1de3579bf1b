import ProxyPP.Lib.Program

/-!
# ProxyPP.Lib.Settling — what fuelled programs come to

A program `m` that is given fuel settles from a state if more and more fuel makes no difference in
the end: either all runs with enough fuel return the same value in the same state, or all of them
stop for the same reason.  A loop that runs for ever settles too, on its timeout.

There is a rule for each program former and two for loops: by a measure on the states, and by a rank
for loops whose iterations take fuel themselves.
-/

namespace ProxyPP.Lib

variable {ε σ τ α β : Type}

/-- With enough fuel every run of `m` from `s` returns the same, with `Q`, or every run stops for
the same reason, with `E`. -/
def Settles (m : ℕ → EStateM ε σ α) (s : σ) (Q : α → σ → Prop) (E : ε → σ → Prop) : Prop :=
  ∃ N, (∃ a t, Q a t ∧ ∀ fuel, N ≤ fuel → m fuel s = .ok a t) ∨
    ∃ e, ∀ fuel, N ≤ fuel → ∃ t, m fuel s = .error e t ∧ E e t

variable {m : ℕ → EStateM ε σ α} {s : σ} {Q : α → σ → Prop} {E : ε → σ → Prop}

theorem Settles.mono {Q' : α → σ → Prop} {E' : ε → σ → Prop} (h : Settles m s Q E)
    (hQ : ∀ a t, Q a t → Q' a t) (hE : ∀ e t, E e t → E' e t) : Settles m s Q' E' := by
  obtain ⟨N, ⟨a, t, hQt, hr⟩ | ⟨e, hr⟩⟩ := h
  · exact ⟨N, .inl ⟨a, t, hQ a t hQt, hr⟩⟩
  · refine ⟨N, .inr ⟨e, fun fuel hfuel => ?_⟩⟩
    obtain ⟨t, hrt, hEt⟩ := hr fuel hfuel
    exact ⟨t, hrt, hE e t hEt⟩

/-- What all runs of the program do it does where it settles. -/
theorem Settles.ends {P : α → σ → Prop} {E' : ε → σ → Prop} (h : Settles m s Q E)
    (hP : ∀ fuel, Ends (m fuel) s P E') :
    Settles m s (fun a t => Q a t ∧ P a t) (fun e t => E e t ∧ E' e t) := by
  obtain ⟨N, ⟨a, t, hQ, hr⟩ | ⟨e, hr⟩⟩ := h
  · exact ⟨N, .inl ⟨a, t, ⟨hQ, (hP N).ok (hr N (Nat.le_refl N))⟩, hr⟩⟩
  · refine ⟨N, .inr ⟨e, fun fuel hfuel => ?_⟩⟩
    obtain ⟨t, hrt, hE⟩ := hr fuel hfuel
    exact ⟨t, hrt, hE, (hP fuel).error hrt⟩

/-- A program that runs as one that settles. -/
theorem Settles.of_eq {n : ℕ → EStateM ε σ α} {t : σ} (h : Settles n t Q E)
    (heq : ∀ fuel, m fuel s = n fuel t) : Settles m s Q E := by
  obtain ⟨N, ⟨a, u, hQ, hr⟩ | ⟨e, hr⟩⟩ := h
  · exact ⟨N, .inl ⟨a, u, hQ, fun fuel hfuel => (heq fuel).trans (hr fuel hfuel)⟩⟩
  · refine ⟨N, .inr ⟨e, fun fuel hfuel => ?_⟩⟩
    obtain ⟨u, hru, hE⟩ := hr fuel hfuel
    exact ⟨u, (heq fuel).trans hru, hE⟩

/-- A program that needs no fuel. -/
theorem settles_ok {n : EStateM ε σ α} {a : α} {t : σ} (h : n s = .ok a t) (hQ : Q a t) :
    Settles (fun _ => n) s Q E :=
  ⟨0, .inl ⟨a, t, hQ, fun _ _ => h⟩⟩

theorem settles_error {n : EStateM ε σ α} {e : ε} {t : σ} (h : n s = .error e t) (hE : E e t) :
    Settles (fun _ => n) s Q E :=
  ⟨0, .inr ⟨e, fun _ _ => ⟨t, h, hE⟩⟩⟩

theorem Settles.bind {f : ℕ → α → EStateM ε σ β} {P : α → σ → Prop} {F : ε → σ → Prop}
    {Q : β → σ → Prop} (h : Settles m s P F) (hF : ∀ e t, F e t → E e t)
    (hf : ∀ a t, P a t → Settles (fun fuel => f fuel a) t Q E) :
    Settles (fun fuel => m fuel >>= f fuel) s Q E := by
  obtain ⟨N, ⟨a, t, hP, hr⟩ | ⟨e, hr⟩⟩ := h
  · obtain ⟨N', ⟨b, u, hQ, hr'⟩ | ⟨e, hr'⟩⟩ := hf a t hP
    · exact ⟨max N N', .inl ⟨b, u, hQ, fun fuel hfuel =>
        (bind_ok (hr fuel (by omega))).trans (hr' fuel (by omega))⟩⟩
    · refine ⟨max N N', .inr ⟨e, fun fuel hfuel => ?_⟩⟩
      obtain ⟨u, hru, hE⟩ := hr' fuel (by omega)
      exact ⟨u, (bind_ok (hr fuel (by omega))).trans hru, hE⟩
  · refine ⟨N, .inr ⟨e, fun fuel hfuel => ?_⟩⟩
    obtain ⟨t, hrt, hFt⟩ := hr fuel hfuel
    exact ⟨t, bind_error hrt, hF e t hFt⟩

/-- A first step that is known. -/
theorem Settles.after {n : EStateM ε σ α} {f : ℕ → α → EStateM ε σ β} {Q : β → σ → Prop} {a : α}
    {t : σ} (h : n s = .ok a t) (hf : Settles (fun fuel => f fuel a) t Q E) :
    Settles (fun fuel => n >>= f fuel) s Q E :=
  hf.of_eq fun _ => bind_ok h

/-- A first step that stops. -/
theorem settles_bind_error {n : EStateM ε σ α} {f : ℕ → α → EStateM ε σ β} {Q : β → σ → Prop}
    {e : ε} {t : σ} (h : n s = .error e t) (hE : E e t) :
    Settles (fun fuel => n >>= f fuel) s Q E :=
  ⟨0, .inr ⟨e, fun _ _ => ⟨t, bind_error h, hE⟩⟩⟩

/-- A program on a part of the state. -/
theorem settles_zoom {get : τ → σ} {put : σ → τ → τ} {s : τ} {Q : α → τ → Prop}
    {E : ε → τ → Prop} (h : Settles m (get s) (fun a t => Q a (put t s)) fun e t => E e (put t s)) :
    Settles (fun fuel => zoom get put (m fuel)) s Q E := by
  obtain ⟨N, ⟨a, t, hQ, hr⟩ | ⟨e, hr⟩⟩ := h
  · exact ⟨N, .inl ⟨a, put t s, hQ, fun fuel hfuel => zoom_ok (hr fuel hfuel)⟩⟩
  · refine ⟨N, .inr ⟨e, fun fuel hfuel => ?_⟩⟩
    obtain ⟨t, hrt, hE⟩ := hr fuel hfuel
    exact ⟨put t s, zoom_error hrt, hE⟩

section Loop

variable {timeout : ε} {body : β → EStateM ε σ (β ⊕ α)}

theorem whileLoop_stop {fuel : ℕ} {b : β} {e : ε} {s t : σ} (h : body b s = .error e t) :
    whileLoop timeout body (fuel + 1) b s = .error e t := by
  rw [whileLoop]
  exact bind_error h

/-- **Loops.**  From an `I`-state an iteration leaves the loop with `Q`, goes on in `I` with a
smaller `μ`, or stops with `E`; or from there on all iterations go on, in states with `E`. -/
theorem settles_whileLoop (I : β → σ → Prop) (μ : β → σ → ℕ)
    (hbody : ∀ b s, I b s →
      (∃ b' t, body b s = .ok (.inl b') t ∧ I b' t ∧ μ b' t < μ b s) ∨
      (∃ a t, body b s = .ok (.inr a) t ∧ Q a t) ∨
      (∃ e t, body b s = .error e t ∧ E e t) ∨
      ∀ fuel, ∃ t, whileLoop timeout body fuel b s = .error timeout t ∧ E timeout t)
    {b : β} {s : σ} (hI : I b s) : Settles (fun fuel => whileLoop timeout body fuel b) s Q E := by
  induction hn : μ b s using Nat.strongRecOn generalizing b s with
  | _ n ih =>
    rcases hbody b s hI with ⟨b', t, hr, hI', hlt⟩ | ⟨a, t, hr, hQ⟩ | ⟨e, t, hr, hE⟩ | hspin
    · -- one iteration more than the rest of the loop
      obtain ⟨N, hN⟩ := ih (μ b' t) (hn ▸ hlt) hI' rfl
      have hstep : ∀ fuel, N + 1 ≤ fuel →
          ∃ n, N ≤ n ∧ whileLoop timeout body fuel b s = whileLoop timeout body n b' t := by
        intro fuel hfuel
        obtain ⟨n, rfl⟩ : ∃ n, fuel = n + 1 := ⟨fuel - 1, by omega⟩
        exact ⟨n, by omega, whileLoop_continue hr⟩
      refine ⟨N + 1, ?_⟩
      rcases hN with ⟨a, u, hQ, hu⟩ | ⟨e, hu⟩
      · refine .inl ⟨a, u, hQ, fun fuel hfuel => ?_⟩
        obtain ⟨n, hn, heq⟩ := hstep fuel hfuel
        exact heq.trans (hu n hn)
      · refine .inr ⟨e, fun fuel hfuel => ?_⟩
        obtain ⟨n, hn, heq⟩ := hstep fuel hfuel
        obtain ⟨u, hru, hE⟩ := hu n hn
        exact ⟨u, heq.trans hru, hE⟩
    · refine ⟨1, .inl ⟨a, t, hQ, fun fuel hfuel => ?_⟩⟩
      obtain ⟨n, rfl⟩ : ∃ n, fuel = n + 1 := ⟨fuel - 1, by omega⟩
      exact whileLoop_leave hr
    · refine ⟨1, .inr ⟨e, fun fuel hfuel => ?_⟩⟩
      obtain ⟨n, rfl⟩ : ∃ n, fuel = n + 1 := ⟨fuel - 1, by omega⟩
      exact ⟨t, whileLoop_stop hr, hE⟩
    · exact ⟨0, .inr ⟨timeout, fun fuel _ => hspin fuel⟩⟩

end Loop

/-- **Nested loops.**  An iteration is a program that settles: it leaves the loop with `Q`, goes on
in a state of smaller rank, or stops with `E`. -/
theorem settles_whileLoop_ranked {timeout : ε} {body : ℕ → β → EStateM ε σ (β ⊕ α)}
    (I : ℕ → β → σ → Prop)
    (hbody : ∀ n b s, I n b s → Settles (fun fuel => body fuel b) s
      (fun r t => Sum.elim (fun b' => ∃ k, k < n ∧ I k b' t) (fun a => Q a t) r) E)
    {n : ℕ} {b : β} {s : σ} (hI : I n b s) :
    Settles (fun fuel => whileLoop timeout (body fuel) fuel b) s Q E := by
  -- the fuel of the iterations is kept apart from their number
  suffices h : ∃ N K,
      (∃ a t, Q a t ∧ ∀ fuel k, N ≤ fuel → K ≤ k → whileLoop timeout (body fuel) k b s = .ok a t) ∨
      ∃ e, ∀ fuel k, N ≤ fuel → K ≤ k →
        ∃ t, whileLoop timeout (body fuel) k b s = .error e t ∧ E e t by
    obtain ⟨N, K, ⟨a, t, hQ, hr⟩ | ⟨e, hr⟩⟩ := h
    · exact ⟨max N K, .inl ⟨a, t, hQ, fun fuel hfuel => hr fuel fuel (by omega) (by omega)⟩⟩
    · exact ⟨max N K, .inr ⟨e, fun fuel hfuel => hr fuel fuel (by omega) (by omega)⟩⟩
  induction n using Nat.strongRecOn generalizing b s with
  | _ n ih =>
    obtain ⟨N, ⟨r, t, hr', hr⟩ | ⟨e, hr⟩⟩ := hbody n b s hI
    · rcases r with b' | a
      · obtain ⟨j, hlt, hI'⟩ := hr'
        obtain ⟨N', K, hloop⟩ := ih j hlt hI'
        have hnext : ∀ fuel k, max N N' ≤ fuel → K + 1 ≤ k → ∃ i, K ≤ i ∧
            whileLoop timeout (body fuel) k b s = whileLoop timeout (body fuel) i b' t := by
          intro fuel k hfuel hk
          obtain ⟨i, rfl⟩ : ∃ i, k = i + 1 := ⟨k - 1, by omega⟩
          exact ⟨i, by omega, whileLoop_continue (hr fuel (by omega))⟩
        refine ⟨max N N', K + 1, ?_⟩
        rcases hloop with ⟨a, u, hQ, hu⟩ | ⟨e, hu⟩
        · refine .inl ⟨a, u, hQ, fun fuel k hfuel hk => ?_⟩
          obtain ⟨i, hi, heq⟩ := hnext fuel k hfuel hk
          exact heq.trans (hu fuel i (by omega) hi)
        · refine .inr ⟨e, fun fuel k hfuel hk => ?_⟩
          obtain ⟨i, hi, heq⟩ := hnext fuel k hfuel hk
          rw [heq]
          exact hu fuel i (by omega) hi
      · refine ⟨N, 1, .inl ⟨a, t, hr', fun fuel k hfuel hk => ?_⟩⟩
        obtain ⟨i, rfl⟩ : ∃ i, k = i + 1 := ⟨k - 1, by omega⟩
        exact whileLoop_leave (hr fuel hfuel)
    · refine ⟨N, 1, .inr ⟨e, fun fuel k hfuel hk => ?_⟩⟩
      obtain ⟨i, rfl⟩ : ∃ i, k = i + 1 := ⟨k - 1, by omega⟩
      obtain ⟨t, hrt, hE⟩ := hr fuel hfuel
      exact ⟨t, whileLoop_stop hrt, hE⟩

end ProxyPP.Lib
