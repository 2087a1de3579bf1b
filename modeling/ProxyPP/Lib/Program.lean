import Mathlib.Order.Defs.Unbundled
import Mathlib.Tactic.Common

/-!
# ProxyPP.Lib.Program — a small logic for stateful programs with fuelled loops

Programs are `EStateM ε σ α`: started in a state they return a value or stop with some `ε`, and the
state reached is kept in both cases.  `Ends m s Q E` says where the run of `m` from `s` ends: a
returned value satisfies `Q`, a stop satisfies `E`.  One rule per program former, the loop
combinator `whileLoop` (each iteration continues with a new loop state or leaves the loop; the fuel
bounds the iterations), its invariant rule, its total-correctness rule with a measure, and its rule
for loops that never end.  `Reaches` is the relation of a loop to the heads of its iterations.

`Within R m` says that every run of `m`, returned or stopped, relates its first state to its last by
the preorder `R`: what a program can do to the state at most.  It is closed under the program
formers, so it is proved of a program by proving it of its primitive steps.
-/

namespace ProxyPP.Lib

variable {ε σ τ α β γ : Type}

/-- The run of `m` from `s` returns with `Q`, or stops with `E`. -/
def Ends (m : EStateM ε σ α) (s : σ) (Q : α → σ → Prop) (E : ε → σ → Prop) : Prop :=
  match m s with
  | .ok a t => Q a t
  | .error e t => E e t

/-! ### Stepping -/

theorem pure_run (a : α) (s : σ) : (pure a : EStateM ε σ α) s = .ok a s := rfl

theorem throw_run (e : ε) (s : σ) : (throw e : EStateM ε σ α) s = .error e s := rfl

theorem get_run (s : σ) : (get : EStateM ε σ σ) s = .ok s s := rfl

theorem bind_run (m : EStateM ε σ α) (f : α → EStateM ε σ β) (s : σ) :
    (m >>= f) s = match m s with
      | .ok a t => f a t
      | .error e t => .error e t := rfl

theorem map_run (f : α → β) (m : EStateM ε σ α) (s : σ) :
    (f <$> m) s = match m s with
      | .ok a t => .ok (f a) t
      | .error e t => .error e t := rfl

theorem bind_ok {m : EStateM ε σ α} {f : α → EStateM ε σ β} {s t : σ} {a : α}
    (h : m s = .ok a t) : (m >>= f) s = f a t := by
  rw [bind_run, h]

theorem bind_error {m : EStateM ε σ α} {f : α → EStateM ε σ β} {s t : σ} {e : ε}
    (h : m s = .error e t) : (m >>= f) s = .error e t := by
  rw [bind_run, h]

/-- A sequence that returned went through its first program. -/
theorem bind_eq_ok {m : EStateM ε σ α} {f : α → EStateM ε σ β} {s u : σ} {b : β} :
    (m >>= f) s = .ok b u ↔ ∃ a t, m s = .ok a t ∧ f a t = .ok b u := by
  rw [bind_run]
  cases h : m s with
  | ok a t => simp
  | error e t => simp

/-- Two sequences with the same first program, the second one up to `g`. -/
theorem bind_eq_map_bind {m : EStateM ε σ α} {f : α → EStateM ε σ γ} {f' : α → EStateM ε σ β}
    {g : β → γ} {s : σ} (h : ∀ a t, m s = .ok a t → f a t = (g <$> f' a) t) :
    (m >>= f) s = (g <$> (m >>= f')) s := by
  rw [map_run]
  cases hr : m s with
  | ok a t => rw [bind_ok hr, bind_ok hr, h a t hr, map_run]
  | error e t => rw [bind_error hr, bind_error hr]

/-- The value and the state of a program that returned. -/
def returned : EStateM.Result ε σ α → Option (α × σ)
  | .ok a t => some (a, t)
  | .error _ _ => none

theorem returned_eq_some {r : EStateM.Result ε σ α} {p : α × σ} :
    returned r = some p ↔ r = .ok p.1 p.2 := by
  cases r with
  | ok a t => simp [returned, Prod.ext_iff]
  | error e t => simp [returned]

/-! ### Rules -/

theorem Ends.of_ok {m : EStateM ε σ α} {s t : σ} {a : α} {Q : α → σ → Prop} {E : ε → σ → Prop}
    (h : m s = .ok a t) (hQ : Q a t) : Ends m s Q E := by
  unfold Ends; rw [h]; exact hQ

theorem Ends.of_error {m : EStateM ε σ α} {s t : σ} {e : ε} {Q : α → σ → Prop} {E : ε → σ → Prop}
    (h : m s = .error e t) (hE : E e t) : Ends m s Q E := by
  unfold Ends; rw [h]; exact hE

theorem Ends.ok {m : EStateM ε σ α} {s t : σ} {a : α} {Q : α → σ → Prop} {E : ε → σ → Prop}
    (h : Ends m s Q E) (hr : m s = .ok a t) : Q a t := by
  unfold Ends at h; rw [hr] at h; exact h

theorem Ends.error {m : EStateM ε σ α} {s t : σ} {e : ε} {Q : α → σ → Prop} {E : ε → σ → Prop}
    (h : Ends m s Q E) (hr : m s = .error e t) : E e t := by
  unfold Ends at h; rw [hr] at h; exact h

theorem Ends.mono {m : EStateM ε σ α} {s : σ} {Q Q' : α → σ → Prop} {E E' : ε → σ → Prop}
    (h : Ends m s Q E) (hQ : ∀ a t, Q a t → Q' a t) (hE : ∀ e t, E e t → E' e t) :
    Ends m s Q' E' := by
  unfold Ends at h ⊢
  cases hr : m s with
  | ok a t => rw [hr] at h; exact hQ a t h
  | error e t => rw [hr] at h; exact hE e t h

theorem Ends.and {m : EStateM ε σ α} {s : σ} {Q Q' : α → σ → Prop} {E E' : ε → σ → Prop}
    (h : Ends m s Q E) (h' : Ends m s Q' E') :
    Ends m s (fun a t => Q a t ∧ Q' a t) (fun e t => E e t ∧ E' e t) := by
  unfold Ends at h h' ⊢
  cases hr : m s with
  | ok a t => rw [hr] at h h'; exact ⟨h, h'⟩
  | error e t => rw [hr] at h h'; exact ⟨h, h'⟩

theorem ends_pure {a : α} {s : σ} {Q : α → σ → Prop} {E : ε → σ → Prop} (h : Q a s) :
    Ends (pure a : EStateM ε σ α) s Q E := h

theorem ends_throw {e : ε} {s : σ} {Q : α → σ → Prop} {E : ε → σ → Prop} (h : E e s) :
    Ends (throw e : EStateM ε σ α) s Q E := h

theorem ends_modify {f : σ → σ} {s : σ} {Q : PUnit → σ → Prop} {E : ε → σ → Prop}
    (h : Q ⟨⟩ (f s)) : Ends (modify f : EStateM ε σ PUnit) s Q E := h

theorem ends_get {s : σ} {Q : σ → σ → Prop} {E : ε → σ → Prop} (h : Q s s) :
    Ends (get : EStateM ε σ σ) s Q E := h

theorem ends_bind {m : EStateM ε σ α} {f : α → EStateM ε σ β} {s : σ} {Q : β → σ → Prop}
    {E : ε → σ → Prop} (h : Ends m s (fun a t => Ends (f a) t Q E) E) : Ends (m >>= f) s Q E := by
  unfold Ends at h ⊢
  rw [bind_run]
  cases hr : m s with
  | ok a t => rw [hr] at h; exact h
  | error e t => rw [hr] at h; exact h

/-- Sequencing through an intermediate assertion. -/
theorem Ends.bind {m : EStateM ε σ α} {f : α → EStateM ε σ β} {s : σ} {P : α → σ → Prop}
    {Q : β → σ → Prop} {E : ε → σ → Prop} (h : Ends m s P E)
    (hf : ∀ a t, P a t → Ends (f a) t Q E) : Ends (m >>= f) s Q E :=
  ends_bind (h.mono hf fun _ _ he => he)

/-- Sequencing that keeps the run of the first program. -/
theorem Ends.bind_run {m : EStateM ε σ α} {f : α → EStateM ε σ β} {s : σ} {P : α → σ → Prop}
    {Q : β → σ → Prop} {E : ε → σ → Prop} (h : Ends m s P E)
    (hf : ∀ a t, m s = .ok a t → P a t → Ends (f a) t Q E) : Ends (m >>= f) s Q E := by
  refine ends_bind ?_
  cases hr : m s with
  | ok a t => exact Ends.of_ok hr (hf a t hr (h.ok hr))
  | error e t => exact Ends.of_error hr (h.error hr)

theorem ends_ite {c : Prop} [Decidable c] {m m' : EStateM ε σ α} {s : σ} {Q : α → σ → Prop}
    {E : ε → σ → Prop} (h : c → Ends m s Q E) (h' : ¬ c → Ends m' s Q E) :
    Ends (if c then m else m') s Q E := by
  by_cases hc : c
  · rw [if_pos hc]; exact h hc
  · rw [if_neg hc]; exact h' hc

/-! ### Running a program on a part of the state -/

/-- `m` run on the part `get s` of the state. -/
def zoom (get : σ → τ) (put : τ → σ → σ) (m : EStateM ε τ α) : EStateM ε σ α := fun s =>
  match m (get s) with
  | .ok a t => .ok a (put t s)
  | .error e t => .error e (put t s)

theorem zoom_ok {get : σ → τ} {put : τ → σ → σ} {m : EStateM ε τ α} {s : σ} {t : τ} {a : α}
    (h : m (get s) = .ok a t) : zoom get put m s = .ok a (put t s) := by
  unfold zoom; rw [h]

theorem zoom_error {get : σ → τ} {put : τ → σ → σ} {m : EStateM ε τ α} {s : σ} {t : τ} {e : ε}
    (h : m (get s) = .error e t) : zoom get put m s = .error e (put t s) := by
  unfold zoom; rw [h]

theorem zoom_eq_ok {get : σ → τ} {put : τ → σ → σ} {m : EStateM ε τ α} {s s' : σ} {a : α} :
    zoom get put m s = .ok a s' ↔ ∃ t, m (get s) = .ok a t ∧ s' = put t s := by
  unfold zoom
  cases h : m (get s) with
  | ok b t => simp [eq_comm]
  | error e t => simp

theorem ends_zoom {get : σ → τ} {put : τ → σ → σ} {m : EStateM ε τ α} {s : σ}
    {Q : α → σ → Prop} {E : ε → σ → Prop}
    (h : Ends m (get s) (fun a t => Q a (put t s)) (fun e t => E e (put t s))) :
    Ends (zoom get put m) s Q E := by
  unfold Ends zoom at *
  cases hr : m (get s) with
  | ok a t => rw [hr] at h; exact h
  | error e t => rw [hr] at h; exact h

/-! ### Cleaning up -/

/-- `m`, then `f` on the state it leaves, whether it returned or stopped: a destructor at the end of
a scope. -/
def atExit (f : σ → σ) (m : EStateM ε σ α) : EStateM ε σ α := fun s =>
  match m s with
  | .ok a t => .ok a (f t)
  | .error e t => .error e (f t)

/-- `m`, then `f` on the state if it stopped. -/
def onError (f : σ → σ) (m : EStateM ε σ α) : EStateM ε σ α := fun s =>
  match m s with
  | .ok a t => .ok a t
  | .error e t => .error e (f t)

theorem ends_atExit {f : σ → σ} {m : EStateM ε σ α} {s : σ} {Q : α → σ → Prop} {E : ε → σ → Prop}
    (h : Ends m s (fun a t => Q a (f t)) (fun e t => E e (f t))) : Ends (atExit f m) s Q E := by
  unfold Ends atExit at *
  cases hr : m s with
  | ok a t => rw [hr] at h; exact h
  | error e t => rw [hr] at h; exact h

theorem atExit_ok {f : σ → σ} {m : EStateM ε σ α} {s t : σ} {a : α} (h : m s = .ok a t) :
    atExit f m s = .ok a (f t) := by
  unfold atExit; rw [h]

theorem atExit_error {f : σ → σ} {m : EStateM ε σ α} {s t : σ} {e : ε} (h : m s = .error e t) :
    atExit f m s = .error e (f t) := by
  unfold atExit; rw [h]

theorem onError_ok {f : σ → σ} {m : EStateM ε σ α} {s t : σ} {a : α} (h : m s = .ok a t) :
    onError f m s = .ok a t := by
  unfold onError; rw [h]

theorem onError_error {f : σ → σ} {m : EStateM ε σ α} {s t : σ} {e : ε} (h : m s = .error e t) :
    onError f m s = .error e (f t) := by
  unfold onError; rw [h]

theorem onError_eq_ok {f : σ → σ} {m : EStateM ε σ α} {s t : σ} {a : α} :
    onError f m s = .ok a t ↔ m s = .ok a t := by
  unfold onError
  cases m s with
  | ok b u => simp
  | error e u => simp

theorem atExit_eq_ok {f : σ → σ} {m : EStateM ε σ α} {s t : σ} {a : α} :
    atExit f m s = .ok a t ↔ ∃ u, m s = .ok a u ∧ t = f u := by
  unfold atExit
  cases m s with
  | ok b u => simp [eq_comm]
  | error e u => simp

/-- The error that is passed on has no part in a program that returned. -/
theorem adaptExcept_eq_ok {ε' : Type} {f : ε → ε'} {m : EStateM ε σ α} {s t : σ} {a : α} :
    EStateM.adaptExcept f m s = .ok a t ↔ m s = .ok a t := by
  unfold EStateM.adaptExcept
  cases m s with
  | ok b u => simp
  | error e u => simp

theorem adaptExcept_error {ε' : Type} {f : ε → ε'} {m : EStateM ε σ α} {s t : σ} {e : ε}
    (h : m s = .error e t) : EStateM.adaptExcept f m s = .error (f e) t := by
  unfold EStateM.adaptExcept; rw [h]

/-! ### Loops -/

/-- `body` iterated from the loop state `b`, for at most `fuel` iterations: `.inl` continues with a
new loop state, `.inr` leaves the loop.  Out of fuel the loop stops with `timeout`. -/
def whileLoop (timeout : ε) (body : β → EStateM ε σ (β ⊕ α)) : ℕ → β → EStateM ε σ α
  | 0, _ => throw timeout
  | fuel + 1, b => do
    match ← body b with
    | .inl b' => whileLoop timeout body fuel b'
    | .inr a => pure a

section Loop

variable {timeout : ε} {body : β → EStateM ε σ (β ⊕ α)}

/-- An iteration that continues. -/
theorem ends_continue {I : β → σ → Prop} {Q : α → σ → Prop} {E : ε → σ → Prop} {b : β} {s : σ}
    (h : I b s) : Ends (pure (.inl b) : EStateM ε σ (β ⊕ α)) s
      (fun r t => Sum.elim (fun b' => I b' t) (fun a => Q a t) r) E := h

/-- An iteration that leaves the loop. -/
theorem ends_leave {I : β → σ → Prop} {Q : α → σ → Prop} {E : ε → σ → Prop} {a : α} {s : σ}
    (h : Q a s) : Ends (pure (.inr a) : EStateM ε σ (β ⊕ α)) s
      (fun r t => Sum.elim (fun b' => I b' t) (fun a => Q a t) r) E := h

theorem whileLoop_continue {fuel : ℕ} {b b' : β} {s t : σ} (h : body b s = .ok (.inl b') t) :
    whileLoop timeout body (fuel + 1) b s = whileLoop timeout body fuel b' t := by
  rw [whileLoop]; exact bind_ok h

theorem whileLoop_leave {fuel : ℕ} {b : β} {a : α} {s t : σ} (h : body b s = .ok (.inr a) t) :
    whileLoop timeout body (fuel + 1) b s = .ok a t := by
  rw [whileLoop]; exact bind_ok h

/-- **Invariant rule.**  `I` is kept by every iteration that continues, an iteration that leaves
establishes `Q`, one that stops establishes `E`. -/
theorem ends_whileLoop (I : β → σ → Prop) {Q : α → σ → Prop} {E : ε → σ → Prop}
    (hbody : ∀ b s, I b s → Ends (body b) s
      (fun r t => Sum.elim (fun b' => I b' t) (fun a => Q a t) r) E)
    (htime : ∀ b s, I b s → E timeout s) :
    ∀ fuel b s, I b s → Ends (whileLoop timeout body fuel b) s Q E := by
  intro fuel
  induction fuel with
  | zero =>
    intro b s hI
    exact ends_throw (htime b s hI)
  | succ fuel ih =>
    intro b s hI
    rw [whileLoop]
    refine (hbody b s hI).bind ?_
    rintro (b' | a) t h
    · exact ih b' t h
    · exact ends_pure h

/-- **Total correctness with a measure.**  If every iteration from an `I`-state either leaves with
`Q` or continues in `I` with a smaller `μ`, then `μ + 1` iterations are enough. -/
theorem whileLoop_total (I : β → σ → Prop) (μ : β → σ → ℕ) {Q : α → σ → Prop}
    (hbody : ∀ b s, I b s → ∃ r t, body b s = .ok r t ∧
      Sum.elim (fun b' => I b' t ∧ μ b' t < μ b s) (fun a => Q a t) r) :
    ∀ fuel b s, I b s → μ b s < fuel →
      ∃ a t, whileLoop timeout body fuel b s = .ok a t ∧ Q a t := by
  intro fuel
  induction fuel with
  | zero =>
    intro b s _ hμ
    omega
  | succ fuel ih =>
    intro b s hI hμ
    obtain ⟨r, t, hr, h⟩ := hbody b s hI
    rcases r with b' | a
    · obtain ⟨hI', hlt⟩ := h
      obtain ⟨a, u, hu, hQ⟩ := ih b' t hI' (by omega)
      exact ⟨a, u, by rw [whileLoop_continue hr]; exact hu, hQ⟩
    · exact ⟨a, t, whileLoop_leave hr, h⟩

variable (timeout) in
/-- A loop whose iterations all go on, in `I`, is in `I` when the fuel is spent. -/
theorem whileLoop_spins (I : β → σ → Prop)
    (hbody : ∀ b s, I b s → ∃ b' t, body b s = .ok (.inl b') t ∧ I b' t) (fuel : ℕ) {b : β} {s : σ}
    (hI : I b s) : ∃ b' t, whileLoop timeout body fuel b s = .error timeout t ∧ I b' t := by
  induction fuel generalizing b s with
  | zero => exact ⟨b, s, rfl, hI⟩
  | succ fuel ih =>
    obtain ⟨b', t, hr, hI'⟩ := hbody b s hI
    rw [whileLoop_continue hr]
    exact ih hI'

/-- **Divergence.**  If every iteration from an `I`-state continues in `I`, no fuel is enough. -/
theorem whileLoop_diverges (I : β → σ → Prop)
    (hbody : ∀ b s, I b s → ∃ b' t, body b s = .ok (.inl b') t ∧ I b' t) :
    ∀ fuel b s, I b s → ∃ t, whileLoop timeout body fuel b s = .error timeout t := by
  intro fuel b s hI
  obtain ⟨b', t, hr, -⟩ := whileLoop_spins timeout I hbody fuel hI
  exact ⟨t, hr⟩

/-- A loop whose body is the body of another one up to `f` runs as that one. -/
theorem whileLoop_map {body' : γ → EStateM ε σ (γ ⊕ α)} {f : β → γ}
    (h : ∀ b, body' (f b) = Sum.map f id <$> body b) (fuel : ℕ) (b : β) :
    whileLoop timeout body' fuel (f b) = whileLoop timeout body fuel b := by
  induction fuel generalizing b with
  | zero => rfl
  | succ fuel ih =>
    funext s
    have hstep := congrFun (h b) s
    rw [map_run] at hstep
    cases hr : body b s with
    | ok r t =>
      rw [hr] at hstep
      rcases r with b' | a
      · rw [whileLoop_continue hr, whileLoop_continue hstep, ih]
      · rw [whileLoop_leave hr, whileLoop_leave hstep]
        rfl
    | error e t =>
      rw [hr] at hstep
      rw [whileLoop, whileLoop, bind_error hr, bind_error hstep]

/-- The loop that starts in `b₀` and `s₀` gets to the head of an iteration in `b` and `s`. -/
inductive Reaches (body : β → EStateM ε σ (β ⊕ α)) (b₀ : β) (s₀ : σ) : β → σ → Prop
  | start : Reaches body b₀ s₀ b₀ s₀
  | next {b b' : β} {s t : σ} : Reaches body b₀ s₀ b s → body b s = .ok (.inl b') t →
      Reaches body b₀ s₀ b' t

/-- What every iteration keeps holds at every head. -/
theorem Reaches.invariant {b₀ b : β} {s₀ s : σ} (h : Reaches body b₀ s₀ b s) (I : β → σ → Prop)
    (hbody : ∀ b s b' t, I b s → body b s = .ok (.inl b') t → I b' t) (h₀ : I b₀ s₀) : I b s := by
  induction h with
  | start => exact h₀
  | next _ hr ih => exact hbody _ _ _ _ ih hr

/-- A loop ends with an iteration that leaves it or stops, or runs out of fuel at a head. -/
theorem whileLoop_reaches (fuel : ℕ) (b₀ : β) (s₀ : σ) : Ends (whileLoop timeout body fuel b₀) s₀
    (fun a t => ∃ b s, Reaches body b₀ s₀ b s ∧ body b s = .ok (.inr a) t)
    (fun e t => ∃ b s, Reaches body b₀ s₀ b s ∧
      (body b s = .error e t ∨ e = timeout ∧ t = s)) := by
  refine ends_whileLoop (Reaches body b₀ s₀) ?_ ?_ fuel b₀ s₀ .start
  · intro b s hs
    cases hr : body b s with
    | ok r t =>
      refine Ends.of_ok hr ?_
      rcases r with b' | a
      · exact hs.next hr
      · exact ⟨b, s, hs, hr⟩
    | error e t => exact Ends.of_error hr ⟨b, s, hs, Or.inl hr⟩
  · intro b s hs
    exact ⟨b, s, hs, Or.inr ⟨rfl, rfl⟩⟩

end Loop

/-! ### What a program does at most -/

/-- Every run of `m` ends in a state that `R` relates to the first. -/
def Within (R : σ → σ → Prop) (m : EStateM ε σ α) : Prop :=
  ∀ s, Ends m s (fun _ t => R s t) (fun _ t => R s t)

variable {R : σ → σ → Prop}

theorem within_modify {f : σ → σ} (h : ∀ s, R s (f s)) :
    Within R (modify f : EStateM ε σ PUnit) := h

theorem within_ite {c : Prop} [Decidable c] {m m' : EStateM ε σ α} (h : c → Within R m)
    (h' : ¬ c → Within R m') : Within R (if c then m else m') := fun s =>
  ends_ite (fun hc => h hc s) fun hc => h' hc s

theorem Within.zoom {R' : τ → τ → Prop} {get : σ → τ} {put : τ → σ → σ} {m : EStateM ε τ α}
    (h : Within R' m) (hR : ∀ s t, R' (get s) t → R s (put t s)) : Within R (zoom get put m) :=
  fun s => ends_zoom ((h (get s)).mono (fun _ t ht => hR s t ht) fun _ t ht => hR s t ht)

/-- Whatever is done to a part of the state that `R` does not look at. -/
theorem within_zoom {get : σ → τ} {put : τ → σ → σ} (hR : ∀ s t, R s (put t s))
    (m : EStateM ε τ α) : Within R (zoom get put m) := by
  intro s
  refine ends_zoom ?_
  unfold Ends
  split
  · exact hR s _
  · exact hR s _

variable [IsPreorder σ R]

theorem within_pure (a : α) : Within R (pure a : EStateM ε σ α) := fun s => Std.Refl.refl s

theorem within_throw (e : ε) : Within R (throw e : EStateM ε σ α) := fun s => Std.Refl.refl s

theorem within_get : Within R (get : EStateM ε σ σ) := fun s => Std.Refl.refl s

/-- A program run from a state reached within `R`. -/
theorem Within.after {m : EStateM ε σ α} (h : Within R m) {s t : σ} (hst : R s t) :
    Ends m t (fun _ u => R s u) (fun _ u => R s u) :=
  (h t).mono (fun _ u hu => IsTrans.trans s t u hst hu) fun _ u hu => IsTrans.trans s t u hst hu

theorem Within.bind {m : EStateM ε σ α} {f : α → EStateM ε σ β} (h : Within R m)
    (hf : ∀ a, Within R (f a)) : Within R (m >>= f) := fun s =>
  Ends.bind (h s) fun a _ hR => (hf a).after hR

/-- A loop does at most what its iterations do. -/
theorem within_whileLoop {timeout : ε} {body : β → EStateM ε σ (β ⊕ α)}
    (h : ∀ b, Within R (body b)) (fuel : ℕ) (b : β) : Within R (whileLoop timeout body fuel b) := by
  intro s
  refine ends_whileLoop (Q := fun _ t => R s t) (E := fun _ t => R s t) (fun _ t => R s t) ?_
    (fun _ _ ht => ht) fuel b s (Std.Refl.refl s)
  intro b t ht
  refine ((h b).after ht).mono ?_ fun _ _ hu => hu
  rintro (b' | a) u hu
  · exact hu
  · exact hu

end ProxyPP.Lib
