import ProxyPP.Lib.Program

/-!
# ProxyPP.Lib.Total — programs that return

`Returns m s Q`: started in `s`, the program `m` returns, with `Q` of its value and the state.  It
is the total counterpart of `Ends`: what `Ends` says of a program that returned is added to it
(`Returns.ends`), and a loop returns if every iteration leaves it or lowers a measure.
-/

namespace ProxyPP.Lib

variable {ε σ τ α β : Type}

/-- `m` returns, with `Q`. -/
def Returns (m : EStateM ε σ α) (s : σ) (Q : α → σ → Prop) : Prop :=
  ∃ a t, m s = .ok a t ∧ Q a t

theorem Returns.mono {m : EStateM ε σ α} {s : σ} {Q Q' : α → σ → Prop} (h : Returns m s Q)
    (hQ : ∀ a t, Q a t → Q' a t) : Returns m s Q' := by
  obtain ⟨a, t, hr, hQt⟩ := h
  exact ⟨a, t, hr, hQ a t hQt⟩

/-- What a program does in all cases it does when it returns. -/
theorem Returns.ends {m : EStateM ε σ α} {s : σ} {Q P : α → σ → Prop} {E : ε → σ → Prop}
    (h : Returns m s Q) (hP : Ends m s P E) : Returns m s fun a t => Q a t ∧ P a t := by
  obtain ⟨a, t, hr, hQt⟩ := h
  exact ⟨a, t, hr, hQt, hP.ok hr⟩

theorem Returns.bind {m : EStateM ε σ α} {f : α → EStateM ε σ β} {s : σ} {P : α → σ → Prop}
    {Q : β → σ → Prop} (h : Returns m s P) (hf : ∀ a t, P a t → Returns (f a) t Q) :
    Returns (m >>= f) s Q := by
  obtain ⟨a, t, hr, hP⟩ := h
  obtain ⟨b, u, hr', hQ⟩ := hf a t hP
  exact ⟨b, u, (bind_ok hr).trans hr', hQ⟩

theorem returns_pure {a : α} {s : σ} {Q : α → σ → Prop} (h : Q a s) :
    Returns (pure a : EStateM ε σ α) s Q := ⟨a, s, rfl, h⟩

/-- A first step that is known. -/
theorem Returns.after {m : EStateM ε σ α} {f : α → EStateM ε σ β} {s t : σ} {a : α}
    {Q : β → σ → Prop} (h : m s = .ok a t) (hf : Returns (f a) t Q) : Returns (m >>= f) s Q := by
  obtain ⟨b, u, hr, hQ⟩ := hf
  exact ⟨b, u, (bind_ok h).trans hr, hQ⟩

theorem returns_get {f : σ → EStateM ε σ β} {s : σ} {Q : β → σ → Prop} (h : Returns (f s) s Q) :
    Returns (get >>= f) s Q := Returns.after (get_run s) h

theorem returns_modify {g : σ → σ} {f : PUnit → EStateM ε σ β} {s : σ} {Q : β → σ → Prop}
    (h : Returns (f ⟨⟩) (g s) Q) : Returns (modify g >>= f) s Q :=
  Returns.after (t := g s) rfl h

theorem returns_zoom {get : σ → τ} {put : τ → σ → σ} {m : EStateM ε τ α} {s : σ}
    {Q : α → σ → Prop} (h : Returns m (get s) fun a t => Q a (put t s)) :
    Returns (zoom get put m) s Q := by
  obtain ⟨a, t, hr, hQ⟩ := h
  exact ⟨a, put t s, zoom_ok hr, hQ⟩

/-- **Loops.**  From an `I`-state every iteration leaves the loop with `Q`, or goes on in `I` with a
smaller `μ`; then any fuel above `μ` is enough. -/
theorem returns_whileLoop {timeout : ε} {body : β → EStateM ε σ (β ⊕ α)} (I : β → σ → Prop)
    (μ : β → σ → ℕ) {Q : α → σ → Prop} (hbody : ∀ b s, I b s → Returns (body b) s fun r t =>
      Sum.elim (fun b' => I b' t ∧ μ b' t < μ b s) (fun a => Q a t) r) {fuel : ℕ} {b : β} {s : σ}
    (hI : I b s) (hfuel : μ b s < fuel) : Returns (whileLoop timeout body fuel b) s Q :=
  whileLoop_total I μ hbody fuel b s hI hfuel

end ProxyPP.Lib
