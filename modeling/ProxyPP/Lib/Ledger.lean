import Mathlib.Order.Interval.Finset.Nat
import Mathlib.Order.Interval.Multiset
import ProxyPP.Lib.Program

/-!
# ProxyPP.Lib.Ledger — programs that account for what they own

Tokens are numbered in the order they are issued, and each entry of a ledger spends one.
`Settles inp out s t` is the balance between two states: of what was owned before (`inp`) and what
was issued since, everything is owned now (`out`) or was spent by a new entry, once.  It composes,
and what is not touched can be added on both sides (`Settles.frame`), so the balance of a program
comes from those of its parts.  `Accounts inp m out` says it of every run of `m`: a run that stops
owns nothing any more.
-/

namespace ProxyPP.Lib

/-- How many tokens were issued, and the entries, in order. -/
structure Ledger (κ : Type) where
  issued : ℕ
  entries : List κ

/-- What the programs on a state are accountable for: the ledger in it, the token that an entry
spends, which entries may be made, and an invariant. -/
structure Regime (σ κ : Type) where
  ledger : σ → Ledger κ
  token : κ → ℕ
  allowed : κ → Prop
  invariant : σ → Prop

namespace Regime

variable {σ κ ε α β : Type} (R : Regime σ κ)

/-- The balance from `s` to `t`. -/
structure Settles (inp out : Multiset ℕ) (s t : σ) : Prop where
  invariant : R.invariant s → R.invariant t
  issued : (R.ledger s).issued ≤ (R.ledger t).issued
  balance : ∃ es, (R.ledger t).entries = (R.ledger s).entries ++ es ∧ (∀ e ∈ es, R.allowed e) ∧
    (↑(es.map R.token) : Multiset ℕ) + out
      = inp + Multiset.Ico (R.ledger s).issued (R.ledger t).issued

/-- Every run of `m` settles `inp`: with what the returned value owns, or with nothing if it stops.
-/
def Accounts (inp : Multiset ℕ) (m : EStateM ε σ α) (Q : α → Prop) (out : α → Multiset ℕ) : Prop :=
  ∀ s, Ends m s (fun a t => Q a ∧ R.Settles inp (out a) s t) (fun _ t => R.Settles inp 0 s t)

/-- `f` gives up `inp`. -/
def Frees (inp : Multiset ℕ) (f : σ → σ) : Prop := ∀ s, R.Settles inp 0 s (f s)

variable {R} {inp mid out extra : Multiset ℕ} {s t u : σ}

/-! ### Balances -/

namespace Settles

theorem refl (inp : Multiset ℕ) (s : σ) : R.Settles inp inp s s := by
  refine ⟨id, le_rfl, [], (List.append_nil _).symm, by simp, ?_⟩
  rw [Multiset.Ico_self, add_zero]
  exact zero_add inp

theorem trans (h : R.Settles inp mid s t) (h' : R.Settles mid out t u) : R.Settles inp out s u := by
  obtain ⟨es, hes, hallowed, hsum⟩ := h.balance
  obtain ⟨es', hes', hallowed', hsum'⟩ := h'.balance
  refine ⟨fun hs => h'.invariant (h.invariant hs), h.issued.trans h'.issued, es ++ es', ?_, ?_, ?_⟩
  · rw [hes', hes, List.append_assoc]
  · intro e he
    rcases List.mem_append.mp he with he | he
    · exact hallowed e he
    · exact hallowed' e he
  · have hmade := Multiset.Ico_add_Ico_eq_Ico h.issued h'.issued
    calc (↑((es ++ es').map R.token) : Multiset ℕ) + out
        = ↑(es.map R.token) + (↑(es'.map R.token) + out) := by
          rw [List.map_append, ← Multiset.coe_add, add_assoc]
      _ = (↑(es.map R.token) + mid) + Multiset.Ico (R.ledger t).issued (R.ledger u).issued := by
          rw [hsum', add_assoc]
      _ = inp + Multiset.Ico (R.ledger s).issued (R.ledger u).issued := by
          rw [hsum, add_assoc, hmade]

/-- What is owned on the side stays owned. -/
theorem frame (h : R.Settles inp out s t) (extra : Multiset ℕ) :
    R.Settles (inp + extra) (out + extra) s t := by
  obtain ⟨es, hes, hallowed, hsum⟩ := h.balance
  refine ⟨h.invariant, h.issued, es, hes, hallowed, ?_⟩
  rw [← add_assoc, hsum, add_assoc, add_assoc, add_comm extra]

/-- A new token. -/
theorem issue (hI : R.invariant s → R.invariant t)
    (hissued : (R.ledger t).issued = (R.ledger s).issued + 1)
    (hentries : (R.ledger t).entries = (R.ledger s).entries) :
    R.Settles 0 {(R.ledger s).issued} s t := by
  refine ⟨hI, by omega, [], by simp [hentries], by simp, ?_⟩
  have hone : Multiset.Ico (R.ledger s).issued ((R.ledger s).issued + 1) = {(R.ledger s).issued} :=
    congrArg Finset.val (Nat.Ico_succ_singleton _)
  rw [hissued, hone]
  rfl

/-- An entry that spends its token. -/
theorem spend {e : κ} (hI : R.invariant s → R.invariant t)
    (hissued : (R.ledger t).issued = (R.ledger s).issued)
    (hentries : (R.ledger t).entries = (R.ledger s).entries ++ [e]) (he : R.allowed e) :
    R.Settles {R.token e} 0 s t := by
  refine ⟨hI, by omega, [e], hentries, by simpa using he, ?_⟩
  rw [hissued, Multiset.Ico_self]
  rfl

/-- A step that leaves the ledger alone. -/
theorem idle (hI : R.invariant s → R.invariant t) (hledger : R.ledger t = R.ledger s) :
    R.Settles 0 0 s t := by
  refine ⟨hI, by rw [hledger], [], by simp [hledger], by simp, ?_⟩
  rw [hledger, Multiset.Ico_self]
  rfl

/-- The balance in a regime that allows more. -/
theorem weaken {R' : Regime σ κ} (h : R.Settles inp out s t) (hledger : R'.ledger = R.ledger)
    (htoken : R'.token = R.token) (hallowed : ∀ e, R.allowed e → R'.allowed e)
    (hinvariant : R'.invariant s → R'.invariant t) : R'.Settles inp out s t := by
  obtain ⟨es, hes, hall, hsum⟩ := h.balance
  refine ⟨hinvariant, ?_, es, ?_, fun e he => hallowed e (hall e he), ?_⟩
  · rw [hledger]
    exact h.issued
  · rw [hledger]
    exact hes
  · rw [hledger, htoken]
    exact hsum

/-- **Closed balance**: every token issued in between was spent in between, by one entry. -/
theorem closed (h : R.Settles 0 0 s t) : ∃ es, (R.ledger t).entries = (R.ledger s).entries ++ es ∧
    (∀ e ∈ es, R.allowed e) ∧ (es.map R.token).Nodup ∧
    ∀ n, n ∈ es.map R.token ↔ (R.ledger s).issued ≤ n ∧ n < (R.ledger t).issued := by
  obtain ⟨es, hes, hallowed, hsum⟩ := h.balance
  rw [add_zero, zero_add] at hsum
  refine ⟨es, hes, hallowed, ?_, fun n => ?_⟩
  · rw [← Multiset.coe_nodup, hsum]
    exact Multiset.nodup_Ico
  · rw [← Multiset.mem_coe, hsum, Multiset.mem_Ico]

end Settles

/-! ### Programs -/

section Programs

variable {m : EStateM ε σ α} {f : α → EStateM ε σ β} {g g' : σ → σ} {Q : α → Prop} {Q' : β → Prop}
  {outA : α → Multiset ℕ} {outB : β → Multiset ℕ}

theorem accounts_pure {a : α} (h : Q a) (outA : α → Multiset ℕ) :
    R.Accounts (outA a) (pure a : EStateM ε σ α) Q outA :=
  fun s => ends_pure ⟨h, .refl _ s⟩

theorem accounts_throw (e : ε) (Q : α → Prop) (outA : α → Multiset ℕ) :
    R.Accounts 0 (throw e : EStateM ε σ α) Q outA :=
  fun s => ends_throw (.refl _ s)

theorem accounts_modify (out : Multiset ℕ) (h : ∀ s, R.Settles inp out s (g s)) :
    R.Accounts inp (modify g : EStateM ε σ PUnit) (fun _ => True) fun _ => out :=
  fun s => ends_modify ⟨trivial, h s⟩

theorem Accounts.bind (h : R.Accounts inp m Q outA)
    (hf : ∀ a, Q a → R.Accounts (outA a) (f a) Q' outB) : R.Accounts inp (m >>= f) Q' outB := by
  intro s
  refine (h s).bind ?_
  rintro a t ⟨hQ, hst⟩
  exact (hf a hQ t).mono (fun _ _ h => ⟨h.1, hst.trans h.2⟩) fun _ _ h => hst.trans h

theorem Accounts.mono (h : R.Accounts inp m Q outA) {Q₂ : α → Prop} (hQ : ∀ a, Q a → Q₂ a)
    {out₂ : α → Multiset ℕ} (hout : ∀ a, Q a → outA a = out₂ a) : R.Accounts inp m Q₂ out₂ := by
  intro s
  refine (h s).mono (fun a t ht => ⟨hQ a ht.1, ?_⟩) fun _ _ h => h
  rw [← hout a ht.1]
  exact ht.2

theorem accounts_ite {c : Prop} [Decidable c] {m' : EStateM ε σ α}
    (h : c → R.Accounts inp m Q outA) (h' : ¬ c → R.Accounts inp m' Q outA) :
    R.Accounts inp (if c then m else m') Q outA := fun s =>
  ends_ite (fun hc => h hc s) fun hc => h' hc s

/-- A scope that owns `extra` and gives it up at its end. -/
theorem Accounts.atExit (h : R.Accounts inp m Q outA) (hg : R.Frees extra g) :
    R.Accounts (inp + extra) (atExit g m) Q outA := by
  intro s
  refine ends_atExit ((h s).mono ?_ ?_)
  · rintro a t ⟨hQ, hst⟩
    refine ⟨hQ, (hst.frame extra).trans ?_⟩
    have hfree := (hg t).frame (outA a)
    rwa [zero_add, add_comm extra] at hfree
  · rintro e t hst
    refine (hst.frame extra).trans ?_
    rw [zero_add]
    exact hg t

/-- A scope that owns `extra`, gives it up if it is left by an error, and keeps it otherwise. -/
theorem Accounts.onError (h : R.Accounts inp m Q outA) (hg : R.Frees extra g) :
    R.Accounts (inp + extra) (onError g m) Q fun a => outA a + extra := by
  intro s
  unfold Ends Lib.onError
  have hs := h s
  cases hr : m s with
  | ok a t =>
    obtain ⟨hQ, hst⟩ := hs.ok hr
    exact ⟨hQ, hst.frame extra⟩
  | error e t =>
    have hst := (hs.error hr).frame extra
    rw [zero_add] at hst
    exact hst.trans (hg t)

theorem Accounts.adaptExcept {ε' : Type} {φ : ε → ε'} (h : R.Accounts inp m Q outA) :
    R.Accounts inp (EStateM.adaptExcept φ m) Q outA := by
  intro s
  unfold Ends EStateM.adaptExcept
  have hs := h s
  cases hr : m s with
  | ok a t => exact hs.ok hr
  | error e t => exact hs.error hr

theorem frees_id : R.Frees 0 (id : σ → σ) := fun s => .refl 0 s

theorem Frees.comp {inp' : Multiset ℕ} (h : R.Frees inp g) (h' : R.Frees inp' g') :
    R.Frees (inp + inp') (fun s => g' (g s)) := by
  intro s
  have hfirst := (h s).frame inp'
  rw [zero_add] at hfirst
  exact hfirst.trans (h' (g s))

end Programs

end Regime

end ProxyPP.Lib
