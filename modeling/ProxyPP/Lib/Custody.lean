import Mathlib.Data.List.Nodup
import Mathlib.Logic.Function.Basic
import Mathlib.Logic.Relation
import Mathlib.Tactic.Common

/-!
# ProxyPP.Lib.Custody — tokens with one holder each

Tokens are numbered in the order they are issued.  A place holds at most one token; a token leaves
custody once, by being spent, and is never held again.  `Sole` says that every token issued so far
is with one place or spent once; the four steps keep it, so every run does (`Sole.steps`).
-/

namespace ProxyPP.Lib

/-- Which place holds which token, and the tokens that were spent, in order. -/
structure Custody (κ : Type) where
  issued : ℕ
  held : κ → Option ℕ
  spent : List ℕ

namespace Custody

variable {κ : Type}

/-- Nothing issued. -/
def empty : Custody κ := ⟨0, fun _ => none, []⟩

/-- Every token that was issued has one holder or was spent once. -/
structure Sole (c : Custody κ) : Prop where
  holder : ∀ i j t, c.held i = some t → c.held j = some t → i = j
  unspent : ∀ i t, c.held i = some t → t ∉ c.spent
  once : c.spent.Nodup
  known : ∀ t, (∃ i, c.held i = some t) ∨ t ∈ c.spent ↔ t < c.issued

theorem sole_empty : (empty : Custody κ).Sole where
  holder := by simp [empty]
  unspent := by simp [empty]
  once := List.nodup_nil
  known := by simp [empty]

theorem Sole.held_lt {c : Custody κ} (h : c.Sole) {i : κ} {t : ℕ} (hi : c.held i = some t) :
    t < c.issued :=
  (h.known t).mp (Or.inl ⟨i, hi⟩)

theorem Sole.spent_lt {c : Custody κ} (h : c.Sole) {t : ℕ} (ht : t ∈ c.spent) : t < c.issued :=
  (h.known t).mp (Or.inr ht)

/-- Where an issued token is: with one place and not spent, or with no place and spent once. -/
theorem Sole.whereabouts {c : Custody κ} (h : c.Sole) {t : ℕ} (ht : t < c.issued) :
    ((∃! i, c.held i = some t) ∧ t ∉ c.spent) ∨
      ((∀ i, c.held i ≠ some t) ∧ c.spent.count t = 1) := by
  rcases (h.known t).mpr ht with ⟨i, hi⟩ | hmem
  · exact Or.inl ⟨⟨i, hi, fun j hj => h.holder j i t hj hi⟩, h.unspent i t hi⟩
  · exact Or.inr ⟨fun i hi => h.unspent i t hi hmem, List.count_eq_one_of_mem h.once hmem⟩

/-! ### The steps -/

/-- A new token that is spent at once. -/
def waste (c : Custody κ) : Custody κ :=
  { c with issued := c.issued + 1, spent := c.spent ++ [c.issued] }

theorem Sole.waste {c : Custody κ} (h : c.Sole) : c.waste.Sole where
  holder := h.holder
  unspent k t hk hmem := by
    rcases List.mem_append.mp hmem with hold | hnew
    · exact h.unspent k t hk hold
    · have hlt := h.held_lt hk
      have ht := List.mem_singleton.mp hnew
      omega
  once := by
    refine List.nodup_append.mpr ⟨h.once, List.nodup_singleton _, ?_⟩
    intro a ha b hb
    have hlt := h.spent_lt ha
    have hb' := List.mem_singleton.mp hb
    omega
  known t := by
    show _ ↔ t < c.issued + 1
    have hk := h.known t
    simp only [Custody.waste, List.mem_append, List.mem_singleton]
    constructor
    · rintro (hheld | hold | rfl)
      · have hlt := hk.mp (Or.inl hheld)
        omega
      · have hlt := hk.mp (Or.inr hold)
        omega
      · omega
    · intro ht
      by_cases hnew : t = c.issued
      · exact Or.inr (Or.inr hnew)
      · rcases hk.mpr (by omega) with hheld | hold
        · exact Or.inl hheld
        · exact Or.inr (Or.inl hold)

section Steps

variable [DecidableEq κ]

/-- A new token for the place `i`. -/
def issue (i : κ) (c : Custody κ) : Custody κ :=
  { c with issued := c.issued + 1, held := Function.update c.held i (some c.issued) }

/-- What the place `i` holds is moved to the place `j`. -/
def move (i j : κ) (c : Custody κ) : Custody κ :=
  { c with held := Function.update (Function.update c.held j (c.held i)) i none }

/-- What the place `i` holds is spent. -/
def spend (i : κ) (c : Custody κ) : Custody κ :=
  { c with held := Function.update c.held i none, spent := c.spent ++ (c.held i).toList }

/-- One step: new tokens go to free places, and so do moved ones. -/
inductive Step : Custody κ → Custody κ → Prop
  | issue (c : Custody κ) {i : κ} (h : c.held i = none) : Step c (c.issue i)
  | waste (c : Custody κ) : Step c c.waste
  | move (c : Custody κ) {i j : κ} (hij : i ≠ j) (h : c.held j = none) : Step c (c.move i j)
  | spend (c : Custody κ) (i : κ) : Step c (c.spend i)

abbrev Steps : Custody κ → Custody κ → Prop := Relation.ReflTransGen Step

variable {c : Custody κ}

theorem held_issue (i k : κ) (c : Custody κ) :
    (c.issue i).held k = if k = i then some c.issued else c.held k := Function.update_apply ..

theorem held_spend (i k : κ) (c : Custody κ) :
    (c.spend i).held k = if k = i then none else c.held k := Function.update_apply ..

theorem held_move (i j k : κ) (c : Custody κ) :
    (c.move i j).held k = if k = i then none else if k = j then c.held i else c.held k := by
  show Function.update (Function.update c.held j (c.held i)) i none k = _
  rw [Function.update_apply, Function.update_apply]

theorem Sole.issue (h : c.Sole) {i : κ} (hi : c.held i = none) : (c.issue i).Sole where
  holder k l t hk hl := by
    rw [held_issue] at hk hl
    split_ifs at hk hl with h₁ h₂ h₂
    · rw [h₁, h₂]
    · have hlt := h.held_lt hl
      have ht := Option.some.inj hk
      omega
    · have hlt := h.held_lt hk
      have ht := Option.some.inj hl
      omega
    · exact h.holder k l t hk hl
  unspent k t hk hmem := by
    rw [held_issue] at hk
    split_ifs at hk with h₁
    · have hlt := h.spent_lt hmem
      have ht := Option.some.inj hk
      omega
    · exact h.unspent k t hk hmem
  once := h.once
  known t := by
    show _ ↔ t < c.issued + 1
    constructor
    · rintro (⟨k, hk⟩ | hmem)
      · rw [held_issue] at hk
        split_ifs at hk with h₁
        · have ht := Option.some.inj hk
          omega
        · have hlt := h.held_lt hk
          omega
      · have hlt := h.spent_lt hmem
        omega
    · intro ht
      by_cases hnew : t = c.issued
      · exact Or.inl ⟨i, by rw [held_issue, if_pos rfl, hnew]⟩
      · rcases (h.known t).mpr (by omega) with ⟨k, hk⟩ | hmem
        · have hki : k ≠ i := by rintro rfl; rw [hi] at hk; cases hk
          exact Or.inl ⟨k, by rw [held_issue, if_neg hki, hk]⟩
        · exact Or.inr hmem

/-- A token held after a move was held before, elsewhere if at all. -/
theorem held_of_move {i j k : κ} {t : ℕ} (hk : (c.move i j).held k = some t) :
    c.held (if k = j then i else k) = some t := by
  rw [held_move] at hk
  split_ifs at hk ⊢ with h₁ h₂
  · exact hk
  · exact hk

theorem Sole.move (h : c.Sole) {i j : κ} (hij : i ≠ j) (hj : c.held j = none) :
    (c.move i j).Sole where
  holder k l t hk hl := by
    have heq := h.holder _ _ t (held_of_move hk) (held_of_move hl)
    rw [held_move] at hk hl
    split_ifs at hk hl heq with h₁ h₂ h₃ h₄ h₅ h₆
    · rw [h₂, h₄]
    · exact absurd heq.symm h₃
    · exact absurd heq h₁
    · exact heq
  unspent k t hk := h.unspent _ t (held_of_move hk)
  once := h.once
  known t := by
    show _ ↔ t < c.issued
    rw [← h.known t]
    refine or_congr ⟨fun ⟨k, hk⟩ => ⟨_, held_of_move hk⟩, fun ⟨k, hk⟩ => ?_⟩ Iff.rfl
    by_cases hki : k = i
    · subst hki
      exact ⟨j, by rw [held_move, if_neg hij.symm, if_pos rfl, hk]⟩
    · have hkj : k ≠ j := by rintro rfl; rw [hj] at hk; cases hk
      exact ⟨k, by rw [held_move, if_neg hki, if_neg hkj, hk]⟩

theorem Sole.spend (h : c.Sole) (i : κ) : (c.spend i).Sole where
  holder k l t hk hl := by
    rw [held_spend] at hk hl
    split_ifs at hk hl
    exact h.holder k l t hk hl
  unspent k t hk hmem := by
    rw [held_spend] at hk
    split_ifs at hk with hki
    rcases List.mem_append.mp hmem with hold | hnew
    · exact h.unspent k t hk hold
    · exact hki (h.holder k i t hk (Option.mem_toList.mp hnew))
  once := by
    refine List.nodup_append.mpr ⟨h.once, ?_, ?_⟩
    · cases c.held i with
      | none => exact List.nodup_nil
      | some t => exact List.nodup_singleton t
    · rintro a ha b hb rfl
      exact h.unspent i a (Option.mem_toList.mp hb) ha
  known t := by
    show _ ↔ t < c.issued
    rw [← h.known t]
    simp only [Custody.spend, List.mem_append, Option.mem_toList]
    constructor
    · rintro (⟨k, hk⟩ | hold | hnew)
      · rw [Function.update_apply] at hk
        split_ifs at hk
        exact Or.inl ⟨k, hk⟩
      · exact Or.inr hold
      · exact Or.inl ⟨i, hnew⟩
    · rintro (⟨k, hk⟩ | hold)
      · by_cases hki : k = i
        · subst hki; exact Or.inr (Or.inr hk)
        · exact Or.inl ⟨k, by rw [Function.update_apply, if_neg hki, hk]⟩
      · exact Or.inr (Or.inl hold)

/-- **One step** keeps sole custody. -/
theorem Sole.step {c' : Custody κ} (h : c.Sole) (hs : Step c c') : c'.Sole := by
  cases hs with
  | issue hi => exact h.issue hi
  | waste => exact h.waste
  | move hij hj => exact h.move hij hj
  | spend i => exact h.spend i

/-- **Every run** keeps sole custody. -/
theorem Sole.steps {c' : Custody κ} (h : c.Sole) (hs : Steps c c') : c'.Sole := by
  induction hs with
  | refl => exact h
  | tail _ hstep ih => exact ih.step hstep

end Steps

end Custody

end ProxyPP.Lib
