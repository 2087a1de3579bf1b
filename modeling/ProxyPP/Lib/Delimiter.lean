import Mathlib.Data.List.Basic
import Mathlib.Tactic.Common

/-!
# ProxyPP.Lib.Delimiter — the first occurrence of a two-element delimiter

`findPair a b l` is the position of the first `a, b` in `l`.  For `a ≠ b` a list is cut at the
delimiter in one way only (`exists_cut_of_findPair`, `cut_unique`), and the position found does not
change when the list grows at its end (`findPair_append`).  `splitPair a b l` is the pieces between
the delimiters; pieces that were joined are the ones split off exactly if there is no delimiter in
them (`splitPair_joined_iff`).
-/

namespace ProxyPP.Lib

variable {α : Type} [DecidableEq α]

/-- The position of the first `a` directly followed by `b`. -/
def findPair (a b : α) : List α → Option ℕ
  | [] => none
  | [_] => none
  | x :: y :: l => if x = a ∧ y = b then some 0 else (findPair a b (y :: l)).map (· + 1)

variable {a b : α}

@[simp] theorem findPair_nil : findPair a b [] = none := rfl

@[simp] theorem findPair_singleton (x : α) : findPair a b [x] = none := rfl

theorem findPair_cons_cons (x y : α) (l : List α) : findPair a b (x :: y :: l) =
    if x = a ∧ y = b then some 0 else (findPair a b (y :: l)).map (· + 1) := rfl

theorem findPair_delimiter (l : List α) : findPair a b (a :: b :: l) = some 0 := by
  rw [findPair_cons_cons, if_pos ⟨rfl, rfl⟩]

theorem findPair_eq_none_of_not_mem {l : List α} (h : a ∉ l) : findPair a b l = none := by
  induction l with
  | nil => rfl
  | cons x l ih =>
    cases l with
    | nil => rfl
    | cons y l =>
      have hx : ¬ (x = a ∧ y = b) := fun hxy => h (by simp [hxy.1])
      rw [findPair_cons_cons, if_neg hx, ih (fun hl => h (List.mem_cons_of_mem _ hl))]
      rfl

/-- A delimiter behind a delimiter-free list is the first one. -/
theorem findPair_of_none (hab : a ≠ b) {l : List α} (h : findPair a b l = none) (r : List α) :
    findPair a b (l ++ a :: b :: r) = some l.length := by
  induction l with
  | nil => exact findPair_delimiter r
  | cons x l ih =>
    cases l with
    | nil =>
      have hx : ¬ (x = a ∧ a = b) := fun hxa => hab hxa.2
      rw [List.singleton_append, findPair_cons_cons, if_neg hx, findPair_delimiter]
      rfl
    | cons y l =>
      rw [findPair_cons_cons] at h
      by_cases hxy : x = a ∧ y = b
      · rw [if_pos hxy] at h; cases h
      · rw [if_neg hxy, Option.map_eq_none_iff] at h
        rw [List.cons_append, List.cons_append, findPair_cons_cons, if_neg hxy,
          ← List.cons_append, ih h]
        rfl

/-- What was found cuts the list at a first delimiter. -/
theorem exists_cut_of_findPair {s : List α} {n : ℕ} (h : findPair a b s = some n) :
    ∃ l r, s = l ++ a :: b :: r ∧ l.length = n ∧ findPair a b l = none := by
  induction s generalizing n with
  | nil => cases h
  | cons x s ih =>
    cases s with
    | nil => cases h
    | cons y s =>
      rw [findPair_cons_cons] at h
      by_cases hxy : x = a ∧ y = b
      · rw [if_pos hxy] at h
        cases h
        exact ⟨[], s, by rw [hxy.1, hxy.2]; rfl, rfl, rfl⟩
      · rw [if_neg hxy, Option.map_eq_some_iff] at h
        obtain ⟨m, hm, rfl⟩ := h
        obtain ⟨l, r, hs, hl, hnone⟩ := ih hm
        refine ⟨x :: l, r, by rw [hs]; rfl, by simp [hl], ?_⟩
        cases l with
        | nil => rfl
        | cons z l =>
          obtain ⟨rfl, -⟩ := List.cons_eq_cons.mp hs
          rw [findPair_cons_cons, if_neg hxy, hnone]
          rfl

/-- The position found is stable under more input. -/
theorem findPair_append (hab : a ≠ b) {s : List α} {n : ℕ} (h : findPair a b s = some n)
    (t : List α) : findPair a b (s ++ t) = some n := by
  obtain ⟨l, r, rfl, rfl, hl⟩ := exists_cut_of_findPair h
  rw [List.append_assoc, List.cons_append, List.cons_append]
  exact findPair_of_none hab hl _

/-- A list is cut at its first delimiter in one way. -/
theorem cut_unique (hab : a ≠ b) {l l' r r' : List α} (hl : findPair a b l = none)
    (hl' : findPair a b l' = none) (h : l ++ a :: b :: r = l' ++ a :: b :: r') :
    l = l' ∧ r = r' := by
  have hlen : l.length = l'.length := by
    have h1 := findPair_of_none hab hl r
    rw [h, findPair_of_none hab hl' r'] at h1
    exact (Option.some.inj h1).symm
  obtain ⟨h1, h2⟩ := List.append_inj h hlen
  simp only [List.cons.injEq, true_and] at h2
  exact ⟨h1, h2⟩

/-- The delimiter found lies inside the list. -/
theorem findPair_add_two_le {s : List α} {n : ℕ} (h : findPair a b s = some n) :
    n + 2 ≤ s.length := by
  obtain ⟨l, r, rfl, rfl, -⟩ := exists_cut_of_findPair h
  simp

/-- A front without the first half of the delimiter holds none of it. -/
theorem findPair_append_eq_none {l : List α} (h : a ∉ l) (r : List α) :
    findPair a b (l ++ r) = none ↔ findPair a b r = none := by
  induction l with
  | nil => rfl
  | cons x l ih =>
    obtain ⟨hx, hl⟩ := List.ne_and_not_mem_of_not_mem_cons h
    rw [← ih hl, List.cons_append]
    cases l ++ r with
    | nil => rfl
    | cons y s =>
      rw [findPair_cons_cons, if_neg fun hxy => hx hxy.1.symm, Option.map_eq_none_iff]

/-- What is behind a part without a delimiter in it has none. -/
theorem findPair_of_append {l r : List α} (h : findPair a b (l ++ r) = none) :
    findPair a b r = none := by
  induction l with
  | nil => exact h
  | cons x l ih =>
    refine ih ?_
    rw [List.cons_append] at h
    cases hs : l ++ r with
    | nil => rfl
    | cons y s =>
      rw [hs, findPair_cons_cons] at h
      split at h
      · cases h
      · exact Option.map_eq_none_iff.mp h

/-! ### Splitting -/

/-- The pieces in front of the delimiters, and the rest behind the last one. -/
def splitPair (a b : α) : List α → List (List α)
  | [] => [[]]
  | [x] => [[x]]
  | x :: y :: l =>
    if x = a ∧ y = b then [] :: splitPair a b l
    else match splitPair a b (y :: l) with
      | [] => [[x]]
      | piece :: pieces => (x :: piece) :: pieces

/-- Pieces with a delimiter behind each. -/
def joinPair (a b : α) (pieces : List (List α)) : List α :=
  pieces.flatMap fun piece => piece ++ [a, b]

theorem splitPair_delimiter (l : List α) : splitPair a b (a :: b :: l) = [] :: splitPair a b l :=
  if_pos ⟨rfl, rfl⟩

theorem splitPair_cons_of_ne {x y : α} (h : ¬ (x = a ∧ y = b)) {l piece : List α}
    {pieces : List (List α)} (hl : splitPair a b (y :: l) = piece :: pieces) :
    splitPair a b (x :: y :: l) = (x :: piece) :: pieces := by
  rw [splitPair, if_neg h, hl]

/-- A piece without a delimiter is split off. -/
theorem splitPair_piece (hab : a ≠ b) {piece : List α} (h : findPair a b piece = none)
    (l : List α) : splitPair a b (piece ++ a :: b :: l) = piece :: splitPair a b l := by
  induction piece with
  | nil => exact splitPair_delimiter l
  | cons x piece ih =>
    cases piece with
    | nil =>
      have hx : ¬ (x = a ∧ a = b) := fun hxa => hab hxa.2
      exact splitPair_cons_of_ne hx (splitPair_delimiter l)
    | cons y piece =>
      rw [findPair_cons_cons] at h
      by_cases hxy : x = a ∧ y = b
      · rw [if_pos hxy] at h
        cases h
      · rw [if_neg hxy, Option.map_eq_none_iff] at h
        exact splitPair_cons_of_ne hxy (ih h)

/-- The first piece starts as the list does. -/
theorem exists_piece (y : α) (l : List α) : ∃ piece pieces,
    splitPair a b (y :: l) = piece :: pieces ∧ (piece = [] ∨ piece.head? = some y) := by
  cases l with
  | nil => exact ⟨[y], [], rfl, Or.inr rfl⟩
  | cons z l =>
    unfold splitPair
    split
    · exact ⟨[], _, rfl, Or.inl rfl⟩
    · split
      · exact ⟨[y], [], rfl, Or.inr rfl⟩
      · exact ⟨_, _, rfl, Or.inr rfl⟩

/-- No piece has a delimiter in it. -/
theorem findPair_of_mem_splitPair (l : List α) :
    ∀ piece ∈ splitPair a b l, findPair a b piece = none := by
  fun_induction splitPair a b l with
  | case1 => simp
  | case2 x => simp
  | case3 x y l hxy ih => simpa using ih
  | case4 x y l hxy hnil ih => simp
  | case5 x y l hxy piece pieces hsplit ih =>
    rw [hsplit] at ih
    obtain ⟨hpiece, hpieces⟩ := List.forall_mem_cons.mp ih
    refine List.forall_mem_cons.mpr ⟨?_, hpieces⟩
    obtain ⟨piece', pieces', hsplit', hhead⟩ := exists_piece y l (a := a) (b := b)
    obtain ⟨rfl, rfl⟩ := List.cons.inj (hsplit.symm.trans hsplit')
    cases piece with
    | nil => rfl
    | cons z piece =>
      have hz : z = y := by simpa using hhead
      rw [findPair_cons_cons, if_neg (by rw [hz]; exact hxy), hpiece]
      rfl

/-- Splitting gives the joined pieces back exactly if none has a delimiter in it. -/
theorem splitPair_joined_iff (hab : a ≠ b) (pieces : List (List α)) :
    splitPair a b (joinPair a b pieces) = pieces ++ [[]] ↔
      ∀ piece ∈ pieces, findPair a b piece = none := by
  constructor
  · intro h piece hpiece
    refine findPair_of_mem_splitPair (joinPair a b pieces) piece ?_
    rw [h]
    exact List.mem_append_left _ hpiece
  · intro h
    induction pieces with
    | nil => rfl
    | cons piece pieces ih =>
      obtain ⟨hpiece, hpieces⟩ := List.forall_mem_cons.mp h
      have hjoin : joinPair a b (piece :: pieces) = piece ++ a :: b :: joinPair a b pieces := by
        simp [joinPair]
      rw [hjoin, splitPair_piece hab hpiece, ih hpieces]
      rfl

end ProxyPP.Lib
