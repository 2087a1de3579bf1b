import Mathlib.Data.List.Induction
import Mathlib.Data.List.Perm.Basic
import Mathlib.Logic.Function.Basic
import Mathlib.Tactic.Common

/-!
# ProxyPP.Lib.MultiMap — ordered multimaps over a key function

A multimap is a list of entries; `key` gives the key of an entry (for header fields: the name up to
case).  `withKey` is the entries of one key in order, the observation every law is stated in:
`insert` appends to its own key and leaves the other keys alone, `erase` empties one key, `set` does
both.  Copying a multimap by inserting its entries one by one keeps every `withKey` and the entries
up to order (`withKey_insertAll`, `insertAll_perm`).

`last` is the single-valued map of a multimap, from each key to the last entry of it: every
operation is the operation of maps, and writing the entries of a multimap into a map one by one
gives `last`.
-/

namespace ProxyPP.Lib.MultiMap

variable {α κ : Type} [DecidableEq κ] (key : α → κ)

/-- The entries of key `k`, in order. -/
def withKey (k : κ) (l : List α) : List α := l.filter (fun e => key e = k)

/-- Is there an entry of key `k`? -/
def hasKey (k : κ) (l : List α) : Bool := l.any (fun e => key e = k)

/-- `e` put directly behind the last entry of its key, at the end if there is none. -/
def insert (e : α) : List α → List α
  | [] => [e]
  | x :: l => if key x = key e ∧ hasKey key (key e) l = false then x :: e :: l else x :: insert e l

/-- All entries of key `k` removed. -/
def erase (k : κ) (l : List α) : List α := l.filter (fun e => key e ≠ k)

/-- All entries of the key of `e` removed, then `e` appended. -/
def set (e : α) (l : List α) : List α := erase key (key e) l ++ [e]

/-- The entries of `es` inserted into `l` from left to right. -/
def insertAll (es l : List α) : List α := es.foldl (fun l e => insert key e l) l

variable {key}

theorem hasKey_eq_false_iff {k : κ} {l : List α} :
    hasKey key k l = false ↔ withKey key k l = [] := by
  simp [hasKey, withKey, List.filter_eq_nil_iff]

@[simp] theorem withKey_nil (k : κ) : withKey key k ([] : List α) = [] := rfl

theorem withKey_append (k : κ) (l l' : List α) :
    withKey key k (l ++ l') = withKey key k l ++ withKey key k l' := List.filter_append ..

theorem withKey_cons_self (e : α) (l : List α) :
    withKey key (key e) (e :: l) = e :: withKey key (key e) l := by
  simp [withKey]

theorem withKey_cons_ne {k : κ} {e : α} (h : key e ≠ k) (l : List α) :
    withKey key k (e :: l) = withKey key k l := by
  simp [withKey, h]

/-! ### Laws of the operations -/

theorem withKey_insert_self (e : α) (l : List α) :
    withKey key (key e) (insert key e l) = withKey key (key e) l ++ [e] := by
  induction l with
  | nil => rw [insert, withKey_cons_self]; rfl
  | cons x l ih =>
    rw [insert]
    by_cases hx : key x = key e ∧ hasKey key (key e) l = false
    · have hl : withKey key (key e) l = [] := hasKey_eq_false_iff.mp hx.2
      rw [if_pos hx, ← hx.1, withKey_cons_self, withKey_cons_self, hx.1, withKey_cons_self, hl]
      rfl
    · rw [if_neg hx]
      by_cases hk : key x = key e
      · rw [← hk, withKey_cons_self, withKey_cons_self, hk, ih]; rfl
      · rw [withKey_cons_ne hk, withKey_cons_ne hk, ih]

theorem withKey_insert_ne {k : κ} {e : α} (h : key e ≠ k) (l : List α) :
    withKey key k (insert key e l) = withKey key k l := by
  induction l with
  | nil => rw [insert, withKey_cons_ne h]
  | cons x l ih =>
    rw [insert]
    by_cases hx : key x = key e ∧ hasKey key (key e) l = false
    · have hxk : key x ≠ k := by rw [hx.1]; exact h
      rw [if_pos hx, withKey_cons_ne hxk, withKey_cons_ne h, withKey_cons_ne hxk]
    · rw [if_neg hx]
      by_cases hk : key x = k
      · rw [← hk] at ih ⊢
        rw [withKey_cons_self, withKey_cons_self, ih]
      · rw [withKey_cons_ne hk, withKey_cons_ne hk, ih]

theorem insert_perm (e : α) (l : List α) : (insert key e l).Perm (e :: l) := by
  induction l with
  | nil => exact List.Perm.refl _
  | cons x l ih =>
    rw [insert]
    by_cases hx : key x = key e ∧ hasKey key (key e) l = false
    · rw [if_pos hx]; exact List.Perm.swap _ _ _
    · rw [if_neg hx]; exact (ih.cons x).trans (List.Perm.swap _ _ _)

theorem withKey_erase_ne {k k' : κ} (h : k ≠ k') (l : List α) :
    withKey key k' (erase key k l) = withKey key k' l := by
  rw [withKey, erase, List.filter_filter, withKey]
  refine List.filter_congr fun e _ => ?_
  by_cases he : key e = k'
  · simp [he, Ne.symm h]
  · simp [he]

theorem withKey_set_ne {k : κ} {e : α} (h : key e ≠ k) (l : List α) :
    withKey key k (set key e l) = withKey key k l := by
  rw [set, withKey_append, withKey_erase_ne h, withKey_cons_ne h, withKey_nil, List.append_nil]

/-! ### Copying by insertion -/

/-- Inserting entries one by one appends them to their keys, in order. -/
theorem withKey_insertAll (k : κ) (es l : List α) :
    withKey key k (insertAll key es l) = withKey key k l ++ withKey key k es := by
  induction es generalizing l with
  | nil => simp [insertAll]
  | cons e es ih =>
    have hstep : insertAll key (e :: es) l = insertAll key es (insert key e l) := rfl
    rw [hstep, ih]
    by_cases he : key e = k
    · subst he
      rw [withKey_insert_self, withKey_cons_self, List.append_assoc]; rfl
    · rw [withKey_insert_ne he, withKey_cons_ne he]

theorem insertAll_perm (es l : List α) : (insertAll key es l).Perm (es ++ l) := by
  induction es generalizing l with
  | nil => exact List.Perm.refl _
  | cons e es ih =>
    have hstep : insertAll key (e :: es) l = insertAll key es (insert key e l) := rfl
    rw [hstep]
    exact ((ih _).trans ((insert_perm e l).append_left es)).trans List.perm_middle

/-! ### The map of last entries -/

variable (key) in
/-- The last entry of each key. -/
def last (l : List α) (k : κ) : Option α := (withKey key k l).getLast?

theorem hasKey_eq_isSome_last (k : κ) (l : List α) : hasKey key k l = (last key l k).isSome := by
  rw [Bool.eq_iff_iff, last, List.getLast?_isSome]
  rw [← not_iff_not, Bool.not_eq_true, not_ne_iff]
  exact hasKey_eq_false_iff

theorem last_concat (e : α) (l : List α) :
    last key (l ++ [e]) = Function.update (last key l) (key e) (some e) := by
  funext k
  rw [last, withKey_append, Function.update_apply]
  by_cases h : k = key e
  · subst h
    rw [if_pos rfl, withKey_cons_self, withKey_nil, List.getLast?_concat]
  · rw [if_neg h, withKey_cons_ne (Ne.symm h), withKey_nil, List.append_nil, last]

theorem last_erase (k : κ) (l : List α) :
    last key (erase key k l) = Function.update (last key l) k none := by
  funext k'
  rw [last, Function.update_apply]
  by_cases h : k' = k
  · have hnil : withKey key k (erase key k l) = [] := by
      simp [withKey, erase, List.filter_filter]
    rw [if_pos h, h, hnil]
    rfl
  · rw [if_neg h, withKey_erase_ne (Ne.symm h), last]

theorem last_set (e : α) (l : List α) :
    last key (set key e l) = Function.update (last key l) (key e) (some e) := by
  rw [set, last_concat, last_erase, Function.update_idem]

theorem last_eq_none_iff {k : κ} {l : List α} : last key l k = none ↔ ∀ e ∈ l, key e ≠ k := by
  simp [last, withKey]

/-- The last entry of a key is in the list, and no later one has the key. -/
theorem last_eq_some_iff {k : κ} {e : α} {l : List α} : last key l k = some e ↔
    ∃ pre post, l = pre ++ e :: post ∧ key e = k ∧ ∀ e' ∈ post, key e' ≠ k := by
  constructor
  · intro h
    induction l using List.reverseRecOn with
    | nil => cases h
    | append_singleton l x ih =>
      rw [last_concat, Function.update_apply] at h
      split_ifs at h with hk
      · obtain rfl := Option.some.inj h
        exact ⟨l, [], rfl, hk.symm, by simp⟩
      · obtain ⟨pre, post, rfl, hkey, hpost⟩ := ih h
        refine ⟨pre, post ++ [x], by simp, hkey, fun e' he' => ?_⟩
        rcases List.mem_append.mp he' with he' | he'
        · exact hpost e' he'
        · rw [List.mem_singleton.mp he']
          exact Ne.symm hk
  · rintro ⟨pre, post, rfl, rfl, hpost⟩
    have hnil : withKey key (key e) post = [] := by
      simpa [withKey, List.filter_eq_nil_iff] using hpost
    rw [last, withKey_append, withKey_cons_self, hnil, List.getLast?_concat]

/-- The values of the entries written into a map from left to right. -/
theorem foldl_update_eq_last {β : Type} (value : α → β) (l : List α) :
    l.foldl (fun V e => Function.update V (key e) (some (value e))) (fun _ => none)
      = Option.map value ∘ last key l := by
  induction l using List.reverseRecOn with
  | nil => rfl
  | append_singleton l e ih =>
    rw [List.foldl_append, ih, last_concat, Function.comp_update]
    rfl

end ProxyPP.Lib.MultiMap
