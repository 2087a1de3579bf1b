import ProxyPP.Qjs.ObjectBuilder
import ProxyPP.Qjs.PlainObjects

/-!
# ProxyPP.Qjs.Filling — what setters leave on an object

What the laws of plain objects say about the code: a setter that stores its property writes its
content (`Setter.Stores.writes`), and a chain of setters with different names leaves all of them
(`StoresAll.fresh`).  `Leads` is a path of properties over objects that were made since some state;
such objects are out of reach of everything that existed before, so a path stays while others are
built, and while its first object is handed over to an object that existed before (`Leads.kept`).
-/

namespace ProxyPP.Qjs

open ProxyPP ProxyPP.Lib
open ProxyPP.Rules (Error ErrorCode QjsErrc)

variable {N J T : Type}

namespace Observation

variable (O : Observation N J T)

/-- Everything but the object `t` is kept. -/
structure Frame (t : J) (n n' : N) : Prop where
  others : ∀ t', t' ≠ t → O.KeepsObject n n' t'
  global : O.global n' = O.global n

/-- Made since `n₀`. -/
def Fresh (n₀ n : N) (t : J) : Prop := O.plain n t ∧ ¬ O.plain n₀ t

/-- `path` leads from `t` to `t'` over objects made since `n₀`. -/
inductive Leads (n₀ n : N) : J → List T → J → Prop
  | here {t : J} (ht : O.Fresh n₀ n t) : Leads n₀ n t [] t
  | step {t t₁ t' : J} {name : T} {path : List T} (ht : O.Fresh n₀ n t)
      (h : O.own n t name = some (.object t₁)) (hs : Leads n₀ n t₁ path t') :
      Leads n₀ n t (name :: path) t'

/-- The reading of a path of properties. -/
def property [DecidableEq T] (n : N) : J → List T → Option (Reading J T)
  | t, [] => some (.object t)
  | t, name :: path => match O.own n t name with
    | some (.object t₁) => property n t₁ path
    | some ρ => if path = [] then some ρ else none
    | none => none

variable {O}

namespace Frame

theorem refl (t : J) (n : N) : O.Frame t n n := ⟨fun _ _ h => ⟨h, rfl⟩, rfl⟩

theorem trans {t : J} {n n' n'' : N} (h : O.Frame t n n') (h' : O.Frame t n' n'') :
    O.Frame t n n'' :=
  ⟨fun t' hne => (h.others t' hne).trans (h'.others t' hne), h'.global.trans h.global⟩

/-- Filling an object that did not exist keeps everything. -/
theorem keeps {t : J} {n n₁ n' : N} (hnew : O.Keeps n n₁) (ht : ¬ O.plain n t)
    (h : O.Frame t n₁ n') : O.Keeps n n' := by
  refine ⟨fun t' ht' => ?_, h.global.trans hnew.global⟩
  have hne : t' ≠ t := by
    rintro rfl
    exact ht ht'
  exact (hnew.objects t').trans (h.others t' hne) ht'

end Frame

theorem Keeps.trans {n n' n'' : N} (h : O.Keeps n n') (h' : O.Keeps n' n'') : O.Keeps n n'' :=
  ⟨fun t => (h.objects t).trans (h'.objects t), h'.global.trans h.global⟩

/-- What is fresh since a state is fresh since an earlier one. -/
theorem Keeps.fresh {n₀ n₁ n : N} {t : J} (h : O.Keeps n₀ n₁) (ht : O.Fresh n₁ n t) :
    O.Fresh n₀ n t :=
  ⟨ht.1, fun h₀ => ht.2 (h.objects t h₀).1⟩

theorem Writes.frame [DecidableEq T] {t : J} {name : T} {ρ : Reading J T} {n n' : N}
    (h : O.Writes t name ρ n n') (hold : ∀ old, O.own n t name = some old → ∃ s, old = .text s) :
    O.Frame t n n' := ⟨h.others hold, h.global⟩

namespace Leads

theorem fresh {n₀ n : N} {t t' : J} {path : List T} (h : O.Leads n₀ n t path t') :
    O.Fresh n₀ n t := by
  cases h with
  | here ht => exact ht
  | step ht _ _ => exact ht

theorem since {n₀ n₁ n : N} {t t' : J} {path : List T} (hkeeps : O.Keeps n₀ n₁)
    (h : O.Leads n₁ n t path t') : O.Leads n₀ n t path t' := by
  induction h with
  | here ht => exact .here (hkeeps.fresh ht)
  | step ht hown _ ih => exact .step (hkeeps.fresh ht) hown ih

/-- A path whose objects are kept stays. -/
theorem kept {n₀ n n' : N} {t t' : J} {path : List T} (h : O.Leads n₀ n t path t')
    (hkept : ∀ t'', O.Fresh n₀ n t'' → O.Hangs n t t'' → O.KeepsObject n n' t'') :
    O.Leads n₀ n' t path t' ∧ O.KeepsObject n n' t' := by
  induction h with
  | here ht =>
    have hkeep := hkept _ ht (.refl _)
    exact ⟨.here ⟨(hkeep ht.1).1, ht.2⟩, hkeep⟩
  | step ht hown _ ih =>
    obtain ⟨hplain, hsame⟩ := hkept _ ht (.refl _) ht.1
    obtain ⟨hs, hkeep⟩ := ih fun t'' hfresh hhangs => hkept t'' hfresh (.step hown hhangs)
    exact ⟨.step ⟨hplain, ht.2⟩ (by rw [hsame]; exact hown) hs, hkeep⟩

theorem keeps {n₀ n n' : N} {t t' : J} {path : List T} (h : O.Leads n₀ n t path t')
    (hkeeps : O.Keeps n n') : O.Leads n₀ n' t path t' :=
  (h.kept fun t'' _ _ => hkeeps.objects t'').1

theorem property_eq [DecidableEq T] {n₀ n : N} {t t' : J} {path : List T}
    (h : O.Leads n₀ n t path t') (rest : List T) :
    O.property n t (path ++ rest) = O.property n t' rest := by
  induction h with
  | here ht => rfl
  | step ht hown _ ih =>
    rw [List.cons_append, property, hown]
    exact ih

end Leads

end Observation

/-! ## Setters -/

variable [DecidableEq T] {Q : QuickJs N J} {O : Observation N J T}

/-- The content that a setter puts into its property.  What `setValue` passes through may be
anything. -/
def Setter.content (Q : QuickJs N J) (O : Observation N J T) : Setter J → Option (Reading J T)
  | .setString _ value => some (.text (O.textOf value))
  | .setBool _ value => some (.bool value)
  | .setInt32 _ value => some (.number value)
  | .setNull _ => some .null
  | .setObject _ object => some (.object (object.nativeHandle Q).value)
  | .setValue _ _ => none

/-- An adopted value is the one that was made. -/
theorem create_made {context : JSContext} {make : EStateM Error (Runtime N J) J} {v : Value J}
    {r r' : Runtime N J} (h : Value.create Q context make r = .ok v r') :
    ∃ r₁, make r = .ok (v.nativeHandle Q).value r₁ ∧ r'.native = r₁.native := by
  obtain ⟨-, j, r₁, hmake, rfl, rfl⟩ := create_eq_ok h
  exact ⟨r₁, hmake, rfl⟩

/-- A primitive value is made without a call. -/
theorem create_pure {context : JSContext} {j : J} {v : Value J} {r r' : Runtime N J}
    (h : Value.create Q context (pure j) r = .ok v r') :
    (v.nativeHandle Q).value = j ∧ r'.native = r.native := by
  obtain ⟨r₁, hmake, hnative⟩ := create_made h
  cases hmake
  exact ⟨rfl, hnative⟩

/-- The value of a setter reads as its content. -/
theorem make_reads (laws : Q.PlainObjects O) {s : Setter J} {context : JSContext} {v : Value J}
    {r r' : Runtime N J} {ρ : Reading J T} (h : s.make Q context r = .ok v r')
    (hρ : s.content Q O = some ρ) (hplain : ∀ t, ρ = .object t → O.plain r.native t) :
    O.Keeps r.native r'.native ∧ O.read r'.native (v.nativeHandle Q).value = some ρ := by
  cases s with
  | setString name value =>
    obtain ⟨r₁, hmake, hnative⟩ := create_made h
    obtain ⟨n, hcall, rfl⟩ := call_eq_ok.mp hmake
    cases hρ
    rw [hnative]
    exact laws.newStringLen _ _ _ _ _ hcall
  | setBool name value =>
    obtain ⟨hvalue, hnative⟩ := create_pure h
    cases hρ
    rw [hnative, hvalue]
    exact ⟨.refl O _, laws.newBool _ _ _⟩
  | setInt32 name value =>
    obtain ⟨hvalue, hnative⟩ := create_pure h
    cases hρ
    rw [hnative, hvalue]
    exact ⟨.refl O _, laws.newInt32 _ _ _⟩
  | setNull name =>
    obtain ⟨hvalue, hnative⟩ := create_pure h
    cases hρ
    rw [hnative, hvalue]
    exact ⟨.refl O _, laws.null _⟩
  | setObject name object =>
    cases hρ
    by_cases hobject : (!object.isValid || !object.isObject Q) = true
    · rw [Setter.make, if_pos hobject] at h
      obtain ⟨u, hu, -⟩ := atExit_eq_ok.mp h
      cases hu
    · rw [Setter.make, if_neg hobject] at h
      cases h
      exact ⟨.refl O _, laws.read_plain _ _ (hplain _ rfl)⟩
  | setValue name value => cases hρ

/-- A setter that stores its property writes its content. -/
theorem Setter.Stores.writes (laws : Q.PlainObjects O) {s : Setter J} {context : JSContext}
    {object : Value J} {r r' : Runtime N J} {ρ : Reading J T} (h : s.Stores Q context object r r')
    (ht : O.plain r.native (object.nativeHandle Q).value) (hρ : s.content Q O = some ρ)
    (hplain : ∀ t, ρ = .object t → O.plain r.native t) :
    O.Writes (object.nativeHandle Q).value (O.nameOf s.name) ρ r.native r'.native := by
  obtain ⟨value, r₁, hmake, hset⟩ := h
  obtain ⟨hkeeps, hread⟩ := make_reads laws hmake hρ hplain
  obtain ⟨-, -, n, hcall, hnative⟩ := setProperty_eq_ok hset
  have ht₁ := (hkeeps.objects _ ht).1
  rw [hnative]
  exact hkeeps.writes ht (laws.setPropertyStr _ _ _ _ _ _ _ _ ht₁ hread hcall).1

/-- The name of the property that a setter writes. -/
def Setter.key (O : Observation N J T) (s : Setter J) : T := O.nameOf s.name

/-- **A chain of setters** with different names, none of them there before, leaves the content of
each, and does nothing else. -/
theorem StoresAll.fresh (laws : Q.PlainObjects O) {context : JSContext} {object : Value J}
    {ss : List (Setter J)} {r r' : Runtime N J} (h : StoresAll Q context object ss r r')
    (ht : O.plain r.native (object.nativeHandle Q).value) (hnames : (ss.map (Setter.key O)).Nodup)
    (hnew : ∀ s ∈ ss, s.key O ≠ O.nameOf protoName ∧
      O.own r.native (object.nativeHandle Q).value (s.key O) = none)
    (hcontent : ∀ s ∈ ss, ∃ ρ, s.content Q O = some ρ ∧
      ∀ t, ρ = .object t → O.plain r.native t ∧ t ≠ (object.nativeHandle Q).value) :
    O.plain r'.native (object.nativeHandle Q).value ∧
      O.Frame (object.nativeHandle Q).value r.native r'.native ∧
      (∀ name, name ∉ ss.map (Setter.key O) →
        O.own r'.native (object.nativeHandle Q).value name
          = O.own r.native (object.nativeHandle Q).value name) ∧
      ∀ s ∈ ss, O.own r'.native (object.nativeHandle Q).value (s.key O) = s.content Q O := by
  induction h with
  | nil r => exact ⟨ht, .refl _ _, fun _ _ => rfl, by simp⟩
  | @cons s ss r r₁ r₂ hs _ ih =>
    obtain ⟨hproto, hnone⟩ := hnew s List.mem_cons_self
    obtain ⟨ρ, hρ, hobj⟩ := hcontent s List.mem_cons_self
    have hw : O.Writes (object.nativeHandle Q).value (s.key O) ρ r.native r₁.native :=
      hs.writes laws ht hρ fun t h => (hobj t h).1
    have hframe := hw.frame (by simp [hnone])
    rw [List.map_cons, List.nodup_cons] at hnames
    have hown : ∀ name, name ≠ s.key O → O.own r₁.native (object.nativeHandle Q).value name
        = O.own r.native (object.nativeHandle Q).value name := by
      intro name hne
      rw [hw.own hproto, Function.update_of_ne hne]
    have hrest := ih hw.plain hnames.2 ?_ ?_
    · obtain ⟨hplain, hframe', hother, hstored⟩ := hrest
      refine ⟨hplain, hframe.trans hframe', fun name hname => ?_, fun s' hs' => ?_⟩
      · rw [List.map_cons, List.mem_cons, not_or] at hname
        rw [hother name hname.2, hown name hname.1]
      · rcases List.mem_cons.mp hs' with rfl | hs'
        · rw [hother _ hnames.1, hw.own hproto, Function.update_self, hρ]
        · exact hstored s' hs'
    · intro s' hs'
      obtain ⟨hproto', hnone'⟩ := hnew s' (List.mem_cons_of_mem s hs')
      have hne : s'.key O ≠ s.key O := fun h => hnames.1 (h ▸ List.mem_map_of_mem hs')
      exact ⟨hproto', (hown _ hne).trans hnone'⟩
    · intro s' hs'
      obtain ⟨ρ', hρ', hobj'⟩ := hcontent s' (List.mem_cons_of_mem s hs')
      refine ⟨ρ', hρ', fun t h => ⟨?_, (hobj' t h).2⟩⟩
      exact (hframe.others t (hobj' t h).2 (hobj' t h).1).1

/-- A new object. -/
theorem object_new (laws : Q.PlainObjects O) {context : JSContext} {object : Value J}
    {r r' : Runtime N J} (h : Value.object Q context r = .ok object r') :
    O.Keeps r.native r'.native ∧
      O.Fresh r.native r'.native (object.nativeHandle Q).value ∧
      ∀ name, O.own r'.native (object.nativeHandle Q).value name = none := by
  obtain ⟨r₁, hmake, hnative⟩ := create_made h
  obtain ⟨n, hcall, rfl⟩ := call_eq_ok.mp hmake
  obtain ⟨hkeeps, hnew, hplain, hempty⟩ := laws.newObject _ _ _ _ hcall
  rw [hnative]
  exact ⟨hkeeps, ⟨hplain, hnew⟩, hempty⟩

end ProxyPP.Qjs
