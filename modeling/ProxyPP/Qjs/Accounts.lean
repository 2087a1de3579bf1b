import ProxyPP.Lib.Ledger
import ProxyPP.Qjs.Evaluator
import ProxyPP.Qjs.ObjectBuilder

/-!
# ProxyPP.Qjs.Accounts — the handles that the wrappers account for

`regime P context` is the regime of code that works in one context: its tokens are the handles,
a departure spends one, only handles of the context depart, and `P` is kept.  Each operation on
values, and each chain of setters, is accounted for: what it is passed and what it makes it returns
or lets depart, whichever of its calls fail.
-/

namespace ProxyPP.Qjs

open ProxyPP ProxyPP.Lib
open ProxyPP.Rules (Error ErrorCode QjsErrc)

variable {N J : Type}

/-- What code that works in `context` is accountable for. -/
def regime (P : N → Prop) (context : JSContext) : Regime (Runtime N J) (Departure J) where
  ledger r := ⟨r.created, r.departures⟩
  token d := d.handle.id
  allowed d := d.handle.context = context
  invariant r := P r.native

namespace Value

/-- The handle that a value owns, as a token. -/
def holds (v : Value J) : Multiset ℕ := v.owned.elim 0 fun h => {h.id}

/-- A handle that the value owns is of `context`. -/
def OfContext (context : JSContext) (v : Value J) : Prop :=
  ∀ h, v.owned = some h → h.context = context

theorem holds_owner {h : Handle J} (hc : h.context ≠ nullptr) : (owner h).holds = {h.id} := by
  rw [holds, owned_owner hc]
  rfl

theorem ofContext_owner (h : Handle J) : (owner h).OfContext h.context := by
  intro g hg
  by_cases hc : h.context = nullptr
  · have howned : (owner h).owned = none := by
      show (if Impl.isValid ⟨h.context, h, true⟩ then some h else none) = none
      rw [if_neg (by simp [Impl.isValid, hc])]
    rw [howned] at hg
    cases hg
  · rw [owned_owner hc] at hg
    rw [Option.some.inj hg]

end Value

section Accounts

variable {Q : QuickJs N J} {I : Interpreter N J} {P : N → Prop} {context : JSContext}

/-! ### Values -/

theorem call_accounts {α : Type} {errc : QjsErrc} {m : EStateM Bytes N α} (hm : Keeps P m) :
    (regime P context).Accounts 0 (call errc m : EStateM Error (Runtime N J) α) (fun _ => True)
      fun _ => 0 := by
  intro r
  refine ends_call ?_ ?_
  · intro a n hr
    exact ⟨trivial, .idle (fun hP => (hm _ hP).ok hr) rfl⟩
  · intro message n hr
    exact .idle (fun hP => (hm _ hP).error hr) rfl

/-- One departure. -/
theorem settles_depart {r r' : Runtime N J} {d : Departure J} (hP : P r.native → P r'.native)
    (hcreated : r'.created = r.created) (hdepartures : r'.departures = r.departures ++ [d])
    (hd : d.handle.context = context) : (regime P context).Settles {d.handle.id} 0 r r' :=
  .spend (e := d) hP hcreated hdepartures hd

theorem freeValue_settles (hQ : Q.Respects P) {c : JSContext} {h : Handle J}
    (hc : h.context = context) (r : Runtime N J) :
    (regime P context).Settles {h.id} 0 r (freeValue Q c h r) :=
  settles_depart (d := .freed h) (fun hP => hQ.freeValue _ _ _ hP) rfl rfl hc

theorem destroy_frees (hQ : Q.Respects P) {v : Value J} (hv : v.OfContext context) :
    (regime P context).Frees v.holds (v.destroy Q) := by
  intro r
  rw [Value.destroy_eq, Value.holds]
  cases ho : v.owned with
  | none => exact .refl 0 r
  | some h => exact freeValue_settles hQ (hv h ho) r

theorem adopt_accounts (hQ : Q.Respects P) (hc : context ≠ nullptr) (j : J) :
    (regime P context).Accounts 0 (adopt Q context j) (Value.OfContext context) Value.holds := by
  intro r
  have hnew : (regime P context).Settles 0 {r.created} r { r with created := r.created + 1 } :=
    .issue id rfl rfl
  refine ends_bind (Ends.of_ok (a := ⟨r.created, context, j⟩)
    (t := { r with created := r.created + 1 }) rfl ?_)
  refine ends_ite (fun _ => ends_pure ?_) fun _ => ends_bind (ends_modify (ends_throw ?_))
  · refine ⟨Value.ofContext_owner ⟨r.created, context, j⟩, ?_⟩
    have hholds : Value.holds ⟨some ⟨context, ⟨r.created, context, j⟩, true⟩⟩ = {r.created} :=
      Value.holds_owner (h := ⟨r.created, context, j⟩) hc
    rw [hholds]
    exact hnew
  · exact hnew.trans (freeValue_settles (h := ⟨r.created, context, j⟩) hQ rfl _)

/-- A factory. -/
theorem create_accounts (hQ : Q.Respects P) {make : EStateM Error (Runtime N J) J}
    (hmake : (regime P context).Accounts 0 make (fun _ => True) fun _ => 0) :
    (regime P context).Accounts 0 (Value.create Q context make) (Value.OfContext context)
      Value.holds := by
  unfold Value.create
  by_cases hc : context = nullptr
  · rw [if_pos hc]
    exact fun r => ends_bind (ends_throw (.refl 0 r))
  · rw [if_neg hc]
    exact hmake.bind fun j _ => adopt_accounts hQ hc j

theorem pure_accounts (j : J) : (regime P context).Accounts 0
    (pure j : EStateM Error (Runtime N J) J) (fun _ => True) fun _ => 0 :=
  Regime.accounts_pure trivial fun _ => 0

/-- A setter takes the passed value over, and lets its handle depart on every path. -/
theorem store_accounts (hQ : Q.Respects P) {s : Value.Setting N J}
    (hs : ∀ c t j, Keeps P (s.set c t j)) {v value : Value J} (hvalue : value.OfContext context) :
    (regime P context).Accounts value.holds (Value.store Q s v value) (fun _ => True)
      fun _ => 0 := by
  have hrefuse : ∀ e, (regime P context).Accounts value.holds
      (atExit (value.destroy Q) (throw e) : EStateM Error (Runtime N J) PUnit) (fun _ => True)
      fun _ => 0 := by
    intro e
    have h := (Regime.accounts_throw (R := regime P context) e (fun _ : PUnit => True)
      fun _ => 0).atExit (destroy_frees hQ hvalue)
    rwa [zero_add] at h
  unfold Value.store
  refine Regime.accounts_ite (fun _ => hrefuse _) fun _ => ?_
  refine Regime.accounts_ite (fun _ => hrefuse _) fun _ => ?_
  refine Regime.accounts_ite (fun _ => hrefuse _) fun hvalid => ?_
  refine Regime.accounts_ite (fun _ => hrefuse _) fun _ => ?_
  obtain ⟨h, hh⟩ := Value.exists_owned (v := value) (by simpa using hvalid)
  have hrelease : (regime P context).Frees 0 ((value.release Q).2.destroy Q) := by
    intro r
    rw [Value.destroy_release]
    exact .refl 0 r
  have hover : (regime P context).Accounts value.holds (do
      modify (takeOver (v.nativeHandle Q) s.key (value.release Q).1)
      call s.failed (s.set v.context (v.nativeHandle Q).value (value.release Q).1.value) :
        EStateM Error (Runtime N J) PUnit) (fun _ => True) fun _ => 0 := by
    refine (Regime.accounts_modify 0 fun r => ?_).bind fun _ _ => call_accounts (hs _ _ _)
    have hholds : value.holds = {h.id} := by rw [Value.holds, hh]; rfl
    have hhandle : (value.release Q).1 = h := Value.nativeHandle_of_owned hh
    rw [hholds, hhandle]
    exact settles_depart (d := .handedOver (v.nativeHandle Q) s.key h) id rfl rfl (hvalue h hh)
  have h := hover.atExit hrelease
  rwa [add_zero] at h

theorem setProperty_accounts (hQ : Q.Respects P) {v value : Value J} (name : Bytes)
    (hvalue : value.OfContext context) : (regime P context).Accounts value.holds
      (v.setProperty Q name value) (fun _ => True) fun _ => 0 :=
  store_accounts hQ (fun _ _ _ => hQ.setPropertyStr _ _ _ _) hvalue

/-! ### The builder -/

/-- What a setter was passed. -/
def Setter.passed : Setter J → Multiset ℕ
  | .setObject _ object => object.holds
  | .setValue _ value => value.holds
  | _ => 0

/-- It is of `context`. -/
def Setter.OfContext (context : JSContext) : Setter J → Prop
  | .setObject _ object => object.OfContext context
  | .setValue _ value => value.OfContext context
  | _ => True

theorem drop_frees (hQ : Q.Respects P) {s : Setter J} (hs : s.OfContext context) :
    (regime P context).Frees s.passed (s.drop Q) := by
  cases s with
  | setObject name object => exact destroy_frees hQ hs
  | setValue name value => exact destroy_frees hQ hs
  | setString | setBool | setInt32 | setNull => exact Regime.frees_id

theorem make_accounts (hQ : Q.Respects P) {s : Setter J} (hs : s.OfContext context) :
    (regime P context).Accounts s.passed (s.make Q context) (Value.OfContext context)
      Value.holds := by
  have hpassed : ∀ {v : Value J} {c : Prop} [Decidable c] (e : Error), v.OfContext context →
      (regime P context).Accounts v.holds (if c then atExit (v.destroy Q) (throw e) else pure v :
        EStateM Error (Runtime N J) (Value J)) (Value.OfContext context) Value.holds := by
    intro v c _ e hv
    refine Regime.accounts_ite (fun _ => ?_) fun _ => Regime.accounts_pure hv _
    have h := (Regime.accounts_throw (R := regime P context) e
      (fun v : Value J => v.OfContext context) Value.holds).atExit (destroy_frees hQ hv)
    rwa [zero_add] at h
  cases s with
  | setString name value => exact create_accounts hQ (call_accounts (hQ.newStringLen _ _))
  | setBool name value => exact create_accounts hQ (pure_accounts _)
  | setInt32 name value => exact create_accounts hQ (pure_accounts _)
  | setNull name => exact create_accounts hQ (pure_accounts _)
  | setObject name object => exact hpassed _ hs
  | setValue name value => exact hpassed _ hs

namespace ObjectBuilder

theorem setProperty_settles (hQ : Q.Respects P) (b : ObjectBuilder J) (name : Bytes)
    {value : Value J} (hvalue : value.OfContext context) (r : Runtime N J) :
    (regime P context).Settles value.holds 0 r (b.setProperty Q name value r).2 ∧
      (b.setProperty Q name value r).1.object = b.object ∧
      (b.setProperty Q name value r).1.context = b.context := by
  have h := setProperty_accounts (v := b.object) hQ name hvalue r
  unfold setProperty
  cases hr : b.object.setProperty Q name value r with
  | ok u r' => exact ⟨(h.ok hr).2, rfl, rfl⟩
  | error e r' => exact ⟨h.error hr, rfl, rfl⟩

/-- A setter settles what it was passed, and the object stays with the builder. -/
theorem apply_settles (hQ : Q.Respects P) {b : ObjectBuilder J} (hb : b.context = context)
    {s : Setter J} (hs : s.OfContext context) (r : Runtime N J) :
    (regime P context).Settles s.passed 0 r (b.apply Q s r).2 ∧
      (b.apply Q s r).1.object = b.object ∧ (b.apply Q s r).1.context = b.context := by
  unfold apply
  by_cases he : b.error.isSome = true
  · rw [if_pos he]
    exact ⟨drop_frees hQ hs r, rfl, rfl⟩
  · rw [if_neg he, hb]
    have h := make_accounts hQ hs r
    cases hm : s.make Q context r with
    | error e r' => exact ⟨h.error hm, rfl, rfl⟩
    | ok value r' =>
      obtain ⟨hvalue, hst⟩ := h.ok hm
      obtain ⟨hset, hobject, hcontext⟩ := b.setProperty_settles hQ s.name hvalue r'
      exact ⟨hst.trans hset, hobject, hcontext.trans hb⟩

/-- **A chain of setters** settles all that its setters were passed. -/
theorem applyAll_settles (hQ : Q.Respects P) {ss : List (Setter J)} {b : ObjectBuilder J}
    (hb : b.context = context) (hss : ∀ s ∈ ss, s.OfContext context) (r : Runtime N J) :
    (regime P context).Settles (ss.map Setter.passed).sum 0 r (applyAll Q ss b r).2 ∧
      (applyAll Q ss b r).1.object = b.object := by
  induction ss generalizing b r with
  | nil => exact ⟨.refl 0 r, rfl⟩
  | cons s ss ih =>
    obtain ⟨hs, hrest⟩ := List.forall_mem_cons.mp hss
    obtain ⟨hfirst, hobject, hcontext⟩ := apply_settles hQ hb hs r
    obtain ⟨hall, hobjects⟩ := ih (hcontext.trans hb) hrest (b.apply Q s r).2
    refine ⟨?_, hobjects.trans hobject⟩
    rw [List.map_cons, List.sum_cons]
    have hframe := hfirst.frame (ss.map Setter.passed).sum
    rw [zero_add] at hframe
    exact hframe.trans hall

end ObjectBuilder

/-! ### Evaluation -/

theorem eval_accounts (hI : I.Respects P) (expr fileName : Bytes) :
    (regime P context).Accounts 0 (Evaluator.eval I context expr fileName)
      (Value.OfContext context) Value.holds := by
  have hkeeps : Keeps P (EStateM.adaptExcept (fun message => message ++ ascii ", from " ++ fileName)
      (I.evalGlobal context expr fileName)) := by
    intro n hn
    have h := hI.evalGlobal context expr fileName n hn
    unfold Ends EStateM.adaptExcept
    cases hr : I.evalGlobal context expr fileName n with
    | ok j n' => exact h.ok hr
    | error e n' => exact h.error hr
  unfold Evaluator.eval
  by_cases hc : context = nullptr
  · rw [if_pos hc]
    exact fun r => ends_bind (ends_throw (.refl 0 r))
  · rw [if_neg hc]
    exact (call_accounts hkeeps).bind fun j _ => adopt_accounts hI.toRespects hc j

/-- A conversion owns nothing. -/
theorem convert_accounts {α : Type} {read : JSContext → J → EStateM Bytes N α}
    (hread : ∀ c j, Keeps P (read c j)) (v : Value J) : (regime P context).Accounts 0
      (v.convert I read) (fun _ => True) fun _ => 0 := by
  unfold Value.convert
  by_cases hv : v.isValid = true
  · rw [if_neg (by simp [hv])]
    exact call_accounts (hread _ _)
  · rw [if_pos (by simpa using hv)]
    exact fun r => ends_bind (ends_throw (.refl 0 r))

/-- `ArrayLength` frees the value of the property on every path. -/
theorem arrayLength_accounts (hI : I.Respects P) {v : Value J} (hv : v.context = context) :
    (regime P context).Accounts 0 (v.arrayLength I) (fun _ => True) fun _ => 0 := by
  unfold Value.arrayLength
  by_cases hvalid : v.isValid = true
  · rw [if_neg (by simp [hvalid])]
    by_cases harray : v.isArray I.toQuickJs = true
    · rw [if_neg (by simp [harray])]
      have hc : context ≠ nullptr := hv ▸ v.context_of_isValid hvalid
      refine (call_accounts (hI.getPropertyStr _ _ _)).bind fun j _ => ?_
      rw [hv]
      refine (adopt_accounts hI.toRespects hc j).bind fun adopted hadopted => ?_
      have hread : (regime P context).Accounts 0 (do
          if !adopted.isNumber I then
            throw (qjsError .jsInternalError (ascii "array length is not a number"))
          let lengthResult ← adopted.toInt32 I
          pure lengthResult.toUInt32 : EStateM Error (Runtime N J) UInt32) (fun _ => True)
          fun _ => 0 := by
        by_cases hn : adopted.isNumber I = true
        · rw [if_neg (by simp [hn])]
          exact (convert_accounts hI.toInt32 adopted).bind fun _ _ =>
            Regime.accounts_pure trivial fun _ => 0
        · rw [if_pos (by simpa using hn)]
          exact fun r => ends_bind (ends_throw (.refl 0 r))
      have h := hread.atExit (destroy_frees hI.toRespects hadopted)
      rwa [zero_add] at h
    · rw [if_pos (by simpa using harray)]
      exact fun r => ends_bind (ends_throw (.refl 0 r))
  · rw [if_pos (by simpa using hvalid)]
    exact fun r => ends_bind (ends_throw (.refl 0 r))

end Accounts

end ProxyPP.Qjs
