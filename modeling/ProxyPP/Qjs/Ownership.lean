import ProxyPP.Lib.Custody
import ProxyPP.Qjs.PlainObjects
import ProxyPP.Qjs.Value

/-!
# ProxyPP.Qjs.Ownership — who holds which handle

The variables of type `Value` that are alive, and the state of QuickJS.  Every operation on them is
a few steps of `Custody` (`step_custody`): a variable that is made or read into gets a new handle, a
move takes a handle along, and a handle leaves through `SetProperty`, `SetElement` or a destructor.
So each handle has one holder or departed once, in every state that any operations lead to.

Contexts: `Realms` is what the proxy relies on, that objects belong to one context each and that
calls in a context return values of it.  The handle of a valid value then belongs to its context
pointer (`Sound`), and what is set as a property belongs to the context of the object.
-/

namespace ProxyPP.Qjs

open ProxyPP ProxyPP.Lib
open ProxyPP.Rules (Error ErrorCode QjsErrc)

variable {N J : Type} (Q : QuickJs N J)

/-! ## Operations -/

/-- What a new value is made from. -/
inductive Make
  | globalObject
  | undefined
  | null
  | bool (value : Bool)
  | int32 (value : Int32)
  | string (value : Bytes)
  | object
  | array
  deriving DecidableEq, Repr

def Make.run (context : JSContext) : Make → EStateM Error (Runtime N J) (Value J)
  | globalObject => Value.globalObject Q context
  | undefined => Value.undefined Q context
  | null => Value.null Q context
  | bool value => Value.bool Q context value
  | int32 value => Value.int32 Q context value
  | string value => Value.string Q context value
  | object => Value.object Q context
  | array => Value.array Q context

/-- An operation on variables. -/
inductive Op
  | make (dst : ℕ) (what : Make) (context : JSContext)
  | moveConstruct (dst src : ℕ)
  | moveAssign (dst src : ℕ)
  | setProperty (target : ℕ) (name : Bytes) (value : ℕ)
  | setElement (target : ℕ) (index : UInt32) (value : ℕ)
  | getProperty (dst target : ℕ) (name : Bytes)
  | getElement (dst target : ℕ) (index : UInt32)
  | destroy (v : ℕ)
  deriving DecidableEq, Repr

/-- The variables that are alive, and QuickJS. -/
structure Store (N J : Type) where
  vars : ℕ → Option (Value J)
  runtime : Runtime N J

namespace Store

/-- The value of a variable. -/
def value (s : Store N J) (i : ℕ) : Value J := (s.vars i).getD ⟨none⟩

def set (s : Store N J) (i : ℕ) (v : Option (Value J)) : Store N J :=
  { s with vars := Function.update s.vars i v }

/-- `std::move`: the value is taken out of the variable. -/
def movedFrom (s : Store N J) (i : ℕ) : Store N J := s.set i (some ⟨none⟩)

end Store

/-- A variable is used while it is alive, and made where none is. -/
def Op.Legal (vars : ℕ → Option (Value J)) : Op → Prop
  | make dst _ _ => vars dst = none
  | moveConstruct dst src => vars dst = none ∧ vars src ≠ none
  | moveAssign dst src => vars dst ≠ none ∧ vars src ≠ none
  | setProperty target _ value => vars target ≠ none ∧ vars value ≠ none
  | setElement target _ value => vars target ≠ none ∧ vars value ≠ none
  | getProperty dst target _ => vars dst = none ∧ vars target ≠ none
  | getElement dst target _ => vars dst = none ∧ vars target ≠ none
  | destroy v => vars v ≠ none

/-- `auto dst = m` -/
def construct (dst : ℕ) (m : EStateM Error (Runtime N J) (Value J)) :
    EStateM Error (Store N J) PUnit := fun s =>
  match m s.runtime with
  | .ok v r => .ok ⟨⟩ ({ s with runtime := r }.set dst (some v))
  | .error e r => .error e { s with runtime := r }

/-- A call that takes the value of a variable. -/
def pass (value : ℕ) (m : Store N J → Value J → EStateM Error (Runtime N J) PUnit) :
    EStateM Error (Store N J) PUnit := fun s =>
  zoom Store.runtime (fun r s => { s with runtime := r }) (m (s.movedFrom value) (s.value value))
    (s.movedFrom value)

def perform : Op → EStateM Error (Store N J) PUnit
  | .make dst what context => construct dst (what.run Q context)
  | .getProperty dst target name => fun s =>
    construct dst ((s.value target).getProperty Q name) s
  | .getElement dst target index => fun s =>
    construct dst ((s.value target).getElement Q index) s
  | .moveConstruct dst src => modify fun s => (s.movedFrom src).set dst (some (s.value src))
  | .moveAssign dst src => modify fun s =>
    let moved := s.movedFrom src
    { moved.set dst (some (s.value src)) with
      runtime := (moved.value dst).destroy Q s.runtime }
  | .setProperty target name value =>
    pass value fun s v => (s.value target).setProperty Q name v
  | .setElement target index value =>
    pass value fun s v => (s.value target).setElement Q index v
  | .destroy v => modify fun s =>
    { s.set v none with runtime := (s.value v).destroy Q s.runtime }

/-- The state an operation leaves, whether it succeeded or not. -/
def after (op : Op) (s : Store N J) : Store N J :=
  match perform Q op s with
  | .ok _ s' => s'
  | .error _ s' => s'

/-- One operation. -/
def Step (s s' : Store N J) : Prop := ∃ op : Op, op.Legal s.vars ∧ after Q op s = s'

/-- No variable is alive, and no handle was made. -/
def start (native : N) : Store N J := ⟨fun _ => none, ⟨native, 0, []⟩⟩

def Reachable (s : Store N J) : Prop :=
  ∃ native, Relation.ReflTransGen (Step Q) (start native) s

/-! ## Custody -/

namespace Store

/-- The handle a variable holds. -/
def held (s : Store N J) (i : ℕ) : Option (Handle J) := (s.vars i).bind Value.owned

/-- The books as custody of handle numbers: variables hold them, departures spend them. -/
def custody (s : Store N J) : Custody ℕ where
  issued := s.runtime.created
  held i := (s.held i).map Handle.id
  spent := s.runtime.departures.map fun d => d.handle.id

theorem held_eq (s : Store N J) (i : ℕ) : s.held i = (s.value i).owned := by
  unfold held value
  cases s.vars i with
  | none => rfl
  | some v => rfl

theorem held_set (s : Store N J) (i k : ℕ) (v : Option (Value J)) :
    (s.set i v).held k = if k = i then v.bind Value.owned else s.held k := by
  show (Function.update s.vars i v k).bind _ = if k = i then _ else (s.vars k).bind _
  rw [Function.update_apply]
  split_ifs <;> rfl

theorem held_movedFrom (s : Store N J) (i k : ℕ) :
    (s.movedFrom i).held k = if k = i then none else s.held k := held_set s i k _

/-- A variable without a value has custody of nothing. -/
theorem custody_of_dead {s : Store N J} {i : ℕ} (h : s.vars i = none) :
    s.custody.held i = none := by
  show (s.held i).map Handle.id = none
  rw [held, h]
  rfl

end Store

/-- Custody is what is issued, held and spent. -/
theorem custody_ext {s : Store N J} {c : Custody ℕ} (hissued : s.runtime.created = c.issued)
    (hheld : ∀ k, (s.held k).map Handle.id = c.held k)
    (hspent : s.runtime.departures.map (fun d => d.handle.id) = c.spent) : s.custody = c := by
  cases c
  simp only [Store.custody, Custody.mk.injEq]
  exact ⟨hissued, funext hheld, hspent⟩

/-- What `v` owns, and nothing else, departs. -/
structure Spends (v : Value J) (r r' : Runtime N J) : Prop where
  created : r'.created = r.created
  departures : r'.departures.map (fun d => d.handle.id)
    = r.departures.map (fun d => d.handle.id) ++ (v.owned.map Handle.id).toList

/-- A destructor spends what the value owns. -/
theorem destroy_spends (v : Value J) (r : Runtime N J) : Spends v r (v.destroy Q r) := by
  rw [Value.destroy_eq]
  cases hv : v.owned with
  | none => exact ⟨rfl, by rw [hv]; exact (List.append_nil _).symm⟩
  | some h => exact ⟨rfl, by rw [hv]; exact List.map_append⟩

theorem HandsOver.spends {S : Value.Setting N J} {v value : Value J} {r r' : Runtime N J}
    (h : HandsOver S v value r r') : Spends value r r' := by
  obtain ⟨t, g, -, hg, hdepartures⟩ := h.departures
  refine ⟨h.created, ?_⟩
  rw [hdepartures, hg, List.map_append]
  rfl

/-- A new value goes into a free variable, or its handle is spent at once. -/
theorem construct_custody {dst : ℕ} {context : JSContext} {P : J → Prop}
    {m : EStateM Error (Runtime N J) (Value J)} {s : Store N J} (hdst : s.vars dst = none)
    (h : Issues P context m s.runtime) : Ends (construct dst m) s
      (fun _ s' => Custody.Steps s.custody s'.custody)
      (fun _ s' => Custody.Steps s.custody s'.custody) := by
  have hfree := Store.custody_of_dead hdst
  unfold Ends construct
  cases hr : m s.runtime with
  | ok v r =>
    obtain ⟨j, -, hc, rfl, hcreated, hdepartures⟩ := Ends.ok h hr
    have heq : (({ s with runtime := r } : Store N J).set dst
        (some (.owner ⟨s.runtime.created, context, j⟩))).custody = s.custody.issue dst := by
      refine custody_ext hcreated (fun k => ?_) (congrArg _ hdepartures)
      rw [Store.held_set, Custody.held_issue]
      split_ifs with hk
      · rw [Option.bind_some, Value.owned_owner hc]; rfl
      · rfl
    show Custody.Steps _ (Store.custody _)
    rw [heq]
    exact .single (.issue _ hfree)
  | error e r =>
    show Custody.Steps _ (Store.custody _)
    rcases Ends.error h hr with ⟨hcreated, hdepartures⟩ | ⟨j, hcreated, hdepartures⟩
    · have heq : ({ s with runtime := r } : Store N J).custody = s.custody :=
        custody_ext hcreated (fun _ => rfl) (congrArg _ hdepartures)
      rw [heq]
    · have heq : ({ s with runtime := r } : Store N J).custody = s.custody.waste := by
        refine custody_ext hcreated (fun _ => rfl) ?_
        rw [hdepartures, List.map_append]
        rfl
      rw [heq]
      exact .single (.waste _)

/-- A passed value is taken from its variable and its handle is spent, however the call ends. -/
theorem pass_custody {value : ℕ} {m : Store N J → Value J → EStateM Error (Runtime N J) PUnit}
    {s : Store N J} (h : Ends (m (s.movedFrom value) (s.value value)) s.runtime
      (fun _ r' => Spends (s.value value) s.runtime r')
      (fun _ r' => Spends (s.value value) s.runtime r')) : Ends (pass value m) s
        (fun _ s' => s'.custody = s.custody.spend value)
        (fun _ s' => s'.custody = s.custody.spend value) := by
  have heq : ∀ r', Spends (s.value value) s.runtime r' →
      ({ s.movedFrom value with runtime := r' } : Store N J).custody
        = s.custody.spend value := by
    rintro r' ⟨hcreated, hspent⟩
    refine custody_ext hcreated (fun k => ?_) ?_
    · rw [Custody.held_spend]
      show ((s.movedFrom value).held k).map _ = _
      rw [Store.held_movedFrom]
      split_ifs <;> rfl
    · rw [hspent, ← Store.held_eq]
      rfl
  unfold pass
  exact ends_zoom (h.mono (fun _ r' hr => heq r' hr) fun _ r' hr => heq r' hr)

/-! ## Every operation is a few steps of custody -/

/-- What the calls that make a value return satisfies `P`. -/
structure QuickJs.Makes (Q : QuickJs N J) (context : JSContext) (P : J → Prop) : Prop where
  undefined : P Q.undefined
  null : P Q.null
  bool : ∀ b, P (Q.newBool context b)
  int32 : ∀ i, P (Q.newInt32 context i)
  string : ∀ text n j n', Q.newStringLen context text n = .ok j n' → P j
  object : ∀ n j n', Q.newObject context n = .ok j n' → P j
  array : ∀ n j n', Q.newArray context n = .ok j n' → P j
  globalObject : ∀ n j n', Q.getGlobalObject context n = .ok j n' → P j

theorem QuickJs.makes_true (context : JSContext) : Q.Makes context fun _ => True := by
  constructor <;> intros <;> trivial

variable {Q}

theorem make_issues {context : JSContext} {P : J → Prop} (h : Q.Makes context P) (what : Make)
    (r : Runtime N J) : Issues P context (what.run Q context) r := by
  have hpure : ∀ j, P j → Issues P context (Value.create Q context (pure j)) r :=
    fun j hj => create_issues fun _ => ends_pure ⟨hj, SameBooks.refl r⟩
  have hcall : ∀ m : EStateM Bytes N J, (∀ j n, m r.native = .ok j n → P j) →
      Issues P context (Value.create Q context (call .jsInternalError m)) r :=
    fun m hm => create_issues fun _ => ends_call_sameBooks hm
  cases what with
  | globalObject => exact hcall _ fun j n hr => h.globalObject _ j n hr
  | undefined => exact hpure _ h.undefined
  | null => exact hpure _ h.null
  | bool b => exact hpure _ (h.bool b)
  | int32 i => exact hpure _ (h.int32 i)
  | string text => exact hcall _ fun j n hr => h.string text _ j n hr
  | object => exact hcall _ fun j n hr => h.object _ j n hr
  | array => exact hcall _ fun j n hr => h.array _ j n hr

theorem setProperty_failed (name : Bytes) :
    ¬ Rejected ⟨.qjs (Value.propertySetting Q name).failed, []⟩ := by
  simp [Rejected, Value.propertySetting]

theorem setElement_failed (index : UInt32) :
    ¬ Rejected ⟨.qjs (Value.elementSetting Q index).failed, []⟩ := by
  simp [Rejected, Value.elementSetting]

/-- A setter spends the passed value, however it ends. -/
theorem store_spends {S : Value.Setting N J} (hS : ¬ Rejected ⟨.qjs S.failed, []⟩)
    (v value : Value J) (r : Runtime N J) : Ends (Value.store Q S v value) r
      (fun _ r' => Spends value r r') (fun _ r' => Spends value r r') := by
  refine (store_ends hS v value r).mono (fun _ r' h => h.spends) ?_
  rintro e r' (⟨-, rfl⟩ | ⟨-, h⟩)
  · exact destroy_spends Q value r
  · exact h.spends

theorem moveConstruct_custody {s : Store N J} {dst src : ℕ} (hdst : s.vars dst = none)
    (hsrc : s.vars src ≠ none) :
    ((s.movedFrom src).set dst (some (s.value src))).custody = s.custody.move src dst := by
  have hne : src ≠ dst := by rintro rfl; exact hsrc hdst
  refine custody_ext rfl (fun k => ?_) rfl
  rw [Store.held_set, Store.held_movedFrom, Custody.held_move]
  by_cases hk : k = dst
  · subst hk
    rw [if_pos rfl, if_neg hne.symm, if_pos rfl, Option.bind_some, ← Store.held_eq]
    rfl
  · rw [if_neg hk, if_neg hk]
    split_ifs <;> rfl

/-- The old value of `dst` is spent, then that of `src` moves there; nothing happens to a variable
that is assigned to itself. -/
theorem moveAssign_custody {s s' : Store N J} {dst src : ℕ}
    (hs' : s' = { (s.movedFrom src).set dst (some (s.value src)) with
      runtime := ((s.movedFrom src).value dst).destroy Q s.runtime }) :
    Custody.Steps s.custody s'.custody := by
  obtain ⟨hcreated, hspent⟩ := destroy_spends Q ((s.movedFrom src).value dst) s.runtime
  have hheld : ∀ k, s'.held k = if k = dst then s.held src else
      if k = src then none else s.held k := by
    intro k
    rw [hs']
    show ((s.movedFrom src).set dst _).held k = _
    rw [Store.held_set, Store.held_movedFrom, Option.bind_some, ← Store.held_eq]
  rw [← Store.held_eq, Store.held_movedFrom] at hspent
  by_cases hne : dst = src
  · subst hne
    rw [if_pos rfl] at hspent
    have heq : s'.custody = s.custody := by
      refine custody_ext (by rw [hs']; exact hcreated) (fun k => ?_) ?_
      · rw [hheld]
        by_cases hk : k = dst
        · rw [if_pos hk, hk]; rfl
        · rw [if_neg hk, if_neg hk]; rfl
      · rw [hs', hspent]
        exact List.append_nil _
    rw [heq]
  · rw [if_neg hne] at hspent
    have heq : s'.custody = (s.custody.spend dst).move src dst := by
      refine custody_ext (by rw [hs']; exact hcreated) (fun k => ?_) (by rw [hs', hspent]; rfl)
      rw [hheld, Custody.held_move, Custody.held_spend, Custody.held_spend]
      by_cases hk : k = dst
      · rw [if_pos hk, if_neg (by rw [hk]; exact hne), if_pos hk, if_neg (Ne.symm hne)]
        rfl
      · rw [if_neg hk, if_neg hk, if_neg hk]
        split_ifs <;> rfl
    rw [heq]
    refine .tail (.single (.spend _ dst)) (.move _ (Ne.symm hne) ?_)
    rw [Custody.held_spend, if_pos rfl]

theorem destroy_custody (s : Store N J) (i : ℕ) :
    ({ s.set i none with runtime := (s.value i).destroy Q s.runtime } : Store N J).custody
      = s.custody.spend i := by
  obtain ⟨hcreated, hspent⟩ := destroy_spends Q (s.value i) s.runtime
  refine custody_ext hcreated (fun k => ?_) ?_
  · show ((s.set i none).held k).map _ = _
    rw [Store.held_set, Custody.held_spend]
    split_ifs <;> rfl
  · rw [hspent, ← Store.held_eq]
    rfl

/-- **One operation**, whatever fails in it, is a run of custody. -/
theorem perform_custody {op : Op} {s : Store N J} (h : op.Legal s.vars) :
    Ends (perform Q op) s (fun _ s' => Custody.Steps s.custody s'.custody)
      (fun _ s' => Custody.Steps s.custody s'.custody) := by
  have hpass : ∀ value (m : Store N J → Value J → EStateM Error (Runtime N J) PUnit),
      Ends (m (s.movedFrom value) (s.value value)) s.runtime
        (fun _ r' => Spends (s.value value) s.runtime r')
        (fun _ r' => Spends (s.value value) s.runtime r') →
      Ends (pass value m) s (fun _ s' => Custody.Steps s.custody s'.custody)
        (fun _ s' => Custody.Steps s.custody s'.custody) := by
    intro value m hm
    refine (pass_custody hm).mono (fun _ s' hs' => ?_) (fun _ s' hs' => ?_)
    · rw [hs']; exact .single (.spend _ value)
    · rw [hs']; exact .single (.spend _ value)
  cases op with
  | make dst what context => exact construct_custody h (make_issues (Q.makes_true context) what _)
  | getProperty dst target name =>
    exact construct_custody h.1 (getProperty_issues (P := fun _ => True) fun _ _ _ _ => trivial)
  | getElement dst target index =>
    exact construct_custody h.1 (getElement_issues (P := fun _ => True) fun _ _ _ _ => trivial)
  | moveConstruct dst src =>
    refine ends_modify ?_
    have hne : src ≠ dst := by rintro rfl; exact h.2 h.1
    rw [moveConstruct_custody h.1 h.2]
    exact .single (.move _ hne (Store.custody_of_dead h.1))
  | moveAssign dst src => exact ends_modify (moveAssign_custody rfl)
  | setProperty target name value =>
    rw [perform]
    exact hpass value _ (store_spends (setProperty_failed name) _ _ _)
  | setElement target index value =>
    rw [perform]
    exact hpass value _ (store_spends (setElement_failed index) _ _ _)
  | destroy i =>
    refine ends_modify ?_
    rw [destroy_custody]
    exact .single (.spend _ i)

/-- The state left satisfies what the operation ends in. -/
theorem after_of_ends {op : Op} {s : Store N J} {I : Store N J → Prop}
    (h : Ends (perform Q op) s (fun _ s' => I s') (fun _ s' => I s')) : I (after Q op s) := by
  unfold after
  cases hr : perform Q op s with
  | ok a s' => exact h.ok hr
  | error e s' => exact h.error hr

/-- What every legal operation keeps holds in every reachable state. -/
theorem Reachable.invariant {s : Store N J} (hs : Reachable Q s) {I : Store N J → Prop}
    (hstart : ∀ native, I (start native)) (hstep : ∀ (op : Op) s, op.Legal s.vars → I s →
      Ends (perform Q op) s (fun _ s' => I s') (fun _ s' => I s')) : I s := by
  obtain ⟨native, hrun⟩ := hs
  induction hrun with
  | refl => exact hstart native
  | tail _ hlast ih =>
    obtain ⟨op, hlegal, rfl⟩ := hlast
    exact after_of_ends (hstep op _ hlegal ih)

theorem Reachable.sole {s : Store N J} (hs : Reachable Q s) : s.custody.Sole := by
  refine hs.invariant (I := fun s => s.custody.Sole) (fun native => ?_) fun op s hlegal hI => ?_
  · exact Custody.sole_empty
  · exact (perform_custody hlegal).mono (fun _ _ h => hI.steps h) fun _ _ h => hI.steps h

/-! ## Contexts -/

/-- Objects belong to one context each, other values to all; what a call in a context returns
belongs to it, and freeing a reference sets no property. -/
structure QuickJs.Realms (Q : QuickJs N J) (belongs : J → JSContext → Prop)
    (own : N → J → Key → Option J) : Prop where
  makes : ∀ c, Q.Makes c fun j => belongs j c
  getPropertyStr : ∀ c t name n j n', belongs t c → Q.getPropertyStr c t name n = .ok j n' →
    belongs j c
  getPropertyUint32 : ∀ c t index n j n', belongs t c →
    Q.getPropertyUint32 c t index n = .ok j n' → belongs j c
  home : ∀ t c d, Q.isObject t = true → belongs t c → belongs t d → c = d
  array : ∀ t, Q.isArray t = true → Q.isObject t = true
  free : ∀ c j n, own (Q.freeValue c j n) = own n

variable {belongs : J → JSContext → Prop} {own : N → J → Key → Option J}

/-- The handle a value owns was made in its context, and belongs there. -/
def Value.Sound (belongs : J → JSContext → Prop) (v : Value J) : Prop :=
  ∀ h, v.owned = some h → v.context = h.context ∧ belongs h.value h.context

/-- The object of `t` is of the context that `h` was made in and belongs to, and of no other. -/
structure SameRealm (belongs : J → JSContext → Prop) (t h : Handle J) : Prop where
  context : h.context = t.context
  value : belongs h.value h.context
  only : ∀ c, belongs t.value c ↔ c = h.context

structure Store.Sound (belongs : J → JSContext → Prop) (s : Store N J) : Prop where
  value : ∀ i, (s.value i).Sound belongs
  handedOver : ∀ t k h, .handedOver t k h ∈ s.runtime.departures → SameRealm belongs t h

theorem Value.sound_null : (⟨none⟩ : Value J).Sound belongs := by
  intro h hh
  cases hh

theorem Value.sound_owner {h : Handle J} (hc : h.context ≠ nullptr)
    (hb : belongs h.value h.context) : (Value.owner h).Sound belongs := by
  intro g hg
  rw [Value.owned_owner hc] at hg
  obtain rfl := Option.some.inj hg
  exact ⟨rfl, hb⟩

theorem Store.value_set (s : Store N J) (i k : ℕ) (v : Option (Value J)) :
    (s.set i v).value k = if k = i then v.getD ⟨none⟩ else s.value k := by
  show (Function.update s.vars i v k).getD _ = if k = i then _ else (s.vars k).getD _
  rw [Function.update_apply]
  split_ifs <;> rfl

theorem Store.value_movedFrom (s : Store N J) (i k : ℕ) :
    (s.movedFrom i).value k = if k = i then ⟨none⟩ else s.value k := s.value_set i k _

/-- A destructor hands nothing over. -/
theorem mem_departures_destroy {v : Value J} {r : Runtime N J} {t h : Handle J} {k : Key}
    (hmem : .handedOver t k h ∈ (v.destroy Q r).departures) :
    .handedOver t k h ∈ r.departures := by
  rw [Value.destroy_eq] at hmem
  cases hv : v.owned with
  | none => rw [hv] at hmem; exact hmem
  | some g =>
    rw [hv] at hmem
    rcases List.mem_append.mp hmem with hold | hnew
    · exact hold
    · cases List.mem_singleton.mp hnew

theorem construct_sound {dst : ℕ} {context : JSContext}
    {m : EStateM Error (Runtime N J) (Value J)} {s : Store N J} (hs : s.Sound belongs)
    (h : Issues (fun j => belongs j context) context m s.runtime) : Ends (construct dst m) s
      (fun _ s' => s'.Sound belongs) (fun _ s' => s'.Sound belongs) := by
  unfold Ends construct
  cases hr : m s.runtime with
  | ok v r =>
    obtain ⟨j, hj, hc, rfl, -, hdepartures⟩ := Ends.ok h hr
    refine ⟨fun i => ?_, fun t k g hmem => ?_⟩
    · rw [Store.value_set]
      split_ifs
      · exact Value.sound_owner hc hj
      · exact hs.value i
    · have hmem' : .handedOver t k g ∈ r.departures := hmem
      rw [hdepartures] at hmem'
      exact hs.handedOver t k g hmem'
  | error e r =>
    refine ⟨hs.value, fun t k g hmem => ?_⟩
    have hmem' : .handedOver t k g ∈ r.departures := hmem
    rcases Ends.error h hr with ⟨-, hdepartures⟩ | ⟨j, -, hdepartures⟩
    · rw [hdepartures] at hmem'
      exact hs.handedOver t k g hmem'
    · rw [hdepartures] at hmem'
      rcases List.mem_append.mp hmem' with hold | hnew
      · exact hs.handedOver t k g hold
      · cases List.mem_singleton.mp hnew

/-- What a setter hands over is of the context of the object. -/
theorem HandsOver.sameRealm (hQ : Q.Realms belongs own) {S : Value.Setting N J}
    (hS : ∀ v h, v.owned = some h → S.accepts v = true → Q.isObject h.value = true)
    {v value : Value J} {r r' : Runtime N J} (h : HandsOver S v value r r')
    (hv : v.Sound belongs) (hvalue : value.Sound belongs) {t g : Handle J} {k : Key}
    (hmem : .handedOver t k g ∈ r'.departures) :
    .handedOver t k g ∈ r.departures ∨ SameRealm belongs t g := by
  obtain ⟨t', g', ht', hg', hdepartures⟩ := h.departures
  rw [hdepartures] at hmem
  rcases List.mem_append.mp hmem with hold | hnew
  · exact Or.inl hold
  · cases List.mem_singleton.mp hnew
    obtain ⟨hct, hbt⟩ := hv t ht'
    obtain ⟨hcg, hbg⟩ := hvalue g hg'
    have hcontext : g.context = t.context := by rw [← hcg, ← hct, h.context]
    refine Or.inr ⟨hcontext, hbg, fun c => ⟨fun hc => ?_, ?_⟩⟩
    · rw [hcontext]
      exact hQ.home t.value c t.context (hS v t ht' h.accepts) hc hbt
    · rintro rfl
      rw [hcontext]
      exact hbt

theorem accepts_object {v : Value J} {h : Handle J} (hv : v.owned = some h) {is : J → Bool}
    (hacc : (v.isValid && is (v.nativeHandle Q).value) = true) : is h.value = true := by
  rw [Value.nativeHandle_of_owned hv] at hacc
  exact (Bool.and_eq_true_iff.mp hacc).2

theorem pass_sound (hQ : Q.Realms belongs own) {target value : ℕ} {S : Value.Setting N J}
    (hS : ¬ Rejected ⟨.qjs S.failed, []⟩)
    (hobj : ∀ v h, v.owned = some h → S.accepts v = true → Q.isObject h.value = true)
    {s : Store N J} (hs : s.Sound belongs) :
    Ends (pass value fun s v => Value.store Q S (s.value target) v) s
      (fun _ s' => s'.Sound belongs) (fun _ s' => s'.Sound belongs) := by
  have hmoved : ∀ i, ((s.movedFrom value).value i).Sound belongs := by
    intro i
    rw [Store.value_movedFrom]
    split_ifs
    · exact Value.sound_null
    · exact hs.value i
  have hover : ∀ r', HandsOver S ((s.movedFrom value).value target) (s.value value) s.runtime r' →
      ({ s.movedFrom value with runtime := r' } : Store N J).Sound belongs := by
    intro r' h
    refine ⟨hmoved, fun t k g hmem => ?_⟩
    rcases h.sameRealm hQ hobj (hmoved target) (hs.value value) hmem with hold | hnew
    · exact hs.handedOver t k g hold
    · exact hnew
  unfold pass
  refine ends_zoom ((store_ends hS _ _ _).mono (fun _ r' h => hover r' h) ?_)
  rintro e r' (⟨-, rfl⟩ | ⟨-, h⟩)
  · exact ⟨hmoved, fun t k g hmem => hs.handedOver t k g (mem_departures_destroy hmem)⟩
  · exact hover r' h

/-- **One operation** keeps values and properties in their contexts. -/
theorem perform_sound (hQ : Q.Realms belongs own) (op : Op) {s : Store N J}
    (hs : s.Sound belongs) : Ends (perform Q op) s (fun _ s' => s'.Sound belongs)
      (fun _ s' => s'.Sound belongs) := by
  cases op with
  | make dst what context => exact construct_sound hs (make_issues (hQ.makes context) what _)
  | getProperty dst target name =>
    refine construct_sound hs (getProperty_issues fun j n hv hr => ?_)
    obtain ⟨h, hh⟩ := Value.exists_owned hv
    obtain ⟨hc, hb⟩ := hs.value target h hh
    rw [Value.nativeHandle_of_owned hh] at hr
    exact hQ.getPropertyStr _ _ _ _ _ _ (by rw [hc]; exact hb) hr
  | getElement dst target index =>
    refine construct_sound hs (getElement_issues fun j n hv hr => ?_)
    obtain ⟨h, hh⟩ := Value.exists_owned hv
    obtain ⟨hc, hb⟩ := hs.value target h hh
    rw [Value.nativeHandle_of_owned hh] at hr
    exact hQ.getPropertyUint32 _ _ _ _ _ _ (by rw [hc]; exact hb) hr
  | moveConstruct dst src =>
    refine ends_modify ⟨fun i => ?_, hs.handedOver⟩
    rw [Store.value_set, Store.value_movedFrom]
    split_ifs
    · exact hs.value src
    · exact Value.sound_null
    · exact hs.value i
  | moveAssign dst src =>
    refine ends_modify ⟨fun i => ?_, fun t k g hmem =>
      hs.handedOver t k g (mem_departures_destroy hmem)⟩
    show (((s.movedFrom src).set dst (some (s.value src))).value i).Sound belongs
    rw [Store.value_set, Store.value_movedFrom]
    split_ifs
    · exact hs.value src
    · exact Value.sound_null
    · exact hs.value i
  | setProperty target name value =>
    refine pass_sound hQ (setProperty_failed name) (fun v h hv hacc => ?_) hs
    exact accepts_object hv hacc
  | setElement target index value =>
    refine pass_sound hQ (setElement_failed index) (fun v h hv hacc => ?_) hs
    exact hQ.array _ (accepts_object hv hacc)
  | destroy i =>
    refine ends_modify ⟨fun k => ?_, fun t k g hmem =>
      hs.handedOver t k g (mem_departures_destroy hmem)⟩
    show ((s.set i none).value k).Sound belongs
    rw [Store.value_set]
    split_ifs
    · exact Value.sound_null
    · exact hs.value k

theorem Reachable.sound (hQ : Q.Realms belongs own) {s : Store N J} (hs : Reachable Q s) :
    s.Sound belongs := by
  refine hs.invariant (I := Store.Sound belongs) (fun native => ?_) fun op s _ hI =>
    perform_sound hQ op hI
  refine ⟨fun i => Value.sound_null, fun t k h hmem => ?_⟩
  cases hmem

/-! ## Single holders -/

/-- The variable whose value an operation takes. -/
def Op.passed : Op → Option ℕ
  | setProperty _ _ value => some value
  | setElement _ _ value => some value
  | _ => none

namespace Store

/-- Variable `i` is a valid value that holds the handle with number `id`. -/
def Holds (s : Store N J) (i id : ℕ) : Prop :=
  ∃ v h, s.vars i = some v ∧ v.isValid = true ∧ v.owned = some h ∧ h.id = id

/-- How the handle with number `id` departed. -/
def departuresOf (s : Store N J) (id : ℕ) : List (Departure J) :=
  s.runtime.departures.filter fun d => d.handle.id = id

theorem holds_iff {s : Store N J} {i id : ℕ} : s.Holds i id ↔ s.custody.held i = some id := by
  show _ ↔ ((s.vars i).bind Value.owned).map Handle.id = some id
  simp only [Option.map_eq_some_iff, Option.bind_eq_some_iff]
  constructor
  · rintro ⟨v, h, hv, -, hh, hid⟩
    exact ⟨h, ⟨v, hv, hh⟩, hid⟩
  · rintro ⟨h, ⟨v, hv, hh⟩, hid⟩
    exact ⟨v, h, hv, Value.isValid_of_owned hh, hh, hid⟩

theorem departuresOf_eq_nil {s : Store N J} {id : ℕ} (h : id ∉ s.custody.spent) :
    s.departuresOf id = [] := by
  refine List.filter_eq_nil_iff.mpr fun d hd hid => h ?_
  rw [← of_decide_eq_true hid]
  exact List.mem_map_of_mem hd

theorem departuresOf_eq_singleton {s : Store N J} {id : ℕ} (h : s.custody.spent.count id = 1) :
    ∃ d, s.departuresOf id = [d] := by
  refine List.length_eq_one_iff.mp ?_
  rw [← h]
  show _ = (s.runtime.departures.map fun d => d.handle.id).count id
  rw [List.count, List.countP_map, List.countP_eq_length_filter]
  rfl

end Store

/-- A refused call does nothing but free the passed handle, and a passed value is invalid after
every call. -/
theorem perform_passed {op : Op} {w : ℕ} (hop : op.passed = some w) (s : Store N J) :
    Ends (perform Q op) s (fun _ s' => (s'.value w).isValid = false)
      (fun e s' => (s'.value w).isValid = false ∧
        (Rejected e → s'.runtime = (s.value w).destroy Q s.runtime)) := by
  have hpass : ∀ target {S : Value.Setting N J}, ¬ Rejected ⟨.qjs S.failed, []⟩ →
      Ends (pass w fun s v => Value.store Q S (s.value target) v) s
        (fun _ s' => (s'.value w).isValid = false) (fun e s' => (s'.value w).isValid = false ∧
          (Rejected e → s'.runtime = (s.value w).destroy Q s.runtime)) := by
    intro target S hS
    have hmoved : ∀ r', (({ s.movedFrom w with runtime := r' } : Store N J).value w).isValid
        = false := by
      intro r'
      show ((s.movedFrom w).value w).isValid = false
      rw [Store.value_movedFrom, if_pos rfl]
      rfl
    refine ends_zoom ((store_ends hS _ _ _).mono (fun _ r' _ => hmoved r') ?_)
    rintro e r' (⟨-, hr⟩ | ⟨he, -⟩)
    · exact ⟨hmoved r', fun _ => hr⟩
    · exact ⟨hmoved r', fun he' => absurd he' he⟩
  cases op with
  | setProperty target name value =>
    cases hop
    exact hpass target (setProperty_failed name)
  | setElement target index value =>
    cases hop
    exact hpass target (setElement_failed index)
  | make | moveConstruct | moveAssign | getProperty | getElement | destroy => cases hop

/-- A destructor changes no property. -/
theorem own_destroy (hQ : Q.Realms belongs own) (v : Value J) (r : Runtime N J) :
    own (v.destroy Q r).native = own r.native := by
  rw [Value.destroy_eq]
  cases v.owned with
  | none => rfl
  | some h => exact hQ.free _ _ _

/-- **Single holders.**  In every state that operations lead to, each handle is with one valid value
or it departed once: handed over to QuickJS, or freed.  A value passed to `SetProperty` or
`SetElement` is invalid afterwards; a call refused with `InvalidValue` or `ContextMismatch` only
frees the passed handle, so no property changes; and what was set as a property of an object was
made in the context of the object. -/
theorem values_have_single_holders {s : Store N J} (hs : Reachable Q s) :
    (∀ id < s.runtime.created,
      ((∃! i, s.Holds i id) ∧ s.departuresOf id = []) ∨
      ((∀ i, ¬ s.Holds i id) ∧ ((∃ t k h, s.departuresOf id = [.handedOver t k h]) ∨
        ∃ h, s.departuresOf id = [.freed h]))) ∧
    (∀ (op : Op) w, op.Legal s.vars → op.passed = some w →
      ((after Q op s).value w).isValid = false ∧
      ∀ e s', perform Q op s = .error e s' → Rejected e →
        s'.runtime = (s.value w).destroy Q s.runtime) ∧
    ∀ (belongs : J → JSContext → Prop) (own : N → J → Key → Option J), Q.Realms belongs own →
      (∀ (op : Op) e s', op.Legal s.vars → op.passed ≠ none → perform Q op s = .error e s' →
        Rejected e → own s'.runtime.native = own s.runtime.native) ∧
      ∀ t k h, .handedOver t k h ∈ s.runtime.departures → SameRealm belongs t h := by
  refine ⟨fun id hid => ?_, fun op w _ hop => ⟨?_, fun e s' hr he => ?_⟩,
    fun belongs own hQ => ⟨fun op e s' _ hop hr he => ?_, (hs.sound hQ).handedOver⟩⟩
  · rcases hs.sole.whereabouts hid with ⟨hone, hspent⟩ | ⟨hnone, hcount⟩
    · exact Or.inl ⟨by simpa only [Store.holds_iff] using hone,
        Store.departuresOf_eq_nil hspent⟩
    · refine Or.inr ⟨fun i hi => hnone i (Store.holds_iff.mp hi), ?_⟩
      obtain ⟨d, hd⟩ := Store.departuresOf_eq_singleton hcount
      rw [hd]
      cases d with
      | handedOver t k h => exact Or.inl ⟨t, k, h, rfl⟩
      | freed h => exact Or.inr ⟨h, rfl⟩
  · exact after_of_ends ((perform_passed hop s).mono (fun _ _ h => h) fun _ _ h => h.1)
  · exact ((perform_passed hop s).error hr).2 he
  · obtain ⟨w, hw⟩ := Option.ne_none_iff_exists'.mp hop
    rw [((perform_passed hw s).error hr).2 he]
    exact own_destroy hQ _ _

theorem Tables.belongs_get (c : JSContext) (t : JsValue) (k : Key) (n : Tables) :
    (n.get c t k).belongs c := by
  unfold Tables.get
  cases n.own t k with
  | none => trivial
  | some v =>
    show (if v.belongs c then v else JsValue.undefined).belongs c
    split_ifs with h
    · exact h
    · trivial

theorem QuickJs.tables_realms (allocates : ℕ → Bool) :
    (QuickJs.tables allocates).Realms JsValue.belongs Tables.own where
  makes c :=
    { undefined := trivial
      null := trivial
      bool := fun _ => trivial
      int32 := fun _ => trivial
      string := by rintro text n j n' h; cases h; trivial
      object := by rintro n j n' h; cases h; rfl
      array := by rintro n j n' h; cases h; rfl
      globalObject := by rintro n j n' h; cases h; rfl }
  getPropertyStr := by rintro c t name n j n' _ h; cases h; exact Tables.belongs_get c t _ n
  getPropertyUint32 := by rintro c t index n j n' _ h; cases h; exact Tables.belongs_get c t _ n
  home := by
    rintro t c d ht hc hd
    cases t with
    | object e ref isArray => exact Eq.trans (Eq.symm hc) hd
    | undefined | null | bool | int32 | string => cases ht
  array := by
    rintro t ht
    cases t with
    | object e ref isArray => rfl
    | undefined | null | bool | int32 | string => cases ht
  free _ _ _ := rfl

/-- An object of one context, a string of another, and the string set as a property. -/
def crossContext : Store Tables JsValue :=
  let Q := QuickJs.tables fun _ => true
  after Q (.setProperty 0 (ascii "message") 1) (after Q (.make 1 (.string (ascii "x")) 2)
    (after Q (.make 0 .object 1) (start ⟨0, 2, []⟩)))

theorem values_have_single_holders_crossContext :
    (((∃! i, crossContext.Holds i 1) ∧ crossContext.departuresOf 1 = []) ∨
      ((∀ i, ¬ crossContext.Holds i 1) ∧
        ((∃ t k h, crossContext.departuresOf 1 = [.handedOver t k h]) ∨
          ∃ h, crossContext.departuresOf 1 = [.freed h]))) ∧
    crossContext.departuresOf 1 = [.freed ⟨1, 2, .string (ascii "x")⟩] ∧
    ∀ t k h, .handedOver t k h ∈ crossContext.runtime.departures →
      SameRealm JsValue.belongs t h := by
  have hreach : Reachable (QuickJs.tables fun _ => true) crossContext :=
    ⟨⟨0, 2, []⟩, .tail (.tail (.single ⟨.make 0 .object 1, rfl, rfl⟩)
      ⟨.make 1 (.string (ascii "x")) 2, rfl, rfl⟩)
      ⟨.setProperty 0 (ascii "message") 1, ⟨Option.some_ne_none _, Option.some_ne_none _⟩, rfl⟩⟩
  have h := values_have_single_holders hreach
  exact ⟨h.1 1 (by decide), by decide, (h.2.2 _ _ (QuickJs.tables_realms _)).2⟩

end ProxyPP.Qjs
