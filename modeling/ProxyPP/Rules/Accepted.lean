import ProxyPP.Rules.Container
import ProxyPP.Rules.RuleFile

/-!
# ProxyPP.Rules.Accepted — what an accepted rule file is converted to

The schema, the conversion and the action executors are three descriptions of one format.  A
converter follows a schema (`Follows`) if it converts whatever the schema accepts to what that says.
All of them do, so a document that is accepted loads, and its actions are refused only for the name
of their header (`loadRulesFromFile_accepted`).
-/

namespace ProxyPP.Rules

open ProxyPP ProxyPP.Lib ProxyPP.Http

/-! ## What a document says -/

def opName : Op → Bytes
  | .notSet => []
  | .set => ascii "set"
  | .add => ascii "add"
  | .remove => ascii "remove"
  | .replace => ascii "replace"

def phaseName : Phase → Bytes
  | .notSet => []
  | .request => ascii "request"
  | .response => ascii "response"

def targetName : Target → Bytes
  | .notSet => []
  | .header => ascii "header"

def DescribesString (j : Json) (s : Bytes) : Prop := j = .str s

def DescribesData (j : Json) : ActionData → Prop
  | .headerName name => j.member (ascii "name") = some (.str name)
  | .headerNameValue name value =>
    j.member (ascii "name") = some (.str name) ∧ j.member (ascii "value") = some (.str value)

structure DescribesAction (j : Json) (action : Action) : Prop where
  op : j.member (ascii "op") = some (.str (opName action.op))
  target : j.member (ascii "target") = some (.str (targetName action.target))
  data : ∃ d, j.member (ascii "data") = some d ∧ DescribesData d action.data

/-- An array describes a list element by element. -/
def DescribesList {α : Type} (D : Json → α → Prop) (j : Json) (xs : List α) : Prop :=
  ∃ elems, j = .arr elems ∧ List.Forall₂ D elems xs

def DescribesMatch (j : Json) (m : Match) : Prop := j.member (ascii "expr") = some (.str m.expr)

structure DescribesRule (j : Json) (rule : Rule) : Prop where
  name : j.member (ascii "name") = some (.str rule.name)
  enabled : ((j.member (ascii "enabled")).getD (.bool true)) = .bool rule.enabled
  phase : j.member (ascii "phase") = some (.str (phaseName rule.phase))
  match_ : Option.Rel DescribesMatch (j.member (ascii "match")) rule.match_
  actions : ∃ v, j.member (ascii "actions") = some v ∧
    DescribesList DescribesAction v rule.actions

def DescribesHttp (j : Json) (config : Config) : Prop :=
  Option.Rel (DescribesList DescribesRule) (j.member (ascii "rules")) config.rules

structure DescribesConfig (j : Json) (config : RuleConfig) : Prop where
  version : j.member (ascii "version") = some (.num config.version)
  schema : Option.Rel DescribesString (j.member (ascii "$schema")) config.schema
  http : Option.Rel DescribesHttp (j.member (ascii "http")) config.http

/-- The variant of the data is the one that the operation needs. -/
def Action.Fits (action : Action) : Prop :=
  action.target = .header ∧ match action.op, action.data with
    | .set, .headerNameValue _ _ => True
    | .add, .headerNameValue _ _ => True
    | .replace, .headerNameValue _ _ => True
    | .remove, .headerName _ => True
    | _, _ => False

/-- What the schema says of an action: it fits, and its header name is a token. -/
structure Action.Accepted (action : Action) : Prop where
  fits : action.Fits
  name : RuleSchema.namePattern action.data.name = true

/-- The rules of a configuration, none if it has no list of them. -/
def RuleConfig.rules (config : RuleConfig) : List Rule := (config.http.bind Config.rules).getD []

/-- Their actions, rule by rule. -/
def RuleConfig.actions (config : RuleConfig) : List Action := config.rules.flatMap Rule.actions

/-! ## Converters that follow a schema -/

/-- Whatever the schema accepts is converted, to what it says. -/
def Follows {α : Type} (as : Json → Except Thrown α) (schema : Schema) (D : Json → α → Prop) :
    Prop :=
  ∀ j, schema j = true → ∃ x, as j = .ok x ∧ D j x

section Follows

variable {α : Type} {as : Json → Except Thrown α} {schema : Schema} {D : Json → α → Prop}
  {j : Json} {schemas : List (Bytes × Schema)}

theorem asObject_of_type (h : Schema.type .object j = true) : asObject j = .ok () := by
  obtain ⟨members, rfl⟩ := Schema.obj_of_type h
  rfl

theorem Follows.mandatory (h : Follows as schema D) (name : Bytes)
    (hobj : Schema.type .object j = true)
    {names : List Bytes} (hreq : Schema.required names j = true) (hname : name ∈ names)
    (hprops : Schema.properties schemas j = true) (hs : (name, schema) ∈ schemas) :
    ∃ x v, Rules.mandatory name as j = .ok x ∧ j.member name = some v ∧ D v x := by
  obtain ⟨members, rfl⟩ := Schema.obj_of_type hobj
  obtain ⟨v, hv⟩ := Schema.member_of_required name hreq hname
  obtain ⟨x, hx, hD⟩ := h v (Schema.of_properties hprops hs hv)
  refine ⟨x, v, ?_, hv, hD⟩
  rw [Rules.mandatory, hv]
  exact hx

theorem Follows.defaulted (h : Follows as schema D) (name : Bytes) (default : α)
    (hprops : Schema.properties schemas j = true) (hs : (name, schema) ∈ schemas) :
    ∃ x, Rules.defaulted name as default j = .ok x ∧
      match j.member name with
      | none => x = default
      | some v => D v x := by
  unfold Rules.defaulted
  cases hv : j.member name with
  | none => exact ⟨default, rfl, rfl⟩
  | some v => exact h v (Schema.of_properties hprops hs hv)

/-- A schema that refuses `null` makes a member with it absent or there. -/
theorem Follows.optional (h : Follows as schema D) (name : Bytes)
    (hnull : schema (.scalar .null) = false)
    (hprops : Schema.properties schemas j = true) (hs : (name, schema) ∈ schemas) :
    ∃ x, Rules.optional name as j = .ok x ∧ Option.Rel D (j.member name) x := by
  unfold Rules.optional
  cases hv : j.member name with
  | none => exact ⟨none, rfl, .none⟩
  | some v =>
    have haccepts := Schema.of_properties hprops hs hv
    obtain ⟨x, hx, hD⟩ := h v haccepts
    refine ⟨some x, ?_, .some hD⟩
    split
    · rename_i heq
      cases heq
    · rename_i heq
      cases heq
      rw [hnull] at haccepts
      cases haccepts
    · rename_i heq
      cases heq
      rw [hx]
      rfl

theorem mapM_of_follows (h : Follows as schema D) {elems : List Json}
    (helems : ∀ v ∈ elems, schema v = true) :
    ∃ xs, elems.mapM as = .ok xs ∧ List.Forall₂ D elems xs := by
  induction elems with
  | nil => exact ⟨[], rfl, .nil⟩
  | cons v elems ih =>
    obtain ⟨x, hx, hD⟩ := h v (helems v List.mem_cons_self)
    obtain ⟨xs, hxs, hDs⟩ := ih fun v hv => helems v (List.mem_cons_of_mem _ hv)
    refine ⟨x :: xs, ?_, .cons hD hDs⟩
    rw [List.mapM_cons, hx, hxs]
    rfl

theorem Follows.vector (h : Follows as schema D) {j : Json} (harr : Schema.type .array j = true)
    (hitems : Schema.items schema j = true) :
    ∃ xs, asVector as j = .ok xs ∧ DescribesList D j xs := by
  obtain ⟨elems, rfl⟩ := Schema.arr_of_type harr
  obtain ⟨xs, hxs, hD⟩ := mapM_of_follows h (Schema.items_arr.mp hitems)
  exact ⟨xs, hxs, elems, rfl, hD⟩

end Follows

theorem describesList_and {α : Type} {D : Json → α → Prop} {P : α → Prop} {j : Json} {xs : List α}
    (h : DescribesList (fun j x => D j x ∧ P x) j xs) : DescribesList D j xs ∧ ∀ x ∈ xs, P x := by
  obtain ⟨elems, rfl, h⟩ := h
  refine ⟨⟨elems, rfl, h.imp fun _ _ h => h.1⟩, ?_⟩
  induction h with
  | nil => simp
  | cons hx _ ih => exact List.forall_mem_cons.mpr ⟨hx.2, ih⟩

theorem rel_and {α : Type} {D : Json → α → Prop} {P : α → Prop} {o : Option Json} {x : Option α}
    (h : Option.Rel (fun j x => D j x ∧ P x) o x) : Option.Rel D o x ∧ ∀ y ∈ x, P y := by
  cases h with
  | none => exact ⟨.none, by simp⟩
  | some h => exact ⟨.some h.1, by simpa using h.2⟩

theorem rel_mono {α : Type} {D E : Json → α → Prop} {o : Option Json} {x : Option α}
    (hmono : ∀ j x, D j x → E j x) (h : Option.Rel D o x) : Option.Rel E o x := by
  cases h with
  | none => exact .none
  | some h => exact .some (hmono _ _ h)

/-! ## The converters of a rule file -/

/-- A string that is one of some names. -/
theorem exists_name {names : List String} {j : Json}
    (h : Schema.all [Schema.type .string, Schema.enum (RuleSchema.strings names)] j = true) :
    ∃ name ∈ names, j = .str (ascii name) := by
  simp only [Schema.all_cons] at h
  obtain ⟨s, hs, rfl⟩ := Schema.enum_iff.mp h.2.1
  obtain ⟨name, hname, rfl⟩ := List.mem_map.mp hs
  exact ⟨name, hname, rfl⟩

/-- The condition on an action whose operation is one of some names. -/
theorem ifOp_of_member {j : Json} {operation : Schema} {v : Json}
    (htarget : j.member (ascii "target") = some (.str (ascii "header")))
    (hop : j.member (ascii "op") = some v) (hv : operation v = true) :
    RuleSchema.ifOp operation j = true := by
  obtain ⟨members, rfl⟩ := Json.exists_obj_of_member hop
  refine Schema.all_iff.mpr fun k hk => ?_
  simp only [List.mem_cons, List.not_mem_nil, or_false] at hk
  rcases hk with rfl | rfl
  · refine List.all_eq_true.mpr fun name hname => ?_
    simp only [List.mem_cons, List.not_mem_nil, or_false] at hname
    rcases hname with rfl | rfl
    · exact Option.isSome_iff_exists.mpr ⟨_, htarget⟩
    · exact Option.isSome_iff_exists.mpr ⟨_, hop⟩
  · refine Schema.properties_iff.mpr fun p hp w hw => ?_
    simp only [List.mem_cons, List.not_mem_nil, or_false] at hp
    rcases hp with rfl | rfl
    · obtain rfl := Option.some.inj (htarget.symm.trans hw)
      decide
    · obtain rfl := Option.some.inj (hop.symm.trans hw)
      exact hv

theorem at_of_follows {α : Type} {as : Json → Except Thrown α} {schema : Schema}
    {D : Json → α → Prop} (h : Follows as schema D) (name : Bytes) {names : List Bytes} {j : Json}
    {schemas : List (Bytes × Schema)} (hobj : Schema.type .object j = true)
    (hreq : Schema.required names j = true) (hname : name ∈ names)
    (hprops : Schema.properties schemas j = true) (hs : (name, schema) ∈ schemas) :
    ∃ x v, at_ name j = .ok v ∧ as v = .ok x ∧ j.member name = some v ∧ D v x := by
  obtain ⟨members, rfl⟩ := Schema.obj_of_type hobj
  obtain ⟨v, hv⟩ := Schema.member_of_required name hreq hname
  obtain ⟨x, hx, hD⟩ := h v (Schema.of_properties hprops hs hv)
  refine ⟨x, v, ?_, hx, hv, hD⟩
  rw [at_, hv]

section Converters

variable {J : Jsoncons} (hJ : J.Lawful)

include hJ

theorem asString_follows (keywords : List Schema) :
    Follows J.asString (Schema.all (Schema.type .string :: keywords)) DescribesString := by
  intro j h
  obtain ⟨s, rfl⟩ := Schema.str_of_type (Schema.all_cons.mp h).1
  exact ⟨s, hJ.asString_str s, rfl⟩

/-- A header name keeps to the pattern. -/
theorem asHeaderName_follows : Follows J.asString RuleSchema.headerName
    fun j s => RuleSchema.namePattern s = true ∧ DescribesString j s := by
  intro j h
  simp only [RuleSchema.headerName, Schema.all_cons] at h
  obtain ⟨s, rfl⟩ := Schema.str_of_type h.1
  exact ⟨s, hJ.asString_str s, h.2.2.1, rfl⟩

theorem asBool_follows (keywords : List Schema) :
    Follows J.asBool (Schema.all (Schema.type .boolean :: keywords)) fun j b => j = .bool b := by
  intro j h
  obtain ⟨b, rfl⟩ := Schema.bool_of_type (Schema.all_cons.mp h).1
  exact ⟨b, hJ.asBool_bool b, rfl⟩

theorem asVersion_follows :
    Follows J.asInt (Schema.all [Schema.type .integer, Schema.const (.num 1)])
      fun j n => j = .num n := by
  intro j h
  obtain ⟨-, h, -⟩ := (Schema.all_cons.trans (and_congr_right fun _ => Schema.all_cons)).mp h
  obtain rfl := Schema.const_iff.mp h
  exact ⟨1, hJ.asInt_num 1 (by decide) (by decide), rfl⟩

theorem asOp_follows : Follows (asOp J) RuleSchema.op fun j op =>
    op ≠ .notSet ∧ j = .str (opName op) := by
  intro j h
  obtain ⟨name, hname, rfl⟩ := exists_name h
  simp only [List.mem_cons, List.not_mem_nil, or_false] at hname
  rcases hname with rfl | rfl | rfl | rfl
  · exact ⟨.set, hJ.asEnum_name _ _ _ _ (by decide), by decide, rfl⟩
  · exact ⟨.add, hJ.asEnum_name _ _ _ _ (by decide), by decide, rfl⟩
  · exact ⟨.replace, hJ.asEnum_name _ _ _ _ (by decide), by decide, rfl⟩
  · exact ⟨.remove, hJ.asEnum_name _ _ _ _ (by decide), by decide, rfl⟩

theorem asPhase_follows :
    Follows (asPhase J) RuleSchema.phase fun j phase => j = .str (phaseName phase) := by
  intro j h
  obtain ⟨name, hname, rfl⟩ := exists_name h
  simp only [List.mem_cons, List.not_mem_nil, or_false] at hname
  rcases hname with rfl | rfl
  · exact ⟨.request, hJ.asEnum_name _ _ _ _ (by decide), rfl⟩
  · exact ⟨.response, hJ.asEnum_name _ _ _ _ (by decide), rfl⟩

/-- There is one target. -/
theorem asTarget_follows : Follows (asTarget J) RuleSchema.target fun j target =>
    target = .header ∧ j = .str (targetName target) := by
  intro j h
  obtain ⟨name, hname, rfl⟩ := exists_name h
  simp only [List.mem_cons, List.not_mem_nil, or_false] at hname
  obtain rfl := hname
  exact ⟨.header, hJ.asEnum_name _ _ _ _ (by decide), rfl, rfl⟩

theorem asMatch_follows : Follows (asMatch J) RuleSchema.match_ DescribesMatch := by
  intro j h
  simp only [RuleSchema.match_, Schema.all_cons] at h
  obtain ⟨hobj, -, hreq, hprops, -⟩ := h
  obtain ⟨expr, v, hexpr, hv, rfl⟩ :=
    (asString_follows hJ [Schema.minLength 1]).mandatory (ascii "expr") hobj hreq (by simp) hprops
      (by simp)
  refine ⟨⟨expr⟩, ?_, hv⟩
  simp only [asMatch, asObject_of_type hobj, hexpr]
  rfl

/-- The data of `remove`. -/
theorem asHeaderNameData_follows : Follows (asHeaderNameData J) RuleSchema.dataHeaderName
    fun j data => RuleSchema.namePattern data.name = true ∧ (∃ name, data = .headerName name) ∧
      DescribesData j data := by
  intro j h
  simp only [RuleSchema.dataHeaderName, Schema.all_cons] at h
  obtain ⟨hobj, -, hreq, hprops, -⟩ := h
  obtain ⟨name, v, hname, hv, htoken, rfl⟩ :=
    (asHeaderName_follows hJ).mandatory (ascii "name") hobj hreq (by simp) hprops (by simp)
  refine ⟨.headerName name, ?_, htoken, ⟨name, rfl⟩, hv⟩
  simp only [asHeaderNameData, asObject_of_type hobj, hname]
  rfl

/-- The data of the other operations. -/
theorem asHeaderNameValueData_follows :
    Follows (asHeaderNameValueData J) RuleSchema.dataHeaderNameValue
      fun j data => RuleSchema.namePattern data.name = true ∧
        (∃ name value, data = .headerNameValue name value) ∧ DescribesData j data := by
  intro j h
  simp only [RuleSchema.dataHeaderNameValue, Schema.all_cons] at h
  obtain ⟨hobj, -, hreq, hprops, -⟩ := h
  obtain ⟨name, v, hname, hv, htoken, rfl⟩ :=
    (asHeaderName_follows hJ).mandatory (ascii "name") hobj hreq (by simp) hprops (by simp)
  obtain ⟨value, v', hvalue, hv', rfl⟩ :=
    (asString_follows hJ []).mandatory (ascii "value") hobj hreq (by simp) hprops
      (by simp [RuleSchema.headerValue])
  refine ⟨.headerNameValue name value, ?_, htoken, ⟨name, value, rfl⟩, hv, hv'⟩
  simp only [asHeaderNameValueData, asObject_of_type hobj, hname, hvalue]
  rfl

/-- The shape of the data follows the operation. -/
theorem asData_follows {op : Op} (hne : op ≠ .notSet) {j : Json}
    (h : RuleSchema.action j = true)
    (htarget : j.member (ascii "target") = some (.str (ascii "header")))
    (hop : j.member (ascii "op") = some (.str (opName op))) :
    ∃ d, at_ (ascii "data") j = .ok d ∧ j.member (ascii "data") = some d ∧ ∃ data,
      (if op = .add ∨ op = .set ∨ op = .replace then asHeaderNameValueData J d
        else asHeaderNameData J d) = .ok data ∧
      DescribesData d data ∧ Action.Accepted ⟨op, .header, data⟩ := by
  simp only [RuleSchema.action, Schema.all_cons] at h
  obtain ⟨hobj, -, hreq, -, ⟨hvalue, hname, -⟩, -⟩ := h
  obtain ⟨members, rfl⟩ := Schema.obj_of_type hobj
  obtain ⟨d, hd⟩ := Schema.member_of_required (ascii "data") hreq (by simp)
  refine ⟨d, by rw [at_, hd], hd, ?_⟩
  have hthen : (Schema.enum (RuleSchema.strings ["set", "add", "replace"])) (.str (opName op))
      = true → RuleSchema.dataHeaderNameValue d = true := fun hcond =>
    Schema.of_properties (Schema.ifThen_iff.mp hvalue (ifOp_of_member htarget hop hcond))
      List.mem_cons_self hd
  cases op with
  | notSet => exact absurd rfl hne
  | set =>
    obtain ⟨_, hdata, htoken, ⟨name, value, rfl⟩, hD⟩ :=
      asHeaderNameValueData_follows hJ d (hthen (by decide))
    exact ⟨_, hdata, hD, ⟨rfl, trivial⟩, htoken⟩
  | add =>
    obtain ⟨_, hdata, htoken, ⟨name, value, rfl⟩, hD⟩ :=
      asHeaderNameValueData_follows hJ d (hthen (by decide))
    exact ⟨_, hdata, hD, ⟨rfl, trivial⟩, htoken⟩
  | replace =>
    obtain ⟨_, hdata, htoken, ⟨name, value, rfl⟩, hD⟩ :=
      asHeaderNameValueData_follows hJ d (hthen (by decide))
    exact ⟨_, hdata, hD, ⟨rfl, trivial⟩, htoken⟩
  | remove =>
    have hshape : RuleSchema.dataHeaderName d = true := Schema.of_properties
      (Schema.ifThen_iff.mp hname (ifOp_of_member htarget hop (by decide)))
      List.mem_cons_self hd
    obtain ⟨_, hdata, htoken, ⟨name, rfl⟩, hD⟩ := asHeaderNameData_follows hJ d hshape
    exact ⟨_, hdata, hD, ⟨rfl, trivial⟩, htoken⟩

theorem asAction_follows : Follows (asAction J) RuleSchema.action fun j action =>
    DescribesAction j action ∧ action.Accepted := by
  intro j h
  have h' := h
  simp only [RuleSchema.action, Schema.all_cons] at h'
  obtain ⟨hobj, -, hreq, hprops, -⟩ := h'
  obtain ⟨op, opJson, hat, hasOp, hop, hne, rfl⟩ := at_of_follows
    (asOp_follows hJ) (ascii "op") hobj hreq (by simp) hprops (by simp)
  obtain ⟨target, targetJson, hat', hasTarget, htarget, rfl, rfl⟩ :=
    at_of_follows (asTarget_follows hJ) (ascii "target") hobj hreq (by simp) hprops
      (by simp)
  obtain ⟨d, hatd, hd, data, hdata, hD, haccepted⟩ := asData_follows hJ hne h htarget hop
  refine ⟨⟨op, .header, data⟩, ?_, ⟨hop, htarget, d, hd, hD⟩, haccepted⟩
  have hread : asAction J j = (if op = .add ∨ op = .set ∨ op = .replace then do
        let data ← asHeaderNameValueData J d
        pure ⟨op, .header, data⟩
      else if op = .remove then do
        let data ← asHeaderNameData J d
        pure ⟨op, .header, data⟩
      else throw (.convError (ascii "invalid action op"))) := by
    simp only [asAction, hat, hat', hatd, bind, Except.bind, hasOp, hasTarget, if_true]
  rw [hread]
  by_cases hvalue : op = .add ∨ op = .set ∨ op = .replace
  · rw [if_pos hvalue] at hdata ⊢
    rw [hdata]
    rfl
  · rw [if_neg hvalue] at hdata ⊢
    have hremove : op = .remove := by
      cases op <;> simp_all
    rw [if_pos hremove, hdata]
    rfl

theorem asActions_follow : Follows (asVector (asAction J))
    (Schema.all [Schema.type .array, Schema.minItems 1, Schema.items RuleSchema.action])
    (DescribesList fun j action => DescribesAction j action ∧ action.Accepted) := by
  intro j h
  simp only [Schema.all_cons] at h
  exact (asAction_follows hJ).vector h.1 h.2.2.1

theorem asRule_follows : Follows (asRule J) RuleSchema.rule fun j rule =>
    DescribesRule j rule ∧ ∀ action ∈ rule.actions, action.Accepted := by
  intro j h
  simp only [RuleSchema.rule, Schema.all_cons] at h
  obtain ⟨hobj, -, hreq, hprops, -⟩ := h
  obtain ⟨name, _, hname, hnameJson, rfl⟩ := (asString_follows hJ [Schema.minLength 1]).mandatory
    (ascii "name") hobj hreq (by simp) hprops (by simp)
  obtain ⟨phase, _, hphase, hphaseJson, rfl⟩ := (asPhase_follows hJ).mandatory
    (ascii "phase") hobj hreq (by simp) hprops (by simp)
  obtain ⟨actions, actionsJson, hactions, hactionsJson, hD⟩ := (asActions_follow hJ).mandatory
    (ascii "actions") hobj hreq (by simp) hprops (by simp)
  obtain ⟨enabled, henabled, henabledJson⟩ := (asBool_follows hJ []).defaulted
    (ascii "enabled") true hprops (by simp)
  obtain ⟨match_, hmatch, hmatchJson⟩ := (asMatch_follows hJ).optional
    (ascii "match") (by decide) hprops (by simp)
  obtain ⟨hDs, haccepted⟩ := describesList_and hD
  refine ⟨⟨name, enabled, phase, match_, actions⟩, ?_,
    ⟨hnameJson, ?_, hphaseJson, hmatchJson, actionsJson, hactionsJson, hDs⟩, haccepted⟩
  · simp only [asRule, asObject_of_type hobj, hname, hphase, hactions, henabled, hmatch]
    rfl
  · split at henabledJson
    · rename_i hnone
      rw [hnone, henabledJson]
      rfl
    · rename_i v hsome
      rw [hsome, henabledJson]
      rfl

theorem asHttpConfig_follows : Follows (asHttpConfig J) RuleSchema.config fun j config =>
    DescribesHttp j config ∧ ∀ rule ∈ config.rules.getD [], ∀ action ∈ rule.actions,
      action.Accepted := by
  intro j h
  simp only [RuleSchema.config, Schema.all_cons] at h
  obtain ⟨hobj, -, -, hprops, -⟩ := h
  have hvector : Follows (asVector (asRule J))
      (Schema.all [Schema.type .array, Schema.items RuleSchema.rule])
      (DescribesList fun j rule => DescribesRule j rule ∧
        ∀ action ∈ rule.actions, action.Accepted) := by
    intro j h
    simp only [Schema.all_cons] at h
    exact (asRule_follows hJ).vector h.1 h.2.1
  obtain ⟨rules, hrules, hD⟩ := hvector.optional (ascii "rules") (by decide) hprops (by simp)
  have hboth : Option.Rel (fun v rs => DescribesList DescribesRule v rs ∧
      ∀ rule ∈ rs, ∀ action ∈ rule.actions, action.Accepted) (j.member (ascii "rules")) rules :=
    rel_mono (fun _ _ h => describesList_and h) hD
  obtain ⟨hDs, haccepted⟩ := rel_and hboth
  refine ⟨⟨rules⟩, ?_, hDs, fun rule hrule => ?_⟩
  · simp only [asHttpConfig, asObject_of_type hobj, hrules]
    rfl
  · cases hrs : rules with
    | none => simp [hrs] at hrule
    | some rs => exact haccepted rs hrs rule (by simpa [hrs] using hrule)

theorem asRuleConfig_follows : Follows (asRuleConfig J) RuleSchema.kRuleSchema fun j config =>
    DescribesConfig j config ∧ ∀ action ∈ config.actions, action.Accepted := by
  intro j h
  simp only [RuleSchema.kRuleSchema, Schema.all_cons] at h
  obtain ⟨hobj, -, hreq, hprops, -⟩ := h
  obtain ⟨version, _, hversion, hversionJson, rfl⟩ := (asVersion_follows hJ).mandatory
    (ascii "version") hobj hreq (by simp) hprops (by simp)
  obtain ⟨schema, hschema, hschemaJson⟩ := (asString_follows hJ []).optional
    (ascii "$schema") (by decide) hprops (by simp)
  obtain ⟨http, hhttp, hD⟩ := (asHttpConfig_follows hJ).optional
    (ascii "http") (by decide) hprops (by simp)
  obtain ⟨hDs, haccepted⟩ := rel_and hD
  refine ⟨⟨schema, version, http⟩, ?_, ⟨hversionJson, hschemaJson, hDs⟩, fun action haction => ?_⟩
  · simp only [asRuleConfig, asObject_of_type hobj, hversion, hschema, hhttp]
    rfl
  · obtain ⟨rule, hrule, haction⟩ := List.mem_flatMap.mp haction
    cases hh : http with
    | none => simp [RuleConfig.rules, hh] at hrule
    | some c =>
      exact haccepted c hh rule (by simpa [RuleConfig.rules, hh] using hrule) action haction

end Converters

/-! ## Actions that fit -/

/-- The executors refuse an action that fits only for the name of its header. -/
theorem changeOf_fits {action : Action} (h : action.Fits) : changeOf action =
    if isUnsupported action.data.name then .error (notSupported action.data.name)
    else .ok (match action.op, action.data with
      | .set, .headerNameValue name value => .set name value
      | .add, .headerNameValue name value => .add name value
      | .replace, .headerNameValue name value => .replace name value
      | _, data => .remove data.name) := by
  rcases action with ⟨op, target, data⟩
  obtain ⟨rfl, hfits⟩ := h
  unfold changeOf
  rw [if_neg (not_not.mpr rfl)]
  refine if_congr Iff.rfl rfl ?_
  cases op <;> cases data <;> first | rfl | exact hfits.elim

/-- Running an action on a message succeeds, or fails because its header is an unsupported one. -/
def Runs {σ : Type} (m : EStateM Error σ PUnit) (action : Action) (s : σ) : Prop :=
  isUnsupported action.data.name = false ∧ (∃ t, m s = .ok ⟨⟩ t) ∨
    isUnsupported action.data.name = true ∧ m s = .error (notSupported action.data.name) s

theorem executeRequestAction_runs {action : Action} (h : action.Fits) (request : RequestHeader) :
    Runs (executeRequestAction action) action request := by
  unfold Runs
  rw [executeRequestAction_eq, changeOf_fits h]
  cases isUnsupported action.data.name with
  | false => exact Or.inl ⟨rfl, _, rfl⟩
  | true => exact Or.inr ⟨rfl, rfl⟩

theorem executeResponseAction_runs {action : Action} (h : action.Fits) (response : ResponseHeader) :
    Runs (executeResponseAction action) action response := by
  unfold Runs
  rw [executeResponseAction_eq, changeOf_fits h]
  cases isUnsupported action.data.name with
  | false => exact Or.inl ⟨rfl, _, rfl⟩
  | true => exact Or.inr ⟨rfl, rfl⟩

/-- The same over a container, without an exception. -/
def RunsOn {M : Type} (C : Container M) (action : Action) (m : M) : Prop :=
  isUnsupported action.data.name = false ∧ (∃ t, C.execute action m = .ok ⟨⟩ t) ∨
    isUnsupported action.data.name = true ∧
      C.execute action m = .error (.inl (notSupported action.data.name)) m

theorem execute_runsOn {M : Type} {C : Container M} (hC : C.StoresVerbatim) {action : Action}
    (h : action.Fits) (m : M) : RunsOn C action m := by
  have hchange := changeOf_fits h
  unfold RunsOn
  cases hname : isUnsupported action.data.name with
  | false =>
    rw [hname, if_neg Bool.false_ne_true] at hchange
    obtain ⟨t, ht, -⟩ := C.execute_ok hC hchange m
    exact Or.inl ⟨rfl, t, ht⟩
  | true =>
    rw [hname, if_pos rfl] at hchange
    exact Or.inr ⟨rfl, Container.execute_error hchange m⟩

/-! ## Loading an accepted file -/

theorem validateJsonBySchema_eq_ok {J : Jsoncons} {schema : Schema} {text : Bytes}
    (h : validateJsonBySchema J schema text = .ok ()) :
    ∃ doc, J.parse text = .ok doc ∧ schema doc = true := by
  unfold validateJsonBySchema at h
  split at h
  · cases h
  · rename_i doc hparse
    split at h
    · rename_i haccepts
      exact ⟨doc, hparse, haccepts⟩
    · cases h

/-- A text that the schema accepts is converted to the configuration it describes. -/
theorem exists_config {J : Jsoncons} (hJ : J.Lawful)
    {readTextFile : Bytes → Except CommonError Bytes} {filePath text : Bytes}
    (hread : readTextFile filePath = .ok text)
    (hvalid : validateJsonBySchema J RuleSchema.kRuleSchema text = .ok ()) :
    ∃ doc config, J.parse text = .ok doc ∧ loadRulesFromFile J readTextFile filePath = .ok config ∧
      DescribesConfig doc config ∧ ∀ action ∈ config.actions, action.Accepted := by
  obtain ⟨doc, hparse, haccepts⟩ := validateJsonBySchema_eq_ok hvalid
  obtain ⟨config, hconfig, hD, haccepted⟩ := asRuleConfig_follows hJ doc haccepts
  refine ⟨doc, config, hparse, ?_, hD, haccepted⟩
  have hparse' : parseJson J text = .ok doc := by rw [parseJson, hJ.parse_same text doc hparse]
  have hconvert : convert J doc = .ok config := by rw [convert, hconfig]
  simp only [loadRulesFromFile, hread, hvalid, hparse', hconvert, bind, Except.bind]

/-- The actions of a file that loads were accepted. -/
theorem accepted_of_loadRulesFromFile {J : Jsoncons} (hJ : J.Lawful)
    {readTextFile : Bytes → Except CommonError Bytes} {filePath : Bytes} {config : RuleConfig}
    (h : loadRulesFromFile J readTextFile filePath = .ok config) :
    ∀ action ∈ config.actions, action.Accepted := by
  have hload := h
  simp only [loadRulesFromFile, bind, Except.bind] at h
  split at h
  · cases h
  rename_i text hread
  split at h
  · cases h
  rename_i hvalid
  obtain ⟨_, config', -, hconfig, -, haccepted⟩ := exists_config hJ hread hvalid
  obtain rfl := Except.ok.inj (hload.symm.trans hconfig)
  exact haccepted

/-- **Accepted rule files load.**  A text that the schema accepts is converted to the configuration
it describes, and an action of it is refused for nothing but the name of its header, over every
container that stores fields verbatim. -/
theorem loadRulesFromFile_accepted (J : Jsoncons) (hJ : J.Lawful)
    (readTextFile : Bytes → Except CommonError Bytes) (filePath text : Bytes)
    (hread : readTextFile filePath = .ok text)
    (hvalid : validateJsonBySchema J RuleSchema.kRuleSchema text = .ok ()) :
    ∃ doc config, J.parse text = .ok doc ∧ loadRulesFromFile J readTextFile filePath = .ok config ∧
      DescribesConfig doc config ∧ ∀ action ∈ config.actions, action.Fits ∧
        (∀ request, Runs (executeRequestAction action) action request) ∧
        (∀ response, Runs (executeResponseAction action) action response) ∧
        ∀ (M : Type) (C : Container M), C.StoresVerbatim → ∀ m, RunsOn C action m := by
  obtain ⟨doc, config, hparse, hconfig, hD, haccepted⟩ := exists_config hJ hread hvalid
  refine ⟨doc, config, hparse, hconfig, hD, fun action haction => ?_⟩
  have h := (haccepted action haction).fits
  exact ⟨h, executeRequestAction_runs h, executeResponseAction_runs h, fun M C hC =>
    execute_runsOn hC h⟩

/-- Conversions that take values of their own kind only, and texts whose values are known. -/
def Jsoncons.strict (texts : List (Bytes × Json)) : Jsoncons where
  parse text := (texts.lookup text).elim (.error (ascii "syntax error")) .ok
  parseOrdered text := (texts.lookup text).elim (.error (ascii "syntax error")) .ok
  violation _ := ascii "not valid"
  asString
    | .str s => .ok s
    | _ => .error (.convError (ascii "not a string"))
  asBool
    | .bool b => .ok b
    | _ => .error (.convError (ascii "not a bool"))
  asInt
    | .num q => if q.den = 1 ∧ -2 ^ 31 ≤ q.num ∧ q.num < 2 ^ 31 then .ok q.num
      else .error (.convError (ascii "not an integer"))
    | _ => .error (.convError (ascii "not an integer"))
  asEnum names
    | .str s => match names.find? (fun p => p.2 = s) with
      | some p => .ok p.1
      | none => .error (.convError (ascii "not an enumerator"))
    | _ => .error (.convError (ascii "not a string"))

theorem Jsoncons.strict_lawful (texts : List (Bytes × Json)) : (Jsoncons.strict texts).Lawful where
  parse_same _ _ h := h
  asString_str _ := rfl
  asBool_bool _ := rfl
  asInt_num n hlo hhi := if_pos ⟨Rat.den_intCast n, hlo, hhi⟩
  asEnum_name E names e s h := by
    show (match names.find? (fun p => p.2 = s) with
      | some p => Except.ok p.1
      | none => _) = _
    rw [h]

/-- A rule file with one rule, which sets `User-Agent`. -/
def setUserAgentText : Bytes :=
  ascii "\x7b\"version\":1,\"http\":\x7b\"rules\":[\x7b\"name\":\"agent\",\"phase\":\"request\"," ++
  ascii "\"actions\":[\x7b\"op\":\"set\",\"target\":\"header\"," ++
  ascii "\"data\":\x7b\"name\":\"User-Agent\",\"value\":\"p\"\x7d\x7d]\x7d]\x7d\x7d"

/-- Its value. -/
def setUserAgent : Json := .obj
  [(ascii "version", .num 1), (ascii "http", .obj [(ascii "rules", .arr [.obj
    [(ascii "name", .str (ascii "agent")), (ascii "phase", .str (ascii "request")),
      (ascii "actions", .arr [.obj
        [(ascii "op", .str (ascii "set")), (ascii "target", .str (ascii "header")),
          (ascii "data", .obj [(ascii "name", .str (ascii "User-Agent")),
            (ascii "value", .str (ascii "p"))])]])]])])]

theorem loadRulesFromFile_accepted_setUserAgent : ∃ doc config,
    (Jsoncons.strict [(setUserAgentText, setUserAgent)]).parse setUserAgentText = .ok doc ∧
    loadRulesFromFile (Jsoncons.strict [(setUserAgentText, setUserAgent)])
      (fun _ => .ok setUserAgentText) (ascii "rules.json") = .ok config ∧
    DescribesConfig doc config ∧ ∀ action ∈ config.actions, action.Fits ∧
      (∀ request, Runs (executeRequestAction action) action request) ∧
      (∀ response, Runs (executeResponseAction action) action response) ∧
      ∀ request, RunsOn requestFields action request := by
  obtain ⟨doc, config, hparse, hconfig, hD, hactions⟩ :=
    loadRulesFromFile_accepted (Jsoncons.strict [(setUserAgentText, setUserAgent)])
      (Jsoncons.strict_lawful _) (fun _ => .ok setUserAgentText) (ascii "rules.json")
      setUserAgentText rfl (by decide +kernel)
  refine ⟨doc, config, hparse, hconfig, hD, fun action haction => ?_⟩
  obtain ⟨hfits, hreq, hres, hover⟩ := hactions action haction
  exact ⟨hfits, hreq, hres, hover RequestHeader requestFields requestFields_verbatim⟩

end ProxyPP.Rules
