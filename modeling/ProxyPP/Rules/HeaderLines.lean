import ProxyPP.Lib.Delimiter
import ProxyPP.Rules.Accepted

/-!
# ProxyPP.Rules.HeaderLines — the header lines that rules write

A field is written as one line, so a written header can be split into its fields again as long as
there is no CRLF in them.  Rules keep it that way (`NoInjection`) exactly if no action that writes a
field has a CRLF in its value (`headers_injected_iff`): the schema restricts the names in a rule
file, not the values.
-/

namespace ProxyPP.Rules

open ProxyPP ProxyPP.Lib ProxyPP.Http

/-! ## Lines -/

/-- `name: value` -/
def fieldLine (f : Field) : Bytes := f.name ++ (ascii ": " ++ f.value)

/-- The fields as lines ended by CRLF. -/
def headerBlock (fields : Fields) : Bytes := joinPair cr lf (fields.map fieldLine)

/-- The pieces of a block between its CRLFs; the last one is what is behind them. -/
def linesOf (block : Bytes) : List Bytes := splitPair cr lf block

/-- What is in front of the colon. -/
def lineName (line : Bytes) : Bytes := line.takeWhile (· != 58)

def CrlfFree (s : Bytes) : Prop := findPair cr lf s = none

instance (s : Bytes) : Decidable (CrlfFree s) := inferInstanceAs (Decidable (_ = _))

/-- The written header splits into its fields. -/
def RoundTrips (fields : Fields) : Prop :=
  linesOf (headerBlock fields) = fields.map fieldLine ++ [[]]

/-- The serializer writes the block and an empty line. -/
theorem serializeFields_eq (fields : Fields) :
    HeadTable.serializeFields fields = headerBlock fields ++ crlf := by
  unfold HeadTable.serializeFields headerBlock joinPair
  rw [List.flatMap_map]
  refine congrArg (· ++ crlf) (List.flatMap_congr fun f _ => ?_)
  simp [fieldLine, crlf]

/-- What is written splits into the field lines and the empty line exactly if the block splits. -/
theorem linesOf_serializeFields (fields : Fields) :
    linesOf (HeadTable.serializeFields fields) = fields.map fieldLine ++ [[], []] ↔
      RoundTrips fields := by
  have hempty : headerBlock fields ++ crlf = joinPair cr lf (fields.map fieldLine ++ [[]]) := by
    rw [headerBlock, joinPair, joinPair, List.flatMap_append]
    rfl
  have hpieces : fields.map fieldLine ++ [[], []] = fields.map fieldLine ++ [[]] ++ [[]] := by simp
  unfold RoundTrips linesOf
  rw [serializeFields_eq, hempty, hpieces, splitPair_joined_iff cr_ne_lf, headerBlock,
    splitPair_joined_iff cr_ne_lf, List.forall_mem_append]
  exact and_iff_left fun piece hpiece => List.mem_singleton.mp hpiece ▸ findPair_nil

theorem roundTrips_iff (fields : Fields) :
    RoundTrips fields ↔ ∀ f ∈ fields, CrlfFree (fieldLine f) := by
  unfold RoundTrips linesOf headerBlock
  rw [splitPair_joined_iff cr_ne_lf, List.forall_mem_map]
  rfl

/-- A line holds no CRLF if its value does not. -/
theorem crlfFree_fieldLine {f : Field} (h : cr ∉ f.name) :
    CrlfFree (fieldLine f) ↔ CrlfFree f.value := by
  unfold CrlfFree fieldLine
  rw [findPair_append_eq_none h, findPair_append_eq_none (by decide)]

theorem crlfFree_of_fieldLine {f : Field} (h : CrlfFree (fieldLine f)) : CrlfFree f.value :=
  findPair_of_append (findPair_of_append h)

/-- The name of a line is the name of its field. -/
theorem lineName_fieldLine {f : Field} (h : (58 : UInt8) ∉ f.name) :
    lineName (fieldLine f) = f.name := by
  unfold lineName fieldLine
  rw [List.takeWhile_append_of_pos]
  · exact List.append_nil _
  · intro c hc
    have hne : c ≠ 58 := fun heq => h (heq ▸ hc)
    simpa using hne

/-! ## What an action writes -/

/-- The field that a change puts into the fields. -/
def FieldChange.stored : FieldChange → Fields → Option Field
  | set name value, _ => some ⟨name, value⟩
  | add name value, fields => if Fields.contains name fields then none else some ⟨name, value⟩
  | replace name value, fields => if Fields.contains name fields then some ⟨name, value⟩ else none
  | remove _, _ => none

theorem FieldChange.apply_of_stored {change : FieldChange} {fields : Fields} {f : Field}
    (h : change.stored fields = some f) :
    change.apply fields = Fields.erase f.name fields ++ [f] ∧ f.name = change.name := by
  rcases change with ⟨n, v⟩ | ⟨n, v⟩ | ⟨n, v⟩ | n
  · obtain rfl := Option.some.inj h
    exact ⟨rfl, rfl⟩
  · by_cases hc : Fields.contains n fields = true
    · rw [stored, if_pos hc] at h
      cases h
    · rw [stored, if_neg hc] at h
      obtain rfl := Option.some.inj h
      exact ⟨if_neg hc, rfl⟩
  · by_cases hc : Fields.contains n fields = true
    · rw [stored, if_pos hc] at h
      obtain rfl := Option.some.inj h
      exact ⟨if_pos hc, rfl⟩
    · rw [stored, if_neg hc] at h
      cases h
  · cases h

/-- A change that stores nothing adds nothing. -/
theorem FieldChange.apply_subset {change : FieldChange} {fields : Fields}
    (h : change.stored fields = none) : ∀ f ∈ change.apply fields, f ∈ fields := by
  rcases change with ⟨n, v⟩ | ⟨n, v⟩ | ⟨n, v⟩ | n
  · cases h
  · by_cases hc : Fields.contains n fields = true
    · rw [apply, if_pos hc]
      exact fun _ h => h
    · rw [stored, if_neg hc] at h
      cases h
  · by_cases hc : Fields.contains n fields = true
    · rw [stored, if_pos hc] at h
      cases h
    · rw [apply, if_neg hc]
      exact fun _ h => h
  · exact fun f hf => List.mem_of_mem_filter hf

/-- The field an action writes, if it is performed and writes one. -/
def Action.writes (action : Action) (fields : Fields) : Option Field :=
  match changeOf action with
  | .ok change => change.stored fields
  | .error _ => none

/-- The fields behind an action. -/
def Action.onFields (action : Action) (fields : Fields) : Fields :=
  match changeOf action with
  | .ok change => change.apply fields
  | .error _ => fields

theorem Action.onFields_of_writes {action : Action} {fields : Fields} {f : Field}
    (h : action.writes fields = some f) :
    action.onFields fields = Fields.erase f.name fields ++ [f] ∧ isUnsupported f.name = false := by
  unfold writes at h
  unfold onFields
  cases hc : changeOf action with
  | error e =>
    rw [hc] at h
    cases h
  | ok change =>
    rw [hc] at h
    obtain ⟨happly, hname⟩ := FieldChange.apply_of_stored h
    exact ⟨happly, hname ▸ changeOf_supported hc⟩

theorem Action.onFields_subset {action : Action} {fields : Fields}
    (h : action.writes fields = none) : ∀ f ∈ action.onFields fields, f ∈ fields := by
  unfold writes at h
  unfold onFields
  cases hc : changeOf action with
  | error e => exact fun _ hf => hf
  | ok change =>
    rw [hc] at h
    exact FieldChange.apply_subset h

/-- What is in the fields behind an action was in them or is what it wrote. -/
theorem Action.mem_onFields {action : Action} {fields : Fields} {f : Field}
    (h : f ∈ action.onFields fields) : f ∈ fields ∨ action.writes fields = some f := by
  cases hw : action.writes fields with
  | none => exact Or.inl (onFields_subset hw f h)
  | some g =>
    rw [(onFields_of_writes hw).1] at h
    rcases List.mem_append.mp h with h | h
    · exact Or.inl (List.mem_of_mem_filter h)
    · exact Or.inr (congrArg some (List.mem_singleton.mp h).symm)

theorem FieldChange.eq_of_stored {change : FieldChange} {fields : Fields} {f : Field}
    (h : change.stored fields = some f) : change = .set f.name f.value ∨
      change = .add f.name f.value ∨ change = .replace f.name f.value := by
  rcases change with ⟨n, v⟩ | ⟨n, v⟩ | ⟨n, v⟩ | n
  · cases h
    exact Or.inl rfl
  · rw [stored] at h
    split_ifs at h
    cases h
    exact Or.inr (Or.inl rfl)
  · rw [stored] at h
    split_ifs at h
    cases h
    exact Or.inr (Or.inr rfl)
  · cases h

/-- It is the name and the value of the action. -/
theorem Action.data_of_writes {action : Action} {fields : Fields} {f : Field}
    (h : action.writes fields = some f) : action.data = .headerNameValue f.name f.value := by
  unfold writes at h
  cases hc : changeOf action with
  | error e =>
    rw [hc] at h
    cases h
  | ok change =>
    rw [hc] at h
    rcases action with ⟨op, target, data⟩
    unfold changeOf at hc
    split_ifs at hc
    rcases FieldChange.eq_of_stored h with rfl | rfl | rfl <;>
      rcases op with _ | _ | _ | _ | _ <;> rcases data with ⟨n⟩ | ⟨n, v⟩ <;> cases hc <;> rfl

/-! ## Performed actions -/

section Performed

variable {α σ : Type} (step : α → σ → σ)

/-- `P` holds in every state that the operations go through. -/
def EveryState (P : σ → Prop) : List α → σ → Prop
  | [], s => P s
  | a :: as, s => P s ∧ EveryState P as (step a s)

/-- `P` holds of every operation in the state it starts from. -/
def EveryStep (P : α → σ → Prop) : List α → σ → Prop
  | [], _ => True
  | a :: as, s => P a s ∧ EveryStep P as (step a s)

variable {step}

/-- An invariant of the steps holds in every state. -/
theorem EveryStep.invariant {P : α → σ → Prop} {I : σ → Prop} {as : List α} {s : σ}
    (h : EveryStep step P as s) (hstep : ∀ a ∈ as, ∀ s, P a s → I s → I (step a s)) (hs : I s) :
    EveryState step I as s := by
  induction as generalizing s with
  | nil => exact hs
  | cons a as ih =>
    have hnext := hstep a List.mem_cons_self s h.1 hs
    exact ⟨hs, ih h.2 (fun b hb => hstep b (List.mem_cons_of_mem a hb)) hnext⟩

theorem EveryState.mono {I J : σ → Prop} {as : List α} {s : σ} (h : EveryState step I as s)
    (hIJ : ∀ s, I s → J s) : EveryState step J as s := by
  induction as generalizing s with
  | nil => exact hIJ s h
  | cons a as ih => exact ⟨hIJ s h.1, ih h.2⟩

theorem EveryState.start {I : σ → Prop} {as : List α} {s : σ} (h : EveryState step I as s) :
    I s := by
  cases as with
  | nil => exact h
  | cons a as => exact h.1

/-- What holds behind a step says something of the step. -/
theorem EveryState.everyStep {I : σ → Prop} {P : α → σ → Prop} {as : List α} {s : σ}
    (h : EveryState step I as s) (hP : ∀ a ∈ as, ∀ s, I (step a s) → P a s) :
    EveryStep step P as s := by
  induction as generalizing s with
  | nil => trivial
  | cons a as ih =>
    exact ⟨hP a List.mem_cons_self s h.2.start,
      ih h.2 fun b hb => hP b (List.mem_cons_of_mem a hb)⟩

theorem everyStep_of_forall {P : α → σ → Prop} {as : List α} (h : ∀ a ∈ as, ∀ s, P a s) (s : σ) :
    EveryStep step P as s := by
  induction as generalizing s with
  | nil => trivial
  | cons a as ih =>
    exact ⟨h a List.mem_cons_self s, ih (fun b hb => h b (List.mem_cons_of_mem a hb)) _⟩

end Performed

/-- No field holds a CR or an LF. -/
def CleanFields (fields : Fields) : Prop :=
  ∀ f ∈ fields, cr ∉ f.name ∧ lf ∉ f.name ∧ cr ∉ f.value ∧ lf ∉ f.value

/-- The written header splits into its fields, and a line with an unsupported name is one of the
original header. -/
structure KeepsLines (original fields : Fields) : Prop where
  roundTrips : RoundTrips fields
  supported : ∀ line ∈ linesOf (headerBlock fields), isUnsupported (lineName line) = true →
    line ∈ linesOf (headerBlock original)

/-- A field that is written is one line more. -/
def WritesLine (action : Action) (fields : Fields) : Prop :=
  ∀ f, action.writes fields = some f → linesOf (headerBlock (action.onFields fields))
    = (Fields.erase f.name fields).map fieldLine ++ [fieldLine f] ++ [[]]

/-- Rules that performed these actions injected no line. -/
def NoInjection (done : List Action) (fields : Fields) : Prop :=
  EveryState Action.onFields (KeepsLines fields) done fields ∧
    EveryStep Action.onFields WritesLine done fields

/-- The value an action writes holds no CRLF. -/
def WritesCrlfFree (action : Action) (fields : Fields) : Prop :=
  ∀ f, action.writes fields = some f → CrlfFree f.value

/-! ## Injection -/

/-- A field that does not run into the next line, and is an original one or has a supported name. -/
structure LineField (original : Fields) (f : Field) : Prop where
  name : cr ∉ f.name
  value : CrlfFree f.value
  known : f ∈ original ∨ isUnsupported f.name = false ∧ (58 : UInt8) ∉ f.name

theorem cleanFields_lineField {fields : Fields} (h : CleanFields fields) :
    ∀ f ∈ fields, LineField fields f := by
  intro f hf
  obtain ⟨hname, -, hvalue, -⟩ := h f hf
  exact ⟨hname, findPair_eq_none_of_not_mem hvalue, Or.inl hf⟩

theorem not_mem_of_namePattern {s : Bytes} (h : RuleSchema.namePattern s = true) (c : UInt8)
    (hc : RuleSchema.isNameChar c = false) : c ∉ s := by
  intro hmem
  have hall := List.all_eq_true.mp (Bool.and_eq_true_iff.mp h).2 c hmem
  rw [hc] at hall
  cases hall

/-- **A step** of accepted actions that writes no CRLF. -/
theorem onFields_lineField {original fields : Fields} {action : Action}
    (haccepted : action.Accepted) (hfree : WritesCrlfFree action fields)
    (h : ∀ f ∈ fields, LineField original f) :
    ∀ f ∈ action.onFields fields, LineField original f := by
  intro f hf
  rcases Action.mem_onFields hf with hf | hw
  · exact h f hf
  · have htoken : RuleSchema.namePattern f.name = true := by
      have hname := haccepted.name
      rwa [Action.data_of_writes hw] at hname
    exact ⟨not_mem_of_namePattern htoken cr (by decide), hfree f hw,
      Or.inr ⟨(Action.onFields_of_writes hw).2, not_mem_of_namePattern htoken 58 (by decide)⟩⟩

theorem keepsLines_of_lineField {original fields : Fields}
    (horiginal : RoundTrips original) (h : ∀ f ∈ fields, LineField original f) :
    KeepsLines original fields := by
  have hround : RoundTrips fields := (roundTrips_iff fields).mpr fun f hf =>
    (crlfFree_fieldLine (h f hf).name).mpr (h f hf).value
  refine ⟨hround, fun line hline hname => ?_⟩
  rw [hround] at hline
  rw [horiginal]
  rcases List.mem_append.mp hline with hline | hline
  · obtain ⟨f, hf, rfl⟩ := List.mem_map.mp hline
    rcases (h f hf).known with hknown | ⟨hsupported, hcolon⟩
    · exact List.mem_append_left _ (List.mem_map_of_mem hknown)
    · rw [lineName_fieldLine hcolon, hsupported] at hname
      cases hname
  · obtain rfl := List.mem_singleton.mp hline
    exact absurd hname (by decide)

theorem writesLine_of_roundTrips {action : Action} {fields : Fields}
    (h : RoundTrips (action.onFields fields)) : WritesLine action fields := by
  intro f hw
  rw [h, (Action.onFields_of_writes hw).1, List.map_append]
  rfl

/-- A value that is written with a CRLF breaks the header. -/
theorem writesCrlfFree_of_roundTrips {action : Action} {fields : Fields}
    (h : RoundTrips (action.onFields fields)) : WritesCrlfFree action fields := by
  intro f hw
  refine crlfFree_of_fieldLine ((roundTrips_iff _).mp h f ?_)
  rw [(Action.onFields_of_writes hw).1]
  exact List.mem_append_right _ (List.mem_singleton_self f)

/-- **Runs** of accepted actions on a clean header. -/
theorem noInjection_iff {done : List Action} {fields : Fields}
    (haccepted : ∀ action ∈ done, action.Accepted) (hclean : CleanFields fields) :
    NoInjection done fields ↔ EveryStep Action.onFields WritesCrlfFree done fields := by
  have hstart := cleanFields_lineField hclean
  have hround : RoundTrips fields := (roundTrips_iff fields).mpr fun f hf =>
    (crlfFree_fieldLine (hstart f hf).name).mpr (hstart f hf).value
  constructor
  · rintro ⟨hstates, -⟩
    exact hstates.everyStep fun action _ fields h => writesCrlfFree_of_roundTrips h.roundTrips
  · intro hsteps
    have hinv := hsteps.invariant (I := fun fs => ∀ f ∈ fs, LineField fields f)
      (fun action ha fs hfree h => onFields_lineField (haccepted action ha) hfree h) hstart
    have hstates := hinv.mono fun _ h => keepsLines_of_lineField hround h
    exact ⟨hstates, hstates.everyStep fun action _ fs h => writesLine_of_roundTrips h.roundTrips⟩

/-! ## Rule runs -/

variable {η μ : Type} {S : Script η}

/-- Only actions of the rules are performed. -/
theorem Reference.mem {cb : Callbacks η μ Rule Action S} {rules : List Rule} {w w' : World η μ}
    {done : List Action} {error : Option Error} (hr : Reference cb rules w done error w') :
    ∀ action ∈ done, action ∈ rules.flatMap cb.getActions := by
  have hperforms : ∀ {actions done : List Action} {m m' : μ} {error : Option Error},
      Performs cb.executeAction actions m done error m' → ∀ action ∈ done, action ∈ actions := by
    intro actions done m m' error hp action haction
    cases error with
    | none => rwa [hp.all rfl]
    | some e =>
      obtain ⟨failed, rest, hsplit, -⟩ := hp.failing e rfl
      rw [hsplit]
      exact List.mem_append_left _ haction
  induction hr with
  | nil w => simp
  | undecided hd => simp
  | skipped hd _ ih =>
    exact fun action h => List.mem_append_right _ (ih action h)
  | stopped hd hp => exact fun action h => List.mem_append_left _ (hperforms hp action h)
  | performed hd hp _ ih =>
    intro action h
    rcases List.mem_append.mp h with h | h
    · exact List.mem_append_left _ (hperforms hp action h)
    · exact List.mem_append_right _ (ih action h)

theorem effect_fields {executeAction : Action → EStateM Error μ PUnit} {fields : μ → Fields}
    (hexec : ∀ action m m', executeAction action m = .ok ⟨⟩ m' →
      fields m' = action.onFields (fields m)) {done : List Action} {m m' : μ}
    (h : effect executeAction done m = some m') :
    fields m' = done.foldl (fun fs action => action.onFields fs) (fields m) := by
  induction done generalizing m with
  | nil =>
    rw [effect] at h
    rw [Option.some.inj h]
    rfl
  | cons action done ih =>
    cases hr : executeAction action m with
    | error e m₁ =>
      rw [effect, hr] at h
      cases h
    | ok u m₁ =>
      rw [effect_cons_ok hr] at h
      rw [ih h, hexec action m m₁ hr]
      rfl

/-- The value of an action holds no CRLF. -/
def ValueCrlfFree (action : Action) : Prop :=
  ∀ name value, action.data = .headerNameValue name value → CrlfFree value

theorem writesCrlfFree_of_value {action : Action} (h : ValueCrlfFree action) (fields : Fields) :
    WritesCrlfFree action fields :=
  fun f hw => h f.name f.value (Action.data_of_writes hw)

/-- What rules do to the lines of a clean header `fields w.message`: which actions they performed,
and when that injected a line. -/
def Injects (cb : Callbacks η μ Rule Action S) (fields : μ → Fields) (config : RuleConfig)
    (w w' : World η μ) : Prop :=
  ∃ done error, Reference cb config.rules w done error w' ∧
    fields w'.message = done.foldl (fun fs action => action.onFields fs) (fields w.message) ∧
    (NoInjection done (fields w.message) ↔
      EveryStep Action.onFields WritesCrlfFree done (fields w.message)) ∧
    ((∀ action ∈ config.actions, ValueCrlfFree action) → NoInjection done (fields w.message))

theorem injects_applyRules {cb : Callbacks η μ Rule Action S} {fields : μ → Fields}
    {config : RuleConfig} (hactions : cb.getActions = Rule.actions)
    (hexec : ∀ action m m', cb.executeAction action m = .ok ⟨⟩ m' →
      fields m' = action.onFields (fields m))
    (haccepted : ∀ action ∈ config.actions, action.Accepted) {w : World η μ}
    (hclean : CleanFields (fields w.message)) :
    Injects cb fields config w (stateOf (applyRules cb config.rules w)) := by
  obtain ⟨done, error, w', hr, hrun⟩ := applyRules_reference cb config.rules w
  have hstate : stateOf (applyRules cb config.rules w) = w' := by
    rw [hrun]
    cases error <;> rfl
  have hmem : ∀ action ∈ done, action ∈ config.actions := by
    intro action h
    have hin := hr.mem action h
    rwa [hactions] at hin
  have hiff := noInjection_iff (fun action h => haccepted action (hmem action h)) hclean
  rw [hstate]
  refine ⟨done, error, hr, effect_fields hexec hr.effect, hiff, fun hvalues => hiff.mpr ?_⟩
  exact everyStep_of_forall
    (fun action h => writesCrlfFree_of_value (hvalues action (hmem action h))) _

theorem executeRequestAction_fields (action : Action) (m m' : RequestHeader)
    (h : executeRequestAction action m = .ok ⟨⟩ m') : m'.fields = action.onFields m.fields := by
  obtain ⟨change, hchange, rfl⟩ := executeRequestAction_eq_ok h
  rw [Action.onFields, hchange]

theorem executeResponseAction_fields (action : Action) (m m' : ResponseHeader)
    (h : executeResponseAction action m = .ok ⟨⟩ m') : m'.fields = action.onFields m.fields := by
  obtain ⟨change, hchange, rfl⟩ := executeResponseAction_eq_ok h
  rw [Action.onFields, hchange]

theorem ruledRequest_eq (engine : Engine η) (config : RuleConfig) (w : World η RequestHeader) :
    ruledRequest engine config.http w
      = stateOf (applyRules (requestCallbacks engine) config.rules w) := by
  rcases config with ⟨schema, version, _ | http⟩
  · rfl
  · show stateOf (applyRequest engine http w) = _
    rw [applyRequest_eq]
    rfl

theorem ruledResponse_eq (engine : Engine η) (config : RuleConfig) (request : RequestHeader)
    (w : World η ResponseHeader) : ruledResponse engine config.http request w
      = stateOf (applyRules (responseCallbacks engine request) config.rules w) := by
  rcases config with ⟨schema, version, _ | http⟩
  · rfl
  · show stateOf (applyResponse engine http request w) = _
    rw [applyResponse_eq]
    rfl

/-- **Header lines of rules.**  For a file that loads and a clean message, the rules inject no line
in any state they go through exactly if no action they perform writes a value with a CRLF. -/
theorem headers_injected_iff (J : Jsoncons) (hJ : J.Lawful)
    (readTextFile : Bytes → Except CommonError Bytes) (filePath : Bytes) (config : RuleConfig)
    (hload : loadRulesFromFile J readTextFile filePath = .ok config) (engine : Engine η) :
    (∀ w : World η RequestHeader, CleanFields w.message.fields →
      Injects (requestCallbacks engine) RequestHeader.fields config w
        (ruledRequest engine config.http w)) ∧
    ∀ (request : RequestHeader) (w : World η ResponseHeader), CleanFields w.message.fields →
      Injects (responseCallbacks engine request) ResponseHeader.fields config w
        (ruledResponse engine config.http request w) := by
  have haccepted := accepted_of_loadRulesFromFile hJ hload
  refine ⟨fun w hclean => ?_, fun request w hclean => ?_⟩
  · rw [ruledRequest_eq]
    exact injects_applyRules rfl executeRequestAction_fields haccepted hclean
  · rw [ruledResponse_eq]
    exact injects_applyRules rfl executeResponseAction_fields haccepted hclean

/-- A configuration with one rule, which sets one header of every request. -/
def settingHeader (name value : Bytes) : RuleConfig :=
  ⟨none, 1, some ⟨some [⟨ascii "agent", true, .request, none,
    [⟨.set, .header, .headerNameValue name value⟩]⟩]⟩⟩

/-- A request to `a`. -/
def requestToHost : RequestHeader := ⟨ascii "GET", 11, ascii "/", [⟨ascii "Host", ascii "a"⟩]⟩

theorem cleanFields_requestToHost : CleanFields requestToHost.fields := by
  intro f hf
  obtain rfl := List.mem_singleton.mp hf
  decide

theorem headers_injected_setUserAgent : Injects (requestCallbacks Engine.scripted)
    RequestHeader.fields (settingHeader (ascii "User-Agent") (ascii "p")) ⟨[], requestToHost⟩
    (ruledRequest Engine.scripted (settingHeader (ascii "User-Agent") (ascii "p")).http
      ⟨[], requestToHost⟩) :=
  (headers_injected_iff (Jsoncons.strict [(setUserAgentText, setUserAgent)])
    (Jsoncons.strict_lawful _) (fun _ => .ok setUserAgentText) (ascii "rules.json") _
    (by decide +kernel) Engine.scripted).1 ⟨[], requestToHost⟩ cleanFields_requestToHost

/-- The same rule file with another value. -/
def crlfValueText : Bytes :=
  ascii "\x7b\"version\":1,\"http\":\x7b\"rules\":[\x7b\"name\":\"agent\",\"phase\":\"request\"," ++
  ascii "\"actions\":[\x7b\"op\":\"set\",\"target\":\"header\"," ++
  ascii "\"data\":\x7b\"name\":\"X-A\",\"value\":\"1\\r\\nContent-Length: 5\"\x7d\x7d]\x7d]\x7d\x7d"

def crlfValue : Json := .obj
  [(ascii "version", .num 1), (ascii "http", .obj [(ascii "rules", .arr [.obj
    [(ascii "name", .str (ascii "agent")), (ascii "phase", .str (ascii "request")),
      (ascii "actions", .arr [.obj
        [(ascii "op", .str (ascii "set")), (ascii "target", .str (ascii "header")),
          (ascii "data", .obj [(ascii "name", .str (ascii "X-A")),
            (ascii "value", .str (ascii "1\r\nContent-Length: 5"))])]])]])])]

/-- A value that brings a `Content-Length` line of its own. -/
theorem crlf_value_injects : ¬ ∀ (J : Jsoncons), J.Lawful → ∀ readTextFile filePath config,
    loadRulesFromFile J readTextFile filePath = .ok config →
    ∀ (engine : Engine (List (Except Error Bool))) (w : World _ RequestHeader),
      CleanFields w.message.fields →
      KeepsLines w.message.fields (ruledRequest engine config.http w).message.fields := by
  intro h
  have hlines := h (Jsoncons.strict [(crlfValueText, crlfValue)]) (Jsoncons.strict_lawful _)
    (fun _ => .ok crlfValueText) (ascii "rules.json")
    (settingHeader (ascii "X-A") (ascii "1\r\nContent-Length: 5")) (by decide +kernel)
    Engine.scripted ⟨[], requestToHost⟩ cleanFields_requestToHost
  have hround := hlines.roundTrips
  revert hround
  unfold RoundTrips
  decide +kernel

end ProxyPP.Rules
