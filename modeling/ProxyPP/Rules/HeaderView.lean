import ProxyPP.Qjs.Filling
import ProxyPP.Rules.Injection

/-!
# ProxyPP.Rules.HeaderView — what an expression sees of the headers

`headerView` is the single-valued map of a field list, from names in lower case to the value of the
last field of the name.  The actions on the field list are the operations of maps on it
(`FieldChange.headerView_apply`).

`objectView` is the same map in the names and texts that QuickJS makes of the bytes: it is what the
headers object of a match context shows (`RequestInjected.shows`, `ResponseInjected.shows`) under
every name but `__proto__`, which no header can be stored under.  Where QuickJS tells the names
apart, as it does for all names that a header can have, `objectView` is the view with its values
decoded (`objectView_nameOf`).
-/

namespace ProxyPP.Rules

open ProxyPP ProxyPP.Lib ProxyPP.Http ProxyPP.Qjs

/-! ## The view of a field list -/

/-- The value of the last field of each name in lower case. -/
def headerView (fields : Fields) : Bytes → Option Bytes :=
  Option.map Field.value ∘ MultiMap.last Field.key fields

/-- A change as an operation on the view. -/
def FieldChange.onView : FieldChange → (Bytes → Option Bytes) → Bytes → Option Bytes
  | set name value, V => Function.update V (toLower name) (some value)
  | add name value, V =>
    if (V (toLower name)).isSome then V else Function.update V (toLower name) (some value)
  | replace name value, V =>
    if (V (toLower name)).isSome then Function.update V (toLower name) (some value) else V
  | remove name, V => Function.update V (toLower name) none

theorem headerView_eq_none_iff {fields : Fields} {key : Bytes} :
    headerView fields key = none ↔ ∀ f ∈ fields, toLower f.name ≠ key := by
  rw [headerView, Function.comp_apply, Option.map_eq_none_iff, MultiMap.last_eq_none_iff]
  rfl

/-- The last field whose name equals `name` up to case. -/
theorem headerView_eq_some_iff {fields : Fields} {name value : Bytes} :
    headerView fields (toLower name) = some value ↔ ∃ pre f post, fields = pre ++ f :: post ∧
      toLower f.name = toLower name ∧ (∀ f' ∈ post, toLower f'.name ≠ toLower name) ∧
        f.value = value := by
  rw [headerView, Function.comp_apply, Option.map_eq_some_iff]
  simp only [MultiMap.last_eq_some_iff]
  constructor
  · rintro ⟨f, ⟨pre, post, rfl, hkey, hpost⟩, rfl⟩
    exact ⟨pre, f, post, rfl, hkey, hpost, rfl⟩
  · rintro ⟨pre, f, post, rfl, hkey, hpost, rfl⟩
    exact ⟨f, ⟨pre, post, rfl, hkey, hpost⟩, rfl⟩

theorem headerView_set (name value : Bytes) (fields : Fields) :
    headerView (Fields.set name value fields)
      = Function.update (headerView fields) (toLower name) (some value) := by
  rw [headerView, Fields.set, MultiMap.last_set, Function.comp_update]
  rfl

theorem headerView_erase (name : Bytes) (fields : Fields) :
    headerView (Fields.erase name fields)
      = Function.update (headerView fields) (toLower name) none := by
  rw [headerView, Fields.erase, MultiMap.last_erase, Function.comp_update]
  rfl

/-- `contains` is a look into the view. -/
theorem contains_eq_isSome (name : Bytes) (fields : Fields) :
    Fields.contains name fields = (headerView fields (toLower name)).isSome := by
  rw [Fields.contains, MultiMap.hasKey_eq_isSome_last, headerView, Function.comp_apply,
    Option.isSome_map]

/-- **The view is a homomorphism**: a change of the fields is the map operation on the view. -/
theorem FieldChange.headerView_apply (change : FieldChange) (fields : Fields) :
    headerView (change.apply fields) = change.onView (headerView fields) := by
  cases change with
  | set name value => exact headerView_set name value fields
  | add name value =>
    rw [apply, onView, contains_eq_isSome]
    split_ifs
    · rfl
    · exact headerView_set name value fields
  | replace name value =>
    rw [apply, onView, contains_eq_isSome]
    split_ifs
    · exact headerView_set name value fields
    · rfl
  | remove name => exact headerView_erase name fields

/-- The actions that were performed, as one change after the other. -/
theorem effect_headerView {μ : Type} {fields : μ → Fields}
    {executeAction : Action → EStateM Error μ PUnit}
    (hexec : ∀ {action m m'}, executeAction action m = .ok ⟨⟩ m' →
      ∃ change, changeOf action = .ok change ∧ fields m' = change.apply (fields m))
    {done : List Action} {m m' : μ} (h : effect executeAction done m = some m') :
    ∃ changes : List FieldChange, done.map changeOf = changes.map .ok ∧
      headerView (fields m') = changes.foldl (fun V change => change.onView V)
        (headerView (fields m)) := by
  induction done generalizing m with
  | nil =>
    rw [effect] at h
    obtain rfl := Option.some.inj h
    exact ⟨[], rfl, rfl⟩
  | cons action done ih =>
    cases hr : executeAction action m with
    | ok u m₁ =>
      rw [effect_cons_ok hr] at h
      obtain ⟨change, hchange, hfields⟩ := hexec hr
      obtain ⟨changes, hdone, hview⟩ := ih h
      refine ⟨change :: changes, by rw [List.map_cons, hchange, hdone, List.map_cons], ?_⟩
      rw [hview, hfields, change.headerView_apply]
      rfl
    | error e m₁ =>
      rw [effect, hr] at h
      cases h

/-! ## The headers object -/

variable {N J T : Type} [DecidableEq T] {Q : QuickJs N J} {O : Observation N J T}

/-- The decoded value of the last field of each decoded name in lower case. -/
def objectView (O : Observation N J T) (fields : Fields) : T → Option T :=
  Option.map (O.textOf ∘ Field.value) ∘ MultiMap.last (O.nameOf ∘ Field.key) fields

/-- QuickJS reads no other name of the fields as `name`. -/
def ReadsApart (O : Observation N J T) (fields : Fields) (name : Bytes) : Prop :=
  ∀ f ∈ fields, O.nameOf (Field.key f) = O.nameOf name → Field.key f = name

/-- A name that is told apart has its entry of the view. -/
theorem objectView_nameOf {fields : Fields} {name : Bytes} (h : ReadsApart O fields name) :
    objectView O fields (O.nameOf name) = (headerView fields name).map O.textOf := by
  have hkeys : MultiMap.withKey (O.nameOf ∘ Field.key) (O.nameOf name) fields
      = MultiMap.withKey Field.key name fields := by
    refine List.filter_congr fun f hf => decide_eq_decide.mpr ⟨h f hf, fun hkey => ?_⟩
    exact congrArg O.nameOf hkey
  have hlast : MultiMap.last (O.nameOf ∘ Field.key) fields (O.nameOf name)
      = MultiMap.last Field.key fields name := congrArg List.getLast? hkeys
  rw [objectView, Function.comp_apply, hlast, headerView, Function.comp_apply, Option.map_map]

theorem plainName_toLower {name : Bytes} (h : PlainName name) : PlainName (toLower name) := by
  intro b hb
  obtain ⟨a, ha, rfl⟩ := List.mem_map.mp hb
  obtain ⟨hpos, hlt⟩ := h a ha
  unfold toLowerByte
  split_ifs with hupper
  · obtain ⟨hlo, hhi⟩ := hupper
    rw [UInt8.lt_iff_toNat_lt, UInt8.lt_iff_toNat_lt, UInt8.toNat_add]
    rw [UInt8.le_iff_toNat_le] at hlo hhi
    simp only [UInt8.reduceToNat] at hlo hhi ⊢
    omega
  · exact ⟨hpos, hlt⟩

/-- Plain names are told apart. -/
theorem readsApart_of_plain (laws : Q.PlainObjects O) {fields : Fields}
    (hfields : ∀ f ∈ fields, PlainName f.name) {name : Bytes} (hname : PlainName name) :
    ReadsApart O fields name :=
  fun f hf h => laws.nameOf_injOn (plainName_toLower (hfields f hf)) hname h

/-- The properties of the object `t` are the entries of `W`, each a string. -/
structure Shows (O : Observation N J T) (n : N) (t : J) (W : T → Option T) : Prop where
  plain : O.plain n t
  own : ∀ name, O.own n t name = if name = O.nameOf protoName then none else (W name).map .text

namespace Shows

theorem keeps {n n' : N} {t : J} {W : T → Option T} (h : Shows O n t W)
    (hkeeps : O.KeepsObject n n' t) : Shows O n' t W := by
  obtain ⟨hplain, hown⟩ := hkeeps h.plain
  exact ⟨hplain, fun name => by rw [hown, h.own]⟩

/-- A header that is stored. -/
theorem stores (laws : Q.PlainObjects O) {context : JSContext} {object : Value J}
    {name value : Bytes} {r r' : Runtime N J} {W : T → Option T}
    (hs : (Setter.setString name value).Stores Q context object r r')
    (h : Shows O r.native (object.nativeHandle Q).value W) :
    Shows O r'.native (object.nativeHandle Q).value
        (Function.update W (O.nameOf name) (some (O.textOf value))) ∧
      O.Frame (object.nativeHandle Q).value r.native r'.native := by
  have hw : O.Writes (object.nativeHandle Q).value (O.nameOf name) (.text (O.textOf value))
      r.native r'.native := hs.writes laws h.plain rfl (by simp)
  refine ⟨⟨hw.plain, fun k => ?_⟩, hw.frame fun old hold => ?_⟩
  · by_cases hname : O.nameOf name = O.nameOf protoName
    · rw [hw.proto hname ⟨O.textOf value, rfl⟩, h.own]
      split_ifs with hk
      · rfl
      · rw [Function.update_of_ne (by rw [hname]; exact hk)]
    · rw [hw.own hname, Function.update_apply, Function.update_apply, h.own]
      by_cases hk : k = O.nameOf name
      · rw [if_pos hk, if_pos hk, if_neg (by rw [hk]; exact hname)]
        rfl
      · rw [if_neg hk, if_neg hk]
  · rw [h.own] at hold
    split_ifs at hold
    obtain ⟨s, -, rfl⟩ := Option.map_eq_some_iff.mp hold
    exact ⟨s, rfl⟩

/-- The loop over the headers. -/
theorem storesAll (laws : Q.PlainObjects O) {context : JSContext} {object : Value J}
    {fields : Fields} {r r' : Runtime N J} {W : T → Option T}
    (hs : StoresAll Q context object (headerSetters fields) r r')
    (h : Shows O r.native (object.nativeHandle Q).value W) :
    Shows O r'.native (object.nativeHandle Q).value
        (fields.foldl (fun W f =>
          Function.update W ((O.nameOf ∘ Field.key) f) (some ((O.textOf ∘ Field.value) f))) W) ∧
      O.Frame (object.nativeHandle Q).value r.native r'.native := by
  induction fields generalizing r W with
  | nil =>
    cases hs
    exact ⟨h, .refl _ _⟩
  | cons f fields ih =>
    cases hs with
    | cons hf hrest =>
      obtain ⟨hshows, hframe⟩ := h.stores laws hf
      obtain ⟨hshows', hframe'⟩ := ih hrest hshows
      exact ⟨hshows', hframe.trans hframe'⟩

end Shows

/-- **`BuildHeaderObject`**: the object shows the decoded view of the fields. -/
theorem Built.shows (laws : Q.PlainObjects O) {context : JSContext} {object : Value J}
    {fields : Fields} {r r' : Runtime N J}
    (h : Built Q context (headerSetters fields) object r r') :
    O.Keeps r.native r'.native ∧ O.Fresh r.native r'.native (object.nativeHandle Q).value ∧
      Shows O r'.native (object.nativeHandle Q).value (objectView O fields) := by
  obtain ⟨r₀, hnew, hall⟩ := h
  obtain ⟨hkeeps, hfresh, hempty⟩ := object_new laws hnew
  have hstart : Shows O r₀.native (object.nativeHandle Q).value fun _ => none :=
    ⟨hfresh.1, fun name => by simp [hempty]⟩
  obtain ⟨hshows, hframe⟩ := hstart.storesAll laws hall
  rw [MultiMap.foldl_update_eq_last] at hshows
  exact ⟨hframe.keeps hkeeps hfresh.2, ⟨hshows.plain, hfresh.2⟩, hshows⟩

/-! ## The context object -/

/-- The setters of an object of the context: different names, and objects that exist. -/
structure Ready (Q : QuickJs N J) (O : Observation N J T) (n : N) (ss : List (Setter J)) :
    Prop where
  names : (protoName :: ss.map Setter.name).Nodup
  plain : ∀ name ∈ protoName :: ss.map Setter.name, PlainName name
  content : ∀ s ∈ ss, ∃ ρ, s.content Q O = some ρ ∧ ∀ t, ρ = .object t → O.plain n t

/-- QuickJS tells the names apart. -/
theorem Ready.keys (laws : Q.PlainObjects O) {n : N} {ss : List (Setter J)}
    (h : Ready Q O n ss) : (O.nameOf protoName :: ss.map (Setter.key O)).Nodup := by
  have hmap : (protoName :: ss.map Setter.name).map O.nameOf
      = O.nameOf protoName :: ss.map (Setter.key O) := by
    rw [List.map_cons, List.map_map]
    rfl
  rw [← hmap]
  exact h.names.map_on fun a ha b hb hab => laws.nameOf_injOn (h.plain a ha) (h.plain b hb) hab

/-- An object that was built has the content of every setter. -/
theorem Built.own (laws : Q.PlainObjects O) {context : JSContext} {object : Value J}
    {ss : List (Setter J)} {r r' : Runtime N J} (h : Built Q context ss object r r')
    (hready : Ready Q O r.native ss) :
    O.Keeps r.native r'.native ∧ O.Fresh r.native r'.native (object.nativeHandle Q).value ∧
      ∀ s ∈ ss, O.own r'.native (object.nativeHandle Q).value (s.key O) = s.content Q O := by
  obtain ⟨r₀, hnew, hall⟩ := h
  obtain ⟨hkeeps, hfresh, hempty⟩ := object_new laws hnew
  obtain ⟨hproto, hnames⟩ := List.nodup_cons.mp (hready.keys laws)
  have hproto' : ∀ s ∈ ss, s.key O ≠ O.nameOf protoName := by
    intro s hs hname
    exact hproto (hname ▸ List.mem_map_of_mem hs)
  have hcontent : ∀ s ∈ ss, ∃ ρ, s.content Q O = some ρ ∧
      ∀ t, ρ = .object t → O.plain r₀.native t ∧ t ≠ (object.nativeHandle Q).value := by
    intro s hs
    obtain ⟨ρ, hρ, hobj⟩ := hready.content s hs
    refine ⟨ρ, hρ, fun t ht => ⟨(hkeeps.objects t (hobj t ht)).1, ?_⟩⟩
    rintro rfl
    exact hfresh.2 (hobj _ ht)
  obtain ⟨hplain, hframe, -, hown⟩ := hall.fresh laws hfresh.1 hnames
    (fun s hs => ⟨hproto' s hs, hempty _⟩) hcontent
  exact ⟨hframe.keeps hkeeps hfresh.2, ⟨hplain, hfresh.2⟩, hown⟩

/-- A path into an object that a setter passed on, from the object that was built. -/
theorem Built.leads (laws : Q.PlainObjects O) {context : JSContext} {object part : Value J}
    {ss : List (Setter J)} {r₀ r r' : Runtime N J} (h : Built Q context ss object r r')
    (hready : Ready Q O r.native ss) (hstart : O.Keeps r₀.native r.native) {name : Bytes}
    (hmem : .setObject name part ∈ ss) {path : List T} {t : J} {W : T → Option T}
    (hpath : O.Leads r₀.native r.native (part.nativeHandle Q).value path t)
    (hshows : Shows O r.native t W) :
    O.Leads r₀.native r'.native (object.nativeHandle Q).value (O.nameOf name :: path) t ∧
      Shows O r'.native t W := by
  obtain ⟨hkeeps, hfresh, hown⟩ := h.own laws hready
  have hpart : O.own r'.native (object.nativeHandle Q).value (O.nameOf name)
      = some (.object (part.nativeHandle Q).value) := hown _ hmem
  exact ⟨.step (hstart.fresh hfresh) hpart (hpath.keeps hkeeps), hshows.keeps (hkeeps.objects t)⟩

/-- An object that passes on a headers object, as a part of the context. -/
structure ShowsHeaders (Q : QuickJs N J) (O : Observation N J T) (r r' : Runtime N J)
    (object : Value J) (W : T → Option T) : Prop where
  keeps : O.Keeps r.native r'.native
  shows : ∃ t, O.Leads r.native r'.native (object.nativeHandle Q).value
      [O.nameOf (ascii "headers")] t ∧ Shows O r'.native t W

theorem ShowsHeaders.of_built (laws : Q.PlainObjects O) {context : JSContext}
    {headers object : Value J} {fields : Fields} {ss : List (Setter J)} {r r₁ r' : Runtime N J}
    (hh : Built Q context (headerSetters fields) headers r r₁)
    (h : Built Q context ss object r₁ r')
    (hready : O.plain r₁.native (headers.nativeHandle Q).value → Ready Q O r₁.native ss)
    (hmem : .setObject (ascii "headers") headers ∈ ss) :
    ShowsHeaders Q O r r' object (objectView O fields) := by
  obtain ⟨hkeeps, hfresh, hshows⟩ := hh.shows laws
  have hr := hready hfresh.1
  exact ⟨hkeeps.trans (h.own laws hr).1, _, h.leads laws hr hkeeps hmem (.here hfresh) hshows⟩

theorem RequestBuilt.shows (laws : Q.PlainObjects O) {context : JSContext}
    {request : RequestHeader} {object : Value J} {r r' : Runtime N J}
    (h : RequestBuilt Q context request object r r') :
    ShowsHeaders Q O r r' object (objectView O request.fields) := by
  obtain ⟨headers, r₁, hh, hreq⟩ := h
  refine .of_built laws hh hreq (fun hplain => ⟨?_, ?_, ?_⟩) (by simp [requestSetters])
  · show [protoName, ascii "method", ascii "target", ascii "version", ascii "headers"].Nodup
    decide
  · show ∀ name ∈ [protoName, ascii "method", ascii "target", ascii "version", ascii "headers"],
      PlainName name
    decide
  · simp [requestSetters, Setter.content, hplain]

theorem ResponseBuilt.shows (laws : Q.PlainObjects O) {B : Beast} {context : JSContext}
    {response : ResponseHeader} {object : Value J} {r r' : Runtime N J}
    (h : ResponseBuilt Q B context response object r r') :
    ShowsHeaders Q O r r' object (objectView O response.fields) := by
  obtain ⟨headers, r₁, hh, hres⟩ := h
  refine .of_built laws hh hres (fun hplain => ⟨?_, ?_, ?_⟩) (by simp [responseSetters])
  · show [protoName, ascii "status", ascii "reason", ascii "version", ascii "headers"].Nodup
    decide
  · show ∀ name ∈ [protoName, ascii "status", ascii "reason", ascii "version", ascii "headers"],
      PlainName name
    decide
  · simp [responseSetters, Setter.content, hplain]

/-- **The global object.**  A value made since `r₀`, when the global object existed already, becomes
a property of it, and every path behind the value stays. -/
theorem GlobalSet.own (laws : Q.PlainObjects O) {context : JSContext} {name : Bytes}
    {value : Value J} {r₀ r r' : Runtime N J} (h : GlobalSet Q context name value r r')
    (hname : O.nameOf name ≠ O.nameOf protoName) (hstart : O.Keeps r₀.native r.native)
    (hvalue : O.Fresh r₀.native r.native (value.nativeHandle Q).value) :
    ∃ g, O.global r'.native context = some g ∧
      O.own r'.native g (O.nameOf name) = some (.object (value.nativeHandle Q).value) ∧
      ∀ path t, O.Leads r₀.native r.native (value.nativeHandle Q).value path t →
        O.Leads r₀.native r'.native (value.nativeHandle Q).value path t ∧
          O.KeepsObject r.native r'.native t := by
  obtain ⟨global, r₁, r₂, hglobal, hset, rfl⟩ := h
  obtain ⟨hc, g, r₁', hmake, rfl, rfl⟩ := create_eq_ok hglobal
  obtain ⟨n₁, hget, rfl⟩ := call_eq_ok.mp hmake
  obtain ⟨-, -, n₂, hcall, rfl⟩ := setProperty_eq_ok hset
  obtain ⟨hkeeps, hg⟩ := laws.getGlobalObject _ _ _ _ hget
  have hfree : O.Keeps r₂.native (((Value.owner ⟨r.created, context, g⟩).destroy Q r₂).native) := by
    rw [Value.destroy_eq, Value.owned_owner hc]
    exact laws.freeGlobal _ _ _ _ _ _ _ _ hget hcall
  have hg₀ : O.plain r₀.native g := laws.global_plain context _ g (by rw [← hstart.global, hg])
  have hg₁ : O.plain n₁ g := (hkeeps.objects g (hstart.objects g hg₀).1).1
  have hv₁ : O.plain n₁ (value.nativeHandle Q).value := (hkeeps.objects _ hvalue.1).1
  have hread : O.read n₁ (value.nativeHandle Q).value
      = some (.object (value.nativeHandle Q).value) := laws.read_plain _ _ hv₁
  obtain ⟨hw, hhangs⟩ := laws.setPropertyStr _ _ _ _ _ _ _ _ hg₁ hread hcall
  refine ⟨g, ?_, ?_, fun path t hpath => ?_⟩
  · rw [hfree.global, hw.global, hkeeps.global, hg]
  · rw [(hfree.objects g hw.plain).2, hw.own hname, Function.update_self]
  · obtain ⟨hpath₁, ht₁⟩ := hpath.kept fun t' _ _ => hkeeps.objects t'
    -- The set may free what hung on the global object before, but nothing that hangs on the value.
    obtain ⟨hpath₂, ht₂⟩ := hpath₁.kept fun t' hfresh hhang => by
      refine hhangs t' ?_ hhang
      rintro rfl
      exact hfresh.2 hg₀
    exact ⟨hpath₂.keeps hfree, (ht₁.trans ht₂).trans (hfree.objects t)⟩

/-- `ctx.<message>.headers.<name>` -/
def headerPath (O : Observation N J T) (message : Bytes) (name : T) : List T :=
  [O.nameOf (ascii "ctx"), O.nameOf message, O.nameOf (ascii "headers"), name]

/-- `ctx.<message>.headers` shows `W`. -/
def ContextShows (O : Observation N J T) (n : N) (context : MatchContext) (message : Bytes)
    (W : T → Option T) : Prop :=
  ∃ g, O.global n context.scriptContext = some g ∧
    ∀ name, O.property n g (headerPath O message name)
      = if name = O.nameOf protoName then none else (W name).map .text

/-- An object on the global object under `ctx` that passes on a message. -/
theorem ContextShows.of_leads (laws : Q.PlainObjects O) {context : MatchContext}
    {ctxObj : Value J} {message : Bytes} {t : J} {W : T → Option T} {r₀ r r' : Runtime N J}
    (hset : GlobalSet Q context.scriptContext (ascii "ctx") ctxObj r r')
    (hstart : O.Keeps r₀.native r.native)
    (hpath : O.Leads r₀.native r.native (ctxObj.nativeHandle Q).value
      [O.nameOf message, O.nameOf (ascii "headers")] t)
    (hshows : Shows O r.native t W) : ContextShows O r'.native context message W := by
  have hname : O.nameOf (ascii "ctx") ≠ O.nameOf protoName := fun h =>
    absurd (laws.nameOf_injOn (show PlainName _ by decide) (show PlainName _ by decide) h)
      (by decide)
  obtain ⟨g, hg, hctx, hkept⟩ := hset.own laws hname hstart hpath.fresh
  obtain ⟨hpath', ht⟩ := hkept _ _ hpath
  have hshows' := hshows.keeps ht
  refine ⟨g, hg, fun name => ?_⟩
  have hprop : O.property r'.native g (headerPath O message name)
      = O.property r'.native t [name] := by
    rw [headerPath, Observation.property, hctx]
    exact hpath'.property_eq [name]
  rw [hprop, Observation.property, hshows'.own]
  by_cases hname : name = O.nameOf protoName
  · rw [if_pos hname]
  · rw [if_neg hname]
    cases W name with
    | none => rfl
    | some s => rfl

theorem RequestInjected.shows (laws : Q.PlainObjects O) {context : MatchContext}
    {request : RequestHeader} {r r' : Runtime N J} (h : RequestInjected Q context request r r') :
    ContextShows O r'.native context (ascii "request") (objectView O request.fields) := by
  obtain ⟨requestObj, ctxObj, r₁, r₂, hreq, hctx, hset⟩ := h
  obtain ⟨hkeeps, t, hpath, hshows⟩ := hreq.shows laws
  have hready : Ready Q O r₁.native (requestContextSetters requestObj) := by
    refine ⟨?_, ?_, ?_⟩
    · show [protoName, ascii "phase", ascii "request"].Nodup
      decide
    · show ∀ name ∈ [protoName, ascii "phase", ascii "request"], PlainName name
      decide
    · simp [requestContextSetters, Setter.content, hpath.fresh.1]
  have hmem : Setter.setObject (ascii "request") requestObj ∈ requestContextSetters requestObj := by
    simp [requestContextSetters]
  obtain ⟨hpath', hshows'⟩ := hctx.leads laws hready hkeeps hmem hpath hshows
  exact .of_leads laws hset (hkeeps.trans (hctx.own laws hready).1) hpath' hshows'

theorem ResponseInjected.shows (laws : Q.PlainObjects O) {B : Beast} {context : MatchContext}
    {request : RequestHeader} {response : ResponseHeader} {r r' : Runtime N J}
    (h : ResponseInjected Q B context request response r r') :
    ContextShows O r'.native context (ascii "request") (objectView O request.fields) ∧
      ContextShows O r'.native context (ascii "response") (objectView O response.fields) := by
  obtain ⟨requestObj, responseObj, ctxObj, r₁, r₂, r₃, hreq, hres, hctx, hset⟩ := h
  obtain ⟨hkeeps₁, t, hpath, hshows⟩ := hreq.shows laws
  obtain ⟨hkeeps₂, u, hpath', hshows'⟩ := hres.shows laws
  have hready : Ready Q O r₂.native (responseContextSetters requestObj responseObj) := by
    refine ⟨?_, ?_, ?_⟩
    · show [protoName, ascii "phase", ascii "request", ascii "response"].Nodup
      decide
    · show ∀ name ∈ [protoName, ascii "phase", ascii "request", ascii "response"], PlainName name
      decide
    · simp [responseContextSetters, Setter.content, hpath'.fresh.1,
        (hkeeps₂.objects _ hpath.fresh.1).1]
  have hkeeps := hkeeps₁.trans hkeeps₂
  have hkeeps₃ := hkeeps.trans (hctx.own laws hready).1
  have hmem : Setter.setObject (ascii "request") requestObj
      ∈ responseContextSetters requestObj responseObj := by simp [responseContextSetters]
  have hmem' : Setter.setObject (ascii "response") responseObj
      ∈ responseContextSetters requestObj responseObj := by simp [responseContextSetters]
  constructor
  · obtain ⟨hlead, hshow⟩ := hctx.leads laws hready hkeeps hmem (hpath.keeps hkeeps₂)
      (hshows.keeps (hkeeps₂.objects t))
    exact .of_leads laws hset hkeeps₃ hlead hshow
  · obtain ⟨hlead, hshow⟩ := hctx.leads laws hready hkeeps hmem' (hpath'.since hkeeps₁) hshows'
    exact .of_leads laws hset hkeeps₃ hlead hshow

/-! ## What later rules see -/

section Runs

variable {μ : Type} {B : Beast} {E : Evaluator N J}

/-- What is evaluated in a context that a rule behind `pre` fills sees the headers of
`ctx.<message>` under all changes that the rules of `pre` made. -/
def SeesEarlierRules (O : Observation N J T)
    (cb : Callbacks (Runtime N J) μ Rule Action (qjsEngine Q B E).script) (fields : μ → Fields)
    (message : Bytes) : Prop :=
  ∀ pre w done w₁, Reference cb pre w done none w₁ →
    ∃ changes : List FieldChange, done.map changeOf = changes.map .ok ∧
      headerView (fields w₁.message) = changes.foldl (fun V change => change.onView V)
        (headerView (fields w.message)) ∧
      ∀ context context' h h', cb.injectContext context w₁.message h = .ok context' h' →
        ContextShows O h'.native context' message (objectView O (fields w₁.message))

theorem SeesEarlierRules.of_injectContext
    {cb : Callbacks (Runtime N J) μ Rule Action (qjsEngine Q B E).script} {fields : μ → Fields}
    {message : Bytes}
    (hexec : ∀ {action m m'}, cb.executeAction action m = .ok ⟨⟩ m' →
      ∃ change, changeOf action = .ok change ∧ fields m' = change.apply (fields m))
    (hshows : ∀ context context' m h h', cb.injectContext context m h = .ok context' h' →
      ContextShows O h'.native context' message (objectView O (fields m))) :
    SeesEarlierRules O cb fields message := by
  intro pre w done w₁ hrun
  obtain ⟨changes, hdone, hview⟩ := effect_headerView hexec hrun.effect
  exact ⟨changes, hdone, hview, fun context context' h h' hinject =>
    hshows context context' w₁.message h h' hinject⟩

end Runs

/-- **The match context is a homomorphic view.**  The headers object of a field list has the last
value of each name in lower case, up to `__proto__`, and no other entry, names and values as QuickJS
decodes them; an action that is accepted is its map operation on the view; and the context of a
later rule shows the view under all changes that the earlier rules made. -/
theorem header_view_homomorphic (laws : Q.PlainObjects O) :
    (∀ fields context r object r', buildHeaderObject Q fields context r = .ok object r' →
      Shows O r'.native (object.nativeHandle Q).value (objectView O fields)) ∧
    (∀ fields name, ReadsApart O fields name →
      objectView O fields (O.nameOf name) = (headerView fields name).map O.textOf) ∧
    (∀ fields : Fields, (∀ f ∈ fields, PlainName f.name) → ∀ name, PlainName name →
      ReadsApart O fields name) ∧
    (∀ fields name value, headerView fields (toLower name) = some value ↔ ∃ pre f post,
      fields = pre ++ f :: post ∧ toLower f.name = toLower name ∧
        (∀ f' ∈ post, toLower f'.name ≠ toLower name) ∧ f.value = value) ∧
    (∀ fields key, headerView fields key = none ↔ ∀ f ∈ fields, toLower f.name ≠ key) ∧
    (∀ action m m', executeRequestAction action m = .ok ⟨⟩ m' → ∃ change,
      changeOf action = .ok change ∧ headerView m'.fields = change.onView (headerView m.fields)) ∧
    (∀ action m m', executeResponseAction action m = .ok ⟨⟩ m' → ∃ change,
      changeOf action = .ok change ∧ headerView m'.fields = change.onView (headerView m.fields)) ∧
    ∀ (B : Beast) (E : Evaluator N J),
      SeesEarlierRules O (requestCallbacks (qjsEngine Q B E)) RequestHeader.fields
        (ascii "request") ∧
      ∀ request,
        SeesEarlierRules O (responseCallbacks (qjsEngine Q B E) request) ResponseHeader.fields
          (ascii "response") ∧
        ∀ context context' response h h',
          (responseCallbacks (qjsEngine Q B E) request).injectContext context response h
              = .ok context' h' →
            ContextShows O h'.native context' (ascii "request") (objectView O request.fields) := by
  refine ⟨?_, fun _ _ => objectView_nameOf, fun _ hfields _ => readsApart_of_plain laws hfields,
    fun _ _ _ => headerView_eq_some_iff, fun _ _ => headerView_eq_none_iff, ?_, ?_,
    fun B E => ⟨?_, fun request => ⟨?_, ?_⟩⟩⟩
  · intro fields context r object r' h
    exact ((buildObject_eq_ok_iff.mp h).shows laws).2.2
  · intro action m m' h
    obtain ⟨change, hchange, rfl⟩ := executeRequestAction_eq_ok h
    exact ⟨change, hchange, change.headerView_apply m.fields⟩
  · intro action m m' h
    obtain ⟨change, hchange, rfl⟩ := executeResponseAction_eq_ok h
    exact ⟨change, hchange, change.headerView_apply m.fields⟩
  · refine .of_injectContext (fun h => ?_) fun context context' m h h' hinject => ?_
    · obtain ⟨change, hchange, rfl⟩ := executeRequestAction_eq_ok h
      exact ⟨change, hchange, rfl⟩
    obtain ⟨rfl, hfilled⟩ := requestCallbacks_filled hinject
    exact hfilled.shows laws
  · refine .of_injectContext (fun h => ?_) fun context context' m h h' hinject => ?_
    · obtain ⟨change, hchange, rfl⟩ := executeResponseAction_eq_ok h
      exact ⟨change, hchange, rfl⟩
    obtain ⟨rfl, hfilled⟩ := responseCallbacks_filled hinject
    exact (hfilled.shows laws).2
  · intro context context' response h h' hinject
    obtain ⟨rfl, hfilled⟩ := responseCallbacks_filled hinject
    exact (hfilled.shows laws).1

/-- A request with a repeated header and one that no object shows. -/
def repeatedHeader : RequestHeader :=
  ⟨ascii "GET", 11, ascii "/", [⟨ascii "X-A", ascii "1"⟩, ⟨ascii "__proto__", ascii "p"⟩,
    ⟨ascii "x-a", ascii "3"⟩]⟩

theorem header_view_homomorphic_repeated :
    let Q := QuickJs.tables fun _ => true
    let cb := requestCallbacks (qjsEngine Q HeadTable.minimal.beast (.const true))
    let O := Observation.tables
    ∃ w h', applyRules cb [addsHeader] ⟨oneHeader.script, repeatedHeader⟩ = .ok ⟨⟩ w ∧
      cb.injectContext ⟨1⟩ w.message w.script = .ok ⟨1⟩ h' ∧
      ∃ g, O.global h'.native 1 = some g ∧
        O.property h'.native g (headerPath O (ascii "request") (ascii "x-a"))
          = some (.text (ascii "3")) ∧
        O.property h'.native g (headerPath O (ascii "request") (ascii "x-b"))
          = some (.text (ascii "2")) ∧
        O.property h'.native g (headerPath O (ascii "request") protoName) = none := by
  intro Q cb O
  let action : Action := ⟨.add, .header, .headerNameValue (ascii "X-B") (ascii "2")⟩
  let request : RequestHeader :=
    { repeatedHeader with fields := repeatedHeader.fields ++ [⟨ascii "X-B", ascii "2"⟩] }
  have href : Reference cb [addsHeader] ⟨oneHeader.script, repeatedHeader⟩ ([action] ++ []) none
      ⟨oneHeader.script, request⟩ :=
    .performed (.unconditional rfl rfl) ⟨rfl, fun _ => rfl, by simp⟩ (.nil _)
  have hsome : (returned (cb.injectContext ⟨1⟩ request oneHeader.script)).isSome = true := by
    decide +kernel
  obtain ⟨⟨context', h'⟩, hp⟩ := Option.isSome_iff_exists.mp hsome
  have hinject := returned_eq_some.mp hp
  obtain ⟨rfl, -⟩ := requestCallbacks_filled hinject
  have hlaws := QuickJs.tables_plainObjects fun _ => true
  have hsees :=
    ((header_view_homomorphic hlaws).2.2.2.2.2.2.2 HeadTable.minimal.beast (.const true)).1
  obtain ⟨-, -, -, hshows⟩ := hsees _ _ _ _ href
  obtain ⟨g, hg, hview⟩ := hshows _ _ _ _ hinject
  refine ⟨_, h', applyRules_of_reference href, hinject, g, hg, ?_, ?_, ?_⟩
  · rw [hview]
    decide +kernel
  · rw [hview]
    decide +kernel
  · exact (hview protoName).trans (if_pos rfl)

end ProxyPP.Rules
