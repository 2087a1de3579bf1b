import ProxyPP.Qjs.PlainObjects
import ProxyPP.Rules.ContextInjector

/-!
# ProxyPP.Rules.Injection — no rule runs on a partial context

Injection succeeds exactly if every header and every other field of the context object was stored
(`injectRequestContext_eq_ok_iff`, `injectResponseContext_eq_ok_iff`).  `FailsClosed` says what that
is for: an expression is evaluated in a completely filled context, and the first injection that
fails is the end of the run, with the message as the earlier rules left it.
-/

namespace ProxyPP.Rules

open ProxyPP ProxyPP.Lib ProxyPP.Http ProxyPP.Qjs

/-! ## Rule runs with failing injections -/

section Runs

variable {η μ R A : Type} {S : Script η}

/-- The run gets to `rule`, which has an expression, and its context is made but not filled. -/
structure NotFilled (cb : Callbacks η μ R A S) (pre : List R) (rule : R) (w w₁ : World η μ)
    (e : Error) (h : η) : Prop where
  ran : applyRules cb pre w = .ok ⟨⟩ w₁
  filter : cb.filter rule = true
  hasMatch : ∃ m, cb.getMatch rule = some m
  failed : ∃ context h₁, createMatchContext S w₁.script = .ok context h₁ ∧
    cb.injectContext context w₁.message h₁ = .error e h

/-- `filled` is what a context owes to its message before a rule may use it. -/
structure FailsClosed (cb : Callbacks η μ R A S) (filled : S.Context → μ → η → η → Prop) :
    Prop where
  /-- A rule whose expression has a value was evaluated in a filled context. -/
  evaluated : ∀ {rule mt m h matched h'}, cb.filter rule = true → cb.getMatch rule = some mt →
    Decides cb rule m h (.ok matched) h' → ∃ context h₁ h₂,
      createMatchContext S h = .ok context h₁ ∧ filled context m h₁ h₂ ∧
        evaluateMatch S context mt.expr h₂ = .ok matched h'
  /-- Behind a context that was not filled nothing runs: neither the expression, whatever it is, nor
  an action of the rule or of a later one. -/
  stopped : ∀ {pre rule w w₁ e h}, NotFilled cb pre rule w w₁ e h → ∀ post,
    applyRules cb (pre ++ rule :: post) w = .error e ⟨h, w₁.message⟩ ∧
      ∃ done, Reference cb pre w done none w₁ ∧
        Reference cb (pre ++ rule :: post) w done (some e) ⟨h, w₁.message⟩

/-- The undecided rule ends the run. -/
theorem NotFilled.reference {cb : Callbacks η μ R A S} {pre : List R} {rule : R} {w w₁ : World η μ}
    {e : Error} {h : η} (hn : NotFilled cb pre rule w w₁ e h) (post : List R) :
    ∃ done, Reference cb pre w done none w₁ ∧
      Reference cb (pre ++ rule :: post) w done (some e) ⟨h, w₁.message⟩ := by
  obtain ⟨mt, hm⟩ := hn.hasMatch
  obtain ⟨context, h₁, hc, hi⟩ := hn.failed
  obtain ⟨done, hpre⟩ := exists_reference (show applyRules cb pre w = outcome none w₁ from hn.ran)
  have hrule : Reference cb (rule :: post) w₁ [] (some e) ⟨h, w₁.message⟩ :=
    .undecided (.notInjected hn.filter hm (createMatchContext_ok.mp hc) hi)
  have hall := hpre.append hrule
  rw [List.append_nil] at hall
  exact ⟨done, hpre, hall⟩

/-- Callbacks that report every context they do not fill fail closed. -/
theorem FailsClosed.of_injectContext {cb : Callbacks η μ R A S}
    {filled : S.Context → μ → η → η → Prop}
    (hfilled : ∀ {context context' m h h'}, cb.injectContext context m h = .ok context' h' →
      context' = context ∧ filled context m h h') : FailsClosed cb filled where
  evaluated := by
    intro rule mt m h matched h' hf hm hd
    cases hd with
    | rejected hf' =>
      rw [hf] at hf'
      cases hf'
    | unconditional _ hm' =>
      rw [hm] at hm'
      cases hm'
    | @judged mt' c c' _ h₁ h₂ h' _ hm' hc hi hj =>
      rw [hm] at hm'
      obtain rfl := Option.some.inj hm'
      obtain ⟨rfl, hfill⟩ := hfilled hi
      exact ⟨c', h₁, h₂, createMatchContext_ok.mpr hc, hfill, hj.evaluateMatch⟩
  stopped := by
    intro pre rule w w₁ e h hn post
    obtain ⟨done, hpre, hall⟩ := hn.reference post
    exact ⟨applyRules_of_reference hall, done, hpre, hall⟩

end Runs

/-! ## What a successful injection stored -/

variable {N J : Type} (Q : QuickJs N J)

/-- A new object, on which every setter of a chain stored its property. -/
def Built (context : JSContext) (setters : List (Setter J)) (object : Value J)
    (r r' : Runtime N J) : Prop :=
  ∃ r₀, Value.object Q context r = .ok object r₀ ∧ StoresAll Q context object setters r₀ r'

/-- The headers object with every field, and the request object with it. -/
def RequestBuilt (context : JSContext) (request : RequestHeader) (object : Value J)
    (r r' : Runtime N J) : Prop :=
  ∃ headers r₁, Built Q context (headerSetters request.fields) headers r r₁ ∧
    Built Q context (requestSetters request headers) object r₁ r'

def ResponseBuilt (B : Beast) (context : JSContext) (response : ResponseHeader) (object : Value J)
    (r r' : Runtime N J) : Prop :=
  ∃ headers r₁, Built Q context (headerSetters response.fields) headers r r₁ ∧
    Built Q context (responseSetters B response headers) object r₁ r'

/-- The global object was found, and `value` set as its property `name`. -/
def GlobalSet (context : JSContext) (name : Bytes) (value : Value J) (r r' : Runtime N J) : Prop :=
  ∃ global r₁ r₂, Value.globalObject Q context r = .ok global r₁ ∧
    global.setProperty Q name value r₁ = .ok ⟨⟩ r₂ ∧ r' = global.destroy Q r₂

def RequestInjected (context : MatchContext) (request : RequestHeader) (r r' : Runtime N J) :
    Prop :=
  ∃ requestObj ctxObj r₁ r₂, RequestBuilt Q context.scriptContext request requestObj r r₁ ∧
    Built Q context.scriptContext (requestContextSetters requestObj) ctxObj r₁ r₂ ∧
    GlobalSet Q context.scriptContext (ascii "ctx") ctxObj r₂ r'

def ResponseInjected (B : Beast) (context : MatchContext) (request : RequestHeader)
    (response : ResponseHeader) (r r' : Runtime N J) : Prop :=
  ∃ requestObj responseObj ctxObj r₁ r₂ r₃,
    RequestBuilt Q context.scriptContext request requestObj r r₁ ∧
    ResponseBuilt Q B context.scriptContext response responseObj r₁ r₂ ∧
    Built Q context.scriptContext (responseContextSetters requestObj responseObj) ctxObj r₂ r₃ ∧
    GlobalSet Q context.scriptContext (ascii "ctx") ctxObj r₃ r'

variable {Q}

theorem buildObject_eq_ok_iff {cleanup : Runtime N J → Runtime N J} {context : JSContext}
    {setters : List (Setter J)} {object : Value J} {r r' : Runtime N J} :
    buildObject Q cleanup context setters r = .ok object r' ↔
      Built Q context setters object r r' := by
  unfold buildObject Built ObjectBuilder.create
  rw [bind_eq_ok]
  constructor
  · rintro ⟨b, r₀, hb, hrun⟩
    obtain ⟨o, r₁, ho, hpure⟩ := bind_eq_ok.mp (onError_eq_ok.mp hb)
    cases hpure
    obtain ⟨b', r₂, happly, hbuild⟩ := bind_eq_ok.mp hrun
    cases happly
    obtain ⟨rfl, hall⟩ := (build_eq_ok_iff rfl).mp hbuild
    exact ⟨r₀, ho, hall⟩
  · rintro ⟨r₀, ho, hall⟩
    refine ⟨⟨context, object, none⟩, r₀, onError_eq_ok.mpr (bind_ok ho), ?_⟩
    exact (build_eq_ok_iff (b := ⟨context, object, none⟩) rfl).mpr ⟨rfl, hall⟩

theorem buildRequestObject_eq_ok_iff {context : JSContext} {request : RequestHeader}
    {object : Value J} {r r' : Runtime N J} :
    buildRequestObject Q request context r = .ok object r' ↔
      RequestBuilt Q context request object r r' := by
  unfold buildRequestObject RequestBuilt buildHeaderObject
  simp only [bind_eq_ok, buildObject_eq_ok_iff]

theorem buildResponseObject_eq_ok_iff {B : Beast} {context : JSContext} {response : ResponseHeader}
    {object : Value J} {r r' : Runtime N J} :
    buildResponseObject Q B response context r = .ok object r' ↔
      ResponseBuilt Q B context response object r r' := by
  unfold buildResponseObject ResponseBuilt buildHeaderObject
  simp only [bind_eq_ok, buildObject_eq_ok_iff]

theorem addGlobalValue_eq_ok_iff {context : MatchContext} {name : Bytes} {value : Value J}
    {r r' : Runtime N J} : context.addGlobalValue Q name value r = .ok ⟨⟩ r' ↔
      GlobalSet Q context.scriptContext name value r r' := by
  unfold MatchContext.addGlobalValue GlobalSet
  rw [bind_eq_ok]
  constructor
  · rintro ⟨global, r₁, hglobal, hset⟩
    obtain ⟨r₂, hrun, rfl⟩ := atExit_eq_ok.mp hset
    exact ⟨global, r₁, r₂, adaptExcept_eq_ok.mp (onError_eq_ok.mp hglobal),
      adaptExcept_eq_ok.mp hrun, rfl⟩
  · rintro ⟨global, r₁, r₂, hglobal, hset, rfl⟩
    exact ⟨global, r₁, onError_eq_ok.mpr (adaptExcept_eq_ok.mpr hglobal),
      atExit_eq_ok.mpr ⟨r₂, adaptExcept_eq_ok.mpr hset, rfl⟩⟩

/-- An object on which a property was stored passes the checks of `AddObject`. -/
theorem Built.isObject {context : JSContext} {s : Setter J} {ss : List (Setter J)}
    {object : Value J} {r r' : Runtime N J} (h : Built Q context (s :: ss) object r r') :
    object.isValid = true ∧ object.isObject Q = true := by
  obtain ⟨r₀, -, hall⟩ := h
  cases hall with
  | cons hs _ =>
    obtain ⟨value, r₁, -, hset⟩ := hs
    obtain ⟨hv, hobject, -⟩ := setProperty_eq_ok hset
    exact ⟨hv, hobject⟩

theorem addObject_eq_ok_iff {context : MatchContext} {name : Bytes} {object : Value J}
    {r r' : Runtime N J} (hv : object.isValid = true) (ho : object.isObject Q = true) :
    context.addObject Q name object r = .ok ⟨⟩ r' ↔
      GlobalSet Q context.scriptContext name object r r' := by
  unfold MatchContext.addObject
  rw [if_neg (by simp [hv]), if_neg (by simp [ho])]
  exact addGlobalValue_eq_ok_iff

/-- **`InjectRequestContext`** succeeds exactly if all of the context was stored. -/
theorem injectRequestContext_eq_ok_iff {context : MatchContext} {request : RequestHeader}
    {r r' : Runtime N J} : injectRequestContext Q context request r = .ok ⟨⟩ r' ↔
      RequestInjected Q context request r r' := by
  unfold injectRequestContext RequestInjected
  simp only [bind_eq_ok, buildRequestObject_eq_ok_iff, buildObject_eq_ok_iff]
  constructor
  · rintro ⟨requestObj, r₁, hreq, ctxObj, r₂, hctx, hadd⟩
    obtain ⟨hv, ho⟩ := hctx.isObject
    exact ⟨requestObj, ctxObj, r₁, r₂, hreq, hctx, (addObject_eq_ok_iff hv ho).mp hadd⟩
  · rintro ⟨requestObj, ctxObj, r₁, r₂, hreq, hctx, hset⟩
    obtain ⟨hv, ho⟩ := hctx.isObject
    exact ⟨requestObj, r₁, hreq, ctxObj, r₂, hctx, (addObject_eq_ok_iff hv ho).mpr hset⟩

/-- **`InjectResponseContext`** succeeds exactly if all of the context was stored. -/
theorem injectResponseContext_eq_ok_iff {B : Beast} {context : MatchContext}
    {request : RequestHeader} {response : ResponseHeader} {r r' : Runtime N J} :
    injectResponseContext Q B context request response r = .ok ⟨⟩ r' ↔
      ResponseInjected Q B context request response r r' := by
  unfold injectResponseContext ResponseInjected
  simp only [bind_eq_ok, onError_eq_ok, buildRequestObject_eq_ok_iff, buildResponseObject_eq_ok_iff,
    buildObject_eq_ok_iff]
  constructor
  · rintro ⟨requestObj, r₁, hreq, responseObj, r₂, hres, ctxObj, r₃, hctx, hadd⟩
    obtain ⟨hv, ho⟩ := hctx.isObject
    exact ⟨requestObj, responseObj, ctxObj, r₁, r₂, r₃, hreq, hres, hctx,
      (addObject_eq_ok_iff hv ho).mp hadd⟩
  · rintro ⟨requestObj, responseObj, ctxObj, r₁, r₂, r₃, hreq, hres, hctx, hset⟩
    obtain ⟨hv, ho⟩ := hctx.isObject
    exact ⟨requestObj, r₁, hreq, responseObj, r₂, hres, ctxObj, r₃, hctx,
      (addObject_eq_ok_iff hv ho).mpr hset⟩

/-! ## The rule engine over QuickJS -/

/-- A context that the engine goes on with is filled. -/
theorem requestCallbacks_filled {B : Beast} {E : Evaluator N J} {context context' : MatchContext}
    {request : RequestHeader} {h h' : Runtime N J}
    (hrun : (requestCallbacks (qjsEngine Q B E)).injectContext context request h
      = .ok context' h') :
    context' = context ∧ RequestInjected Q context request h h' := by
  obtain ⟨u, h₁, hinject, hpure⟩ := bind_eq_ok.mp hrun
  cases hpure
  exact ⟨rfl, injectRequestContext_eq_ok_iff.mp hinject⟩

theorem responseCallbacks_filled {B : Beast} {E : Evaluator N J} {context context' : MatchContext}
    {request : RequestHeader} {response : ResponseHeader} {h h' : Runtime N J}
    (hrun : (responseCallbacks (qjsEngine Q B E) request).injectContext context response h
      = .ok context' h') :
    context' = context ∧ ResponseInjected Q B context request response h h' := by
  obtain ⟨u, h₁, hinject, hpure⟩ := bind_eq_ok.mp hrun
  cases hpure
  exact ⟨rfl, injectResponseContext_eq_ok_iff.mp hinject⟩

/-- **No rule runs on a partial context.**  Whichever calls of QuickJS fail and whatever the
evaluator does: the first error of a builder stays and is what `Build` returns; an injection
succeeds exactly if every header and field was stored; and the rules for requests and for responses
fail closed. -/
theorem no_rule_on_partial_context (Q : QuickJs N J) (B : Beast) :
    (∀ (b : ObjectBuilder J) (setters : List (Setter J)) (r : Runtime N J),
      (∀ e, b.error = some e → ObjectBuilder.applyAll Q setters b r = (b, dropAll Q setters r) ∧
        b.build Q r = .error e (b.object.destroy Q r)) ∧
      (b.error = none → BuildEnds Q b setters r ((ObjectBuilder.applyAll Q setters b r).1.build Q
        (ObjectBuilder.applyAll Q setters b r).2))) ∧
    (∀ context request r r', injectRequestContext Q context request r = .ok ⟨⟩ r' ↔
      RequestInjected Q context request r r') ∧
    (∀ context request response r r',
      injectResponseContext Q B context request response r = .ok ⟨⟩ r' ↔
        ResponseInjected Q B context request response r r') ∧
    ∀ E : Evaluator N J,
      FailsClosed (requestCallbacks (qjsEngine Q B E)) (RequestInjected Q) ∧
      ∀ request, FailsClosed (responseCallbacks (qjsEngine Q B E) request)
        fun context response => ResponseInjected Q B context request response := by
  refine ⟨fun b setters r => ⟨fun e he => ⟨ObjectBuilder.applyAll_latched he setters r, ?_⟩,
    fun hb => build_ends hb setters r⟩, fun _ _ _ _ => injectRequestContext_eq_ok_iff,
    fun _ _ _ _ _ => injectResponseContext_eq_ok_iff, fun E => ⟨?_, fun request => ?_⟩⟩
  · rw [ObjectBuilder.build, he]
    rfl
  · exact .of_injectContext requestCallbacks_filled
  · exact .of_injectContext responseCallbacks_filled

/-- QuickJS without memory for properties of one name. -/
def refusing (Q : QuickJs N J) (name : Bytes) : QuickJs N J :=
  { Q with setPropertyStr := fun c t n v =>
      if n = name then throw (ascii "out of memory") else Q.setPropertyStr c t n v }

/-- Every expression is `value`. -/
def Evaluator.const (value : Bool) : Evaluator N J where
  Value := Bool
  eval _ _ := pure value
  isBool _ := true
  toBool := .ok

/-- Adds `X-B` without a condition. -/
def addsHeader : Rule :=
  ⟨ascii "add", true, .request, none,
    [⟨.add, .header, .headerNameValue (ascii "X-B") (ascii "2")⟩]⟩

/-- Removes `X-A` on an expression. -/
def removesHeader : Rule :=
  ⟨ascii "remove", true, .request, some ⟨ascii "true"⟩,
    [⟨.remove, .header, .headerName (ascii "X-A")⟩]⟩

/-- A run on a request with the header `X-A`, before any call of QuickJS. -/
def oneHeader : World (Runtime Tables JsValue) RequestHeader :=
  ⟨⟨⟨0, 0, []⟩, 0, []⟩, ⟨ascii "GET", 11, ascii "/", [⟨ascii "X-A", ascii "1"⟩]⟩⟩

theorem no_rule_on_partial_context_secondHeader :
    let Q := refusing (QuickJs.tables fun _ => true) (ascii "x-b")
    let cb := requestCallbacks (qjsEngine Q HeadTable.minimal.beast (.const true))
    let error := qjsError .setPropertyFailed (ascii "set property 'x-b' failed, out of memory")
    let request : RequestHeader :=
      ⟨ascii "GET", 11, ascii "/", [⟨ascii "X-A", ascii "1"⟩, ⟨ascii "X-B", ascii "2"⟩]⟩
    ∃ h, NotFilled cb [addsHeader] removesHeader oneHeader ⟨oneHeader.script, request⟩ error h ∧
      applyRules cb ([addsHeader] ++ removesHeader :: [removesHeader]) oneHeader
        = .error error ⟨h, request⟩ := by
  intro Q cb error request
  have hn : NotFilled cb [addsHeader] removesHeader oneHeader ⟨oneHeader.script, request⟩ error
      (stateOf (applyRules cb [addsHeader, removesHeader] oneHeader)).script :=
    ⟨rfl, rfl, ⟨_, rfl⟩, _, _, rfl, rfl⟩
  have h := no_rule_on_partial_context Q HeadTable.minimal.beast
  exact ⟨_, hn, ((h.2.2.2 (.const true)).1.stopped hn [removesHeader]).1⟩

end ProxyPP.Rules
