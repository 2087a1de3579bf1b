import ProxyPP.Http.BodyInfo
import ProxyPP.Http.Header
import ProxyPP.Rules.Action
import ProxyPP.Rules.Engine

/-!
# ProxyPP.Rules.Apply — `ApplyRequest`, `ApplyResponse`

The rule engine on HTTP messages.  How a context is filled from a message is a parameter of the
engine.  `kUnsupportedHeaders` is what keeps the proxy in step with its peers: no rule run, however
it ends, touches a field of such a name, so the framing read from the received head is the framing
of the forwarded one (`framing_agrees`).
-/

namespace ProxyPP.Rules

open ProxyPP ProxyPP.Lib ProxyPP.Http

variable {η : Type}

/-! ## The code -/

/-- The rule engine of a session, with the context injectors for HTTP. -/
structure Engine (η : Type) where
  script : Script η
  injectRequestContext : script.Context → RequestHeader → EStateM Error η script.Context
  injectResponseContext :
    script.Context → RequestHeader → ResponseHeader → EStateM Error η script.Context

theorem executeRequestAction_atomic {action : Action} {m m' : RequestHeader} {e : Error}
    (h : executeRequestAction action m = .error e m') : m' = m := by
  rw [executeRequestAction_eq] at h
  split at h
  · exact absurd h (by simp)
  · simp only [EStateM.Result.error.injEq] at h
    exact h.2.symm

theorem executeResponseAction_atomic {action : Action} {m m' : ResponseHeader} {e : Error}
    (h : executeResponseAction action m = .error e m') : m' = m := by
  rw [executeResponseAction_eq] at h
  split at h
  · exact absurd h (by simp)
  · simp only [EStateM.Result.error.injEq] at h
    exact h.2.symm

def requestCallbacks (engine : Engine η) :
    Callbacks η RequestHeader Rule Action engine.script where
  filter rule := rule.enabled && rule.phase = .request
  injectContext := engine.injectRequestContext
  getMatch rule := rule.match_
  getActions rule := rule.actions
  executeAction := executeRequestAction
  atomic := executeRequestAction_atomic

def responseCallbacks (engine : Engine η) (request : RequestHeader) :
    Callbacks η ResponseHeader Rule Action engine.script where
  filter rule := rule.enabled && rule.phase = .response
  injectContext context response := engine.injectResponseContext context request response
  getMatch rule := rule.match_
  getActions rule := rule.actions
  executeAction := executeResponseAction
  atomic := executeResponseAction_atomic

def applyRequest (engine : Engine η) (httpConfig : Config) :
    EStateM Error (World η RequestHeader) PUnit :=
  match httpConfig.rules with
  | none => pure ⟨⟩
  | some rules => if rules.isEmpty then pure ⟨⟩ else applyRules (requestCallbacks engine) rules

def applyResponse (engine : Engine η) (httpConfig : Config) (request : RequestHeader) :
    EStateM Error (World η ResponseHeader) PUnit :=
  match httpConfig.rules with
  | none => pure ⟨⟩
  | some rules => applyRules (responseCallbacks engine request) rules

/-- The state of a result, returned or not. -/
def stateOf {ε σ α : Type} : EStateM.Result ε σ α → σ
  | .ok _ s => s
  | .error _ s => s

/-- `HandleOneExchange` applies the configured rules to the rebuilt request; an error is only
logged. -/
def ruledRequest (engine : Engine η) (config : Option Config) (w : World η RequestHeader) :
    World η RequestHeader :=
  match config with
  | none => w
  | some config => stateOf (applyRequest engine config w)

/-- The same for the response, whose rules also see the request that was sent. -/
def ruledResponse (engine : Engine η) (config : Option Config) (request : RequestHeader)
    (w : World η ResponseHeader) : World η ResponseHeader :=
  match config with
  | none => w
  | some config => stateOf (applyResponse engine config request w)

/-! ## What rules keep -/

theorem applyRequest_eq (engine : Engine η) (config : Config) (w : World η RequestHeader) :
    applyRequest engine config w
      = applyRules (requestCallbacks engine) (config.rules.getD []) w := by
  unfold applyRequest
  cases config.rules with
  | none => rfl
  | some rules =>
    cases rules with
    | nil => rfl
    | cons rule rules => rfl

theorem applyResponse_eq (engine : Engine η) (config : Config) (request : RequestHeader)
    (w : World η ResponseHeader) : applyResponse engine config request w
      = applyRules (responseCallbacks engine request) (config.rules.getD []) w := by
  unfold applyResponse
  cases config.rules with
  | none => rfl
  | some rules => rfl

theorem Ends.stateOf {ε σ α : Type} {m : EStateM ε σ α} {s : σ} {I : σ → Prop}
    (h : Ends m s (fun _ t => I t) (fun _ t => I t)) : I (stateOf (m s)) := by
  unfold Ends at h
  cases hr : m s with
  | ok a t => rw [hr] at h; exact h
  | error e t => rw [hr] at h; exact h

/-- What every change to a supported header keeps, the rules keep of a request. -/
theorem ruledRequest_keeps {I : RequestHeader → Prop}
    (hI : ∀ (change : FieldChange) (m : RequestHeader), isUnsupported change.name = false →
      I m → I { m with fields := change.apply m.fields })
    (engine : Engine η) (config : Option Config) (w : World η RequestHeader) (hw : I w.message) :
    I (ruledRequest engine config w).message := by
  cases config with
  | none => exact hw
  | some config =>
    show I (stateOf (applyRequest engine config w)).message
    rw [applyRequest_eq]
    refine Ends.stateOf (applyRules_keeps ?_ _ w hw)
    intro action m m' hr hm
    obtain ⟨change, hchange, rfl⟩ := executeRequestAction_eq_ok hr
    exact hI change m (changeOf_supported hchange) hm

theorem ruledResponse_keeps {I : ResponseHeader → Prop}
    (hI : ∀ (change : FieldChange) (m : ResponseHeader), isUnsupported change.name = false →
      I m → I { m with fields := change.apply m.fields })
    (engine : Engine η) (config : Option Config) (request : RequestHeader)
    (w : World η ResponseHeader) (hw : I w.message) :
    I (ruledResponse engine config request w).message := by
  cases config with
  | none => exact hw
  | some config =>
    show I (stateOf (applyResponse engine config request w)).message
    rw [applyResponse_eq]
    refine Ends.stateOf (applyRules_keeps ?_ _ w hw)
    intro action m m' hr hm
    obtain ⟨change, hchange, rfl⟩ := executeResponseAction_eq_ok hr
    exact hI change m (changeOf_supported hchange) hm

/-- A change to a supported header leaves the fields of an unsupported one alone. -/
theorem values_change {change : FieldChange} {name : Bytes} (hc : isUnsupported change.name = false)
    (hn : isUnsupported name = true) (fields : Fields) :
    Fields.values name (change.apply fields) = Fields.values name fields := by
  refine FieldChange.values_apply_ne (fun heq => ?_) fields
  rw [isUnsupported, heq] at hc
  rw [isUnsupported, hc] at hn
  exact absurd hn (by simp)

/-- Rules change the fields of a request only. -/
theorem ruledRequest_line (engine : Engine η) (config : Option Config)
    (w : World η RequestHeader) : (ruledRequest engine config w).message.method = w.message.method ∧
      (ruledRequest engine config w).message.version = w.message.version ∧
      (ruledRequest engine config w).message.target = w.message.target :=
  ruledRequest_keeps (I := fun m => m.method = w.message.method ∧ m.version = w.message.version ∧
    m.target = w.message.target) (fun _ _ _ h => h) engine config w ⟨rfl, rfl, rfl⟩

theorem values_ruledRequest {name : Bytes} (hn : isUnsupported name = true) (engine : Engine η)
    (config : Option Config) (w : World η RequestHeader) :
    Fields.values name (ruledRequest engine config w).message.fields
      = Fields.values name w.message.fields := by
  refine ruledRequest_keeps (I := fun m => Fields.values name m.fields = _) ?_ engine config w rfl
  intro change m hc hm
  rw [values_change hc hn, hm]

/-- Rules change the fields of a response only. -/
theorem ruledResponse_line (engine : Engine η) (config : Option Config) (request : RequestHeader)
    (w : World η ResponseHeader) :
    (ruledResponse engine config request w).message.status = w.message.status :=
  ruledResponse_keeps (I := fun m => m.status = w.message.status) (fun _ _ _ h => h) engine config
    request w rfl

theorem values_ruledResponse {name : Bytes} (hn : isUnsupported name = true) (engine : Engine η)
    (config : Option Config) (request : RequestHeader) (w : World η ResponseHeader) :
    Fields.values name (ruledResponse engine config request w).message.fields
      = Fields.values name w.message.fields := by
  refine ruledResponse_keeps (I := fun m => Fields.values name m.fields = _) ?_ engine config
    request w rfl
  intro change m hc hm
  rw [values_change hc hn, hm]

/-! ## Framing -/

/-- How a parser reads the framing of a message off the values of `Transfer-Encoding` and
`Content-Length`. -/
structure Framing where
  chunked : List Bytes → List Bytes → Bool
  contentLength : List Bytes → List Bytes → Option UInt64

namespace Framing

variable (F : Framing)

def chunkedOf (fields : Fields) : Bool :=
  F.chunked (Fields.values (ascii "Transfer-Encoding") fields)
    (Fields.values (ascii "Content-Length") fields)

def contentLengthOf (fields : Fields) : Option UInt64 :=
  F.contentLength (Fields.values (ascii "Transfer-Encoding") fields)
    (Fields.values (ascii "Content-Length") fields)

/-- The parser reads the framing off the fields. -/
def ReadsRequest (parser : RequestParser) : Prop :=
  parser.chunked = F.chunkedOf parser.header.fields ∧
    parser.contentLength = F.contentLengthOf parser.header.fields

def ReadsResponse (parser : ResponseParser) : Prop :=
  parser.chunked = F.chunkedOf parser.header.fields ∧
    parser.contentLength = F.contentLengthOf parser.header.fields

/-- What the parser of the next hop reads off a forwarded request head. -/
def requestParser (header : RequestHeader) (keepAlive : Bool) : RequestParser :=
  ⟨header, F.chunkedOf header.fields, F.contentLengthOf header.fields, keepAlive⟩

def responseParser (header : ResponseHeader) (keepAlive : Bool) : ResponseParser :=
  ⟨header, F.chunkedOf header.fields, F.contentLengthOf header.fields, keepAlive⟩

end Framing

/-- The framing fields are among those no rule changes, and none of them is erased. -/
theorem framing_names {name : Bytes}
    (h : name = ascii "Transfer-Encoding" ∨ name = ascii "Content-Length") :
    isUnsupported name = true ∧ ¬ Erased name := by
  rcases h with rfl | rfl <;> decide

/-- The values of an unsupported header in the request that is sent. -/
theorem values_sentRequest {B : Beast} {client header : RequestHeader} {info : RemoteInfo}
    (hb : buildRemoteRequestHeader B client info = .ok header) {name : Bytes}
    (hn : isUnsupported name = true) (he : ¬ Erased name) (engine : Engine η)
    (config : Option Config) (h : η) :
    Fields.values name (ruledRequest engine config ⟨h, header⟩).message.fields
      = Fields.values name client.fields := by
  have hknown : B.knownVerb client.method = true := by
    by_contra hne
    rw [buildRemoteRequestHeader_unknown info hne] at hb
    exact absurd hb (by simp)
  rw [buildRemoteRequestHeader_known info hknown] at hb
  rw [values_ruledRequest hn, ← Except.ok.inj hb]
  exact values_forwardedFields he client.fields

/-- **Framing agreement.**  Whatever the rules do and wherever they fail, the request and the
response that are sent have the received values of every unsupported header, and the framing by
which their bodies are forwarded is the one the next hop reads off the sent head. -/
theorem framing_agrees (B : Beast) (engine : Engine η) (config : Option Config) (F : Framing) :
    (∀ (client : RequestParser) (info : RemoteInfo) (header : RequestHeader) (h : η),
      buildRemoteRequestHeader B client.header info = .ok header →
      (∀ name, isUnsupported name = true → ¬ Erased name →
        Fields.values name (ruledRequest engine config ⟨h, header⟩).message.fields
          = Fields.values name client.header.fields) ∧
      (F.ReadsRequest client → determineRequestBodyInfo client = determineRequestBodyInfo
        (F.requestParser (ruledRequest engine config ⟨h, header⟩).message client.keepAlive))) ∧
    ∀ (client : RequestParser) (remote : ResponseParser) (request : RequestHeader) (h : η),
      (∀ name, isUnsupported name = true →
        Fields.values name (ruledResponse engine config request ⟨h, remote.header⟩).message.fields
          = Fields.values name remote.header.fields) ∧
      (F.ReadsResponse remote → determineResponseBodyInfo client remote =
        determineResponseBodyInfo client (F.responseParser
          (ruledResponse engine config request ⟨h, remote.header⟩).message remote.keepAlive)) := by
  refine ⟨fun client info header h hb => ⟨fun name hn he =>
    values_sentRequest hb hn he engine config h, fun hreads => ?_⟩,
    fun client remote request h => ⟨fun name hn => values_ruledResponse hn engine config request _,
      fun hreads => ?_⟩⟩
  · obtain ⟨hte, hte'⟩ := framing_names (Or.inl rfl)
    obtain ⟨hcl, hcl'⟩ := framing_names (Or.inr rfl)
    unfold determineRequestBodyInfo Framing.requestParser Framing.chunkedOf Framing.contentLengthOf
    rw [values_sentRequest hb hte hte', values_sentRequest hb hcl hcl', hreads.1, hreads.2]
    rfl
  · obtain ⟨hte, -⟩ := framing_names (Or.inl rfl)
    obtain ⟨hcl, -⟩ := framing_names (Or.inr rfl)
    unfold determineResponseBodyInfo Framing.responseParser Framing.chunkedOf
      Framing.contentLengthOf
    rw [values_ruledResponse hte, values_ruledResponse hcl, hreads.1, hreads.2, ruledResponse_line]
    rfl

/-- An engine whose evaluations have the outcomes of a list, and `false` behind it. -/
def Engine.scripted : Engine (List (Except Error Bool)) where
  script :=
    { Context := PUnit
      Value := Bool
      createContext := pure ⟨⟩
      eval := fun _ _ outcomes => match outcomes with
        | [] => .ok false []
        | .ok matched :: rest => .ok matched rest
        | .error e :: rest => .error e rest
      isBool := fun _ => true
      toBool := .ok }
  injectRequestContext context _ := pure context
  injectResponseContext context _ _ := pure context

/-- A rule whose second action is rejected. -/
def rejectedRemoval : Config :=
  ⟨some [⟨ascii "drop", true, .request, none,
    [⟨.set, .header, .headerNameValue (ascii "X-A") (ascii "1")⟩,
      ⟨.remove, .header, .headerName (ascii "content-length")⟩]⟩]⟩

/-- A request with three bytes of content. -/
def threeBytes : RequestParser :=
  ⟨⟨ascii "GET", 11, ascii "http://a/", [⟨ascii "Content-Length", ascii "3"⟩]⟩, false, some 3, true⟩

theorem framing_agrees_rejected :
    let F : Framing := ⟨fun te _ => te.contains (ascii "chunked"),
      fun _ cl => if cl = [ascii "3"] then some 3 else none⟩
    let info : RemoteInfo := ⟨ascii "http", ascii "a", ascii "80", ascii "/"⟩
    let header : RequestHeader :=
      ⟨ascii "GET", 11, ascii "/", [⟨ascii "Content-Length", ascii "3"⟩]⟩
    buildRemoteRequestHeader HeadTable.minimal.beast threeBytes.header info = .ok header ∧
      determineRequestBodyInfo threeBytes = determineRequestBodyInfo (F.requestParser
        (ruledRequest Engine.scripted (some rejectedRemoval) ⟨[], header⟩).message true) := by
  intro F info header
  have hb : buildRemoteRequestHeader HeadTable.minimal.beast threeBytes.header info
      = .ok header := by decide
  have h := (framing_agrees HeadTable.minimal.beast Engine.scripted (some rejectedRemoval) F).1
    threeBytes info header [] hb
  have hreads : F.ReadsRequest threeBytes := ⟨by decide, by decide⟩
  exact ⟨hb, h.2 hreads⟩

end ProxyPP.Rules
