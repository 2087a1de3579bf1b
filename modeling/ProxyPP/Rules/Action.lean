import ProxyPP.Lib.Program
import ProxyPP.Http.Message
import ProxyPP.Rules.Model

/-!
# ProxyPP.Rules.Action — `action_executor.cpp` over the Beast adapters

`ExecuteRequestAction` and `ExecuteResponseAction` are two functions of the source and two here.
`changeOf` is what an action does to the fields; both are shown to do just that.
-/

namespace ProxyPP.Rules

open ProxyPP ProxyPP.Lib ProxyPP.Http

def kUnsupportedHeaders : List Bytes :=
  [ascii "content-length", ascii "transfer-encoding", ascii "te", ascii "trailer",
    ascii "connection", ascii "keep-alive", ascii "proxy-connection", ascii "upgrade",
    ascii "host",
    ascii "proxy-authorization", ascii "proxy-authenticate", ascii "content-encoding",
    ascii "content-range", ascii "range", ascii "if-range", ascii "accept-ranges",
    ascii "expect",
    ascii "authorization", ascii "www-authenticate", ascii "authentication-info",
    ascii "proxy-authentication-info",
    ascii "via", ascii "x-forwarded-for", ascii "x-forwarded-host", ascii "x-forwarded-proto",
    ascii "x-real-ip"]

/-! ## The Beast adapters -/

namespace BeastRequestAdapter

def setHeader (name value : Bytes) (request : RequestHeader) : RequestHeader :=
  { request with fields := Fields.set name value request.fields }

def addHeader (name value : Bytes) (request : RequestHeader) : RequestHeader :=
  if Fields.contains name request.fields then request
  else { request with fields := Fields.set name value request.fields }

def replaceHeader (name value : Bytes) (request : RequestHeader) : RequestHeader :=
  if Fields.contains name request.fields then
    { request with fields := Fields.set name value request.fields }
  else request

def removeHeader (name : Bytes) (request : RequestHeader) : RequestHeader :=
  { request with fields := Fields.erase name request.fields }

end BeastRequestAdapter

namespace BeastResponseAdapter

def setHeader (name value : Bytes) (response : ResponseHeader) : ResponseHeader :=
  { response with fields := Fields.set name value response.fields }

def addHeader (name value : Bytes) (response : ResponseHeader) : ResponseHeader :=
  if Fields.contains name response.fields then response
  else { response with fields := Fields.set name value response.fields }

def replaceHeader (name value : Bytes) (response : ResponseHeader) : ResponseHeader :=
  if Fields.contains name response.fields then
    { response with fields := Fields.set name value response.fields }
  else response

def removeHeader (name : Bytes) (response : ResponseHeader) : ResponseHeader :=
  { response with fields := Fields.erase name response.fields }

end BeastResponseAdapter

/-! ## The executors -/

def invalidAction (message : Bytes) : Error := ⟨.rule .invalidAction, message⟩

def notSupported (name : Bytes) : Error :=
  invalidAction (ascii "modifying header '" ++ name ++ ascii "' is not supported")

def isUnsupported (name : Bytes) : Bool := kUnsupportedHeaders.contains (toLower name)

def executeRequestAction (action : Action) : EStateM Error RequestHeader PUnit := do
  if action.target ≠ .header then throw (invalidAction (ascii "invalid target"))
  if let .headerName name := action.data then
    if isUnsupported name then throw (notSupported name)
  if let .headerNameValue name _ := action.data then
    if isUnsupported name then throw (notSupported name)
  match action.op with
  | .add => match action.data with
    | .headerNameValue name value => modify (BeastRequestAdapter.addHeader name value)
    | _ => throw (invalidAction (ascii "add header requires HeaderNameValueData"))
  | .set => match action.data with
    | .headerNameValue name value => modify (BeastRequestAdapter.setHeader name value)
    | _ => throw (invalidAction (ascii "set header requires HeaderNameValueData"))
  | .replace => match action.data with
    | .headerNameValue name value => modify (BeastRequestAdapter.replaceHeader name value)
    | _ => throw (invalidAction (ascii "replace header requires HeaderNameValueData"))
  | .remove => match action.data with
    | .headerName name => modify (BeastRequestAdapter.removeHeader name)
    | _ => throw (invalidAction (ascii "remove header requires HeaderNameData"))
  | .notSet => throw (invalidAction (ascii "invalid operation"))

def executeResponseAction (action : Action) : EStateM Error ResponseHeader PUnit := do
  if action.target ≠ .header then throw (invalidAction (ascii "invalid target"))
  if let .headerName name := action.data then
    if isUnsupported name then throw (notSupported name)
  if let .headerNameValue name _ := action.data then
    if isUnsupported name then throw (notSupported name)
  match action.op with
  | .add => match action.data with
    | .headerNameValue name value => modify (BeastResponseAdapter.addHeader name value)
    | _ => throw (invalidAction (ascii "add header requires HeaderNameValueData"))
  | .set => match action.data with
    | .headerNameValue name value => modify (BeastResponseAdapter.setHeader name value)
    | _ => throw (invalidAction (ascii "set header requires HeaderNameValueData"))
  | .replace => match action.data with
    | .headerNameValue name value => modify (BeastResponseAdapter.replaceHeader name value)
    | _ => throw (invalidAction (ascii "replace header requires HeaderNameValueData"))
  | .remove => match action.data with
    | .headerName name => modify (BeastResponseAdapter.removeHeader name)
    | _ => throw (invalidAction (ascii "remove header requires HeaderNameData"))
  | .notSet => throw (invalidAction (ascii "invalid operation"))

/-! ## What an action does to the fields -/

/-- An operation on the fields of a message. -/
inductive FieldChange
  | set (name value : Bytes)
  | add (name value : Bytes)
  | replace (name value : Bytes)
  | remove (name : Bytes)
  deriving DecidableEq, Repr

namespace FieldChange

def name : FieldChange → Bytes
  | set name _ => name
  | add name _ => name
  | replace name _ => name
  | remove name => name

def apply : FieldChange → Fields → Fields
  | set name value, fields => Fields.set name value fields
  | add name value, fields =>
    if Fields.contains name fields then fields else Fields.set name value fields
  | replace name value, fields =>
    if Fields.contains name fields then Fields.set name value fields else fields
  | remove name, fields => Fields.erase name fields

/-- A change is confined to its name. -/
theorem values_apply_ne {change : FieldChange} {name : Bytes}
    (h : toLower change.name ≠ toLower name) (fields : Fields) :
    Fields.values name (change.apply fields) = Fields.values name fields := by
  rcases change with ⟨n, v⟩ | ⟨n, v⟩ | ⟨n, v⟩ | n
  · exact Fields.values_set_ne h v fields
  · show Fields.values name (if _ then _ else _) = _
    split_ifs
    · rfl
    · exact Fields.values_set_ne h v fields
  · show Fields.values name (if _ then _ else _) = _
    split_ifs
    · exact Fields.values_set_ne h v fields
    · rfl
  · exact Fields.values_erase_ne h fields

end FieldChange

/-- The header name of an action. -/
def ActionData.name : ActionData → Bytes
  | .headerName name => name
  | .headerNameValue name _ => name

/-- The change an action makes, or the error it is rejected with. -/
def changeOf (action : Action) : Except Error FieldChange :=
  if action.target ≠ .header then .error (invalidAction (ascii "invalid target"))
  else if isUnsupported action.data.name then .error (notSupported action.data.name)
  else match action.op, action.data with
    | .add, .headerNameValue name value => .ok (.add name value)
    | .set, .headerNameValue name value => .ok (.set name value)
    | .replace, .headerNameValue name value => .ok (.replace name value)
    | .remove, .headerName name => .ok (.remove name)
    | .add, _ => .error (invalidAction (ascii "add header requires HeaderNameValueData"))
    | .set, _ => .error (invalidAction (ascii "set header requires HeaderNameValueData"))
    | .replace, _ => .error (invalidAction (ascii "replace header requires HeaderNameValueData"))
    | .remove, _ => .error (invalidAction (ascii "remove header requires HeaderNameData"))
    | .notSet, _ => .error (invalidAction (ascii "invalid operation"))

/-- A change that is made is to the header the action names, which is a supported one. -/
theorem changeOf_supported {action : Action} {change : FieldChange}
    (h : changeOf action = .ok change) : isUnsupported change.name = false := by
  rcases action with ⟨op, target, data⟩
  unfold changeOf at h
  split_ifs at h with ht hn
  have hname : isUnsupported data.name = false := by simpa using hn
  rcases op with _ | _ | _ | _ | _ <;> rcases data with ⟨n⟩ | ⟨n, v⟩ <;> cases h <;> exact hname

theorem BeastRequestAdapter.addHeader_eq (name value : Bytes) (request : RequestHeader) :
    BeastRequestAdapter.addHeader name value request
      = { request with fields := (FieldChange.add name value).apply request.fields } := by
  show (if _ then _ else _) = _
  split_ifs with hc
  · rw [FieldChange.apply, if_pos hc]
  · rw [FieldChange.apply, if_neg hc]

theorem BeastRequestAdapter.replaceHeader_eq (name value : Bytes) (request : RequestHeader) :
    BeastRequestAdapter.replaceHeader name value request
      = { request with fields := (FieldChange.replace name value).apply request.fields } := by
  show (if _ then _ else _) = _
  split_ifs with hc
  · rw [FieldChange.apply, if_pos hc]
  · rw [FieldChange.apply, if_neg hc]

/-- **`ExecuteRequestAction`** makes the change of the action or leaves the request as it is. -/
theorem executeRequestAction_eq (action : Action) (request : RequestHeader) :
    executeRequestAction action request = match changeOf action with
      | .ok change => .ok ⟨⟩ { request with fields := change.apply request.fields }
      | .error e => .error e request := by
  rcases action with ⟨op, target, data⟩
  unfold executeRequestAction changeOf
  by_cases ht : target ≠ .header
  · simp only [if_pos ht]; rfl
  simp only [if_neg ht]
  rcases data with ⟨n⟩ | ⟨n, v⟩
  · cases hn : isUnsupported n
    case' true => simp only [ActionData.name, hn, if_true]; rfl
    · simp only [ActionData.name, hn, Bool.false_eq_true, if_false]
      rcases op with _ | _ | _ | _ | _ <;> rfl
  · cases hn : isUnsupported n
    case' true => simp only [ActionData.name, hn, if_true]; rfl
    · simp only [ActionData.name, hn, Bool.false_eq_true, if_false]
      rcases op with _ | _ | _ | _ | _
      · rfl
      · rfl
      · exact congrArg (EStateM.Result.ok PUnit.unit) (BeastRequestAdapter.addHeader_eq n v request)
      · rfl
      · exact congrArg (EStateM.Result.ok PUnit.unit)
          (BeastRequestAdapter.replaceHeader_eq n v request)

theorem BeastResponseAdapter.addHeader_eq (name value : Bytes) (response : ResponseHeader) :
    BeastResponseAdapter.addHeader name value response
      = { response with fields := (FieldChange.add name value).apply response.fields } := by
  show (if _ then _ else _) = _
  split_ifs with hc
  · rw [FieldChange.apply, if_pos hc]
  · rw [FieldChange.apply, if_neg hc]

theorem BeastResponseAdapter.replaceHeader_eq (name value : Bytes) (response : ResponseHeader) :
    BeastResponseAdapter.replaceHeader name value response
      = { response with fields := (FieldChange.replace name value).apply response.fields } := by
  show (if _ then _ else _) = _
  split_ifs with hc
  · rw [FieldChange.apply, if_pos hc]
  · rw [FieldChange.apply, if_neg hc]

/-- **`ExecuteResponseAction`** makes the change of the action or leaves the response as it is. -/
theorem executeResponseAction_eq (action : Action) (response : ResponseHeader) :
    executeResponseAction action response = match changeOf action with
      | .ok change => .ok ⟨⟩ { response with fields := change.apply response.fields }
      | .error e => .error e response := by
  rcases action with ⟨op, target, data⟩
  unfold executeResponseAction changeOf
  by_cases ht : target ≠ .header
  · simp only [if_pos ht]; rfl
  simp only [if_neg ht]
  rcases data with ⟨n⟩ | ⟨n, v⟩
  · cases hn : isUnsupported n
    case' true => simp only [ActionData.name, hn, if_true]; rfl
    · simp only [ActionData.name, hn, Bool.false_eq_true, if_false]
      rcases op with _ | _ | _ | _ | _ <;> rfl
  · cases hn : isUnsupported n
    case' true => simp only [ActionData.name, hn, if_true]; rfl
    · simp only [ActionData.name, hn, Bool.false_eq_true, if_false]
      rcases op with _ | _ | _ | _ | _
      · rfl
      · rfl
      · exact congrArg (EStateM.Result.ok PUnit.unit)
          (BeastResponseAdapter.addHeader_eq n v response)
      · rfl
      · exact congrArg (EStateM.Result.ok PUnit.unit)
          (BeastResponseAdapter.replaceHeader_eq n v response)

/-- An action that succeeds makes its change, and nothing else. -/
theorem executeRequestAction_eq_ok {action : Action} {m m' : RequestHeader}
    (h : executeRequestAction action m = .ok ⟨⟩ m') :
    ∃ change, changeOf action = .ok change ∧ m' = { m with fields := change.apply m.fields } := by
  rw [executeRequestAction_eq] at h
  cases hc : changeOf action with
  | error e =>
    rw [hc] at h
    cases h
  | ok change =>
    rw [hc] at h
    cases h
    exact ⟨change, rfl, rfl⟩

theorem executeResponseAction_eq_ok {action : Action} {m m' : ResponseHeader}
    (h : executeResponseAction action m = .ok ⟨⟩ m') :
    ∃ change, changeOf action = .ok change ∧ m' = { m with fields := change.apply m.fields } := by
  rw [executeResponseAction_eq] at h
  cases hc : changeOf action with
  | error e =>
    rw [hc] at h
    cases h
  | ok change =>
    rw [hc] at h
    cases h
    exact ⟨change, rfl, rfl⟩

end ProxyPP.Rules
