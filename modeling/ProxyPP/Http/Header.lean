import ProxyPP.Http.HeadTable
import ProxyPP.Http.RemoteInfo

/-!
# ProxyPP.Http.Header — the heads a session writes

`BuildRemoteRequestHeader`, and the messages that `WriteRemoteRequestHeader` and
`WriteRemoteResponseHeaderToClient` fill before they serialize them.  Fields are copied by name and
value, so duplicates and unknown names survive; the method and the status go through Beast's
enumerations.
-/

namespace ProxyPP.Http

open ProxyPP ProxyPP.Lib

/-! ## The code -/

/-- A default-constructed request header. -/
def RequestHeader.empty : RequestHeader := ⟨[], 11, [], []⟩

/-- A default-constructed response header. -/
def ResponseHeader.empty : ResponseHeader := ⟨11, 200, [], []⟩

def fieldsToErase : List Bytes :=
  [ascii "Proxy-Connection", ascii "Proxy-Authorization", ascii "Proxy-Authenticate"]

variable (B : Beast)

def buildRemoteRequestHeader (clientRequestHeader : RequestHeader) (remoteInfo : RemoteInfo) :
    Except Bytes RequestHeader := do
  let header ← setMethod (B.method clientRequestHeader) RequestHeader.empty
  let header := { header with
    version := clientRequestHeader.version
    target := remoteInfo.forwardTarget
    fields := Fields.insertAll clientRequestHeader.fields header.fields }
  pure { header with
    fields := fieldsToErase.foldl (fun fields name => Fields.erase name fields) header.fields }

/-- The message `WriteRemoteRequestHeader` serializes. -/
def remoteRequest (remoteRequestHeader : RequestHeader) : Except Bytes RequestHeader := do
  let request ← setMethod (B.method remoteRequestHeader) RequestHeader.empty
  pure { request with
    version := remoteRequestHeader.version
    target := remoteRequestHeader.target
    fields := Fields.insertAll remoteRequestHeader.fields request.fields }

/-- The message `WriteRemoteResponseHeaderToClient` serializes. -/
def clientResponse (remoteResponseHeader : ResponseHeader) : ResponseHeader :=
  { ResponseHeader.empty with
    version := remoteResponseHeader.version
    status := B.result remoteResponseHeader
    reason := remoteResponseHeader.reason
    fields := Fields.insertAll remoteResponseHeader.fields ResponseHeader.empty.fields }

/-- The request head the remote gets when no rule applies. -/
def rebuiltRequest (clientRequestHeader : RequestHeader) (remoteInfo : RemoteInfo) :
    Except Bytes RequestHeader :=
  buildRemoteRequestHeader B clientRequestHeader remoteInfo >>= remoteRequest B

/-- The response head the client gets when no rule applies. -/
def relayedResponse (remoteResponseHeader : ResponseHeader) : ResponseHeader :=
  B.onWire (clientResponse B remoteResponseHeader)

/-! ## What the copies keep -/

variable {B}

theorem method_of_known {header : RequestHeader} (h : B.knownVerb header.method = true) :
    B.method header = .named header.method := by
  rw [Beast.method, if_pos h]

theorem method_of_unknown {header : RequestHeader} (h : B.knownVerb header.method ≠ true) :
    B.method header = .unknown := by
  rw [Beast.method, if_neg h]

/-- The fields of a rebuilt request. -/
def forwardedFields (fields : Fields) : Fields :=
  fieldsToErase.foldl (fun fields name => Fields.erase name fields) (Fields.insertAll fields [])

theorem buildRemoteRequestHeader_known {header : RequestHeader} (info : RemoteInfo)
    (h : B.knownVerb header.method = true) : buildRemoteRequestHeader B header info
      = .ok ⟨header.method, header.version, info.forwardTarget, forwardedFields header.fields⟩ := by
  rw [buildRemoteRequestHeader, method_of_known h]
  rfl

theorem buildRemoteRequestHeader_unknown {header : RequestHeader} (info : RemoteInfo)
    (h : B.knownVerb header.method ≠ true) :
    buildRemoteRequestHeader B header info = .error (ascii "unknown verb") := by
  rw [buildRemoteRequestHeader, method_of_unknown h]
  rfl

theorem remoteRequest_known {header : RequestHeader} (h : B.knownVerb header.method = true) :
    remoteRequest B header = .ok { header with fields := Fields.insertAll header.fields [] } := by
  rw [remoteRequest, method_of_known h]
  rfl

theorem rebuiltRequest_known {header : RequestHeader} (info : RemoteInfo)
    (h : B.knownVerb header.method = true) : rebuiltRequest B header info
      = .ok ⟨header.method, header.version, info.forwardTarget,
          Fields.insertAll (forwardedFields header.fields) []⟩ := by
  rw [rebuiltRequest, buildRemoteRequestHeader_known info h]
  exact remoteRequest_known h

/-- A field of this name is not forwarded. -/
def Erased (name : Bytes) : Prop := ∃ name' ∈ fieldsToErase, toLower name' = toLower name

instance (name : Bytes) : Decidable (Erased name) :=
  inferInstanceAs (Decidable (∃ name' ∈ fieldsToErase, toLower name' = toLower name))

theorem values_eraseAll (names : List Bytes) {name : Bytes}
    (h : ∀ name' ∈ names, toLower name' ≠ toLower name) (fields : Fields) :
    Fields.values name (names.foldl (fun fields name => Fields.erase name fields) fields)
      = Fields.values name fields := by
  induction names generalizing fields with
  | nil => rfl
  | cons name' names ih =>
    rw [List.foldl_cons, ih fun n hn => h n (List.mem_cons_of_mem _ hn)]
    exact Fields.values_erase_ne (h name' List.mem_cons_self) fields

/-- The forwarded fields of a name that is not erased are the client's. -/
theorem values_forwardedFields {name : Bytes} (h : ¬ Erased name) (fields : Fields) :
    Fields.values name (forwardedFields fields) = Fields.values name fields := by
  rw [forwardedFields, values_eraseAll, Fields.values_insertAll]
  intro name' hmem heq
  exact h ⟨name', hmem, heq⟩

theorem eraseAll_eq_filter (names : List Bytes) (fields : Fields) :
    names.foldl (fun fields name => Fields.erase name fields) fields
      = fields.filter (fun f => ∀ name ∈ names, Field.key f ≠ toLower name) := by
  induction names generalizing fields with
  | nil => simp
  | cons name names ih =>
    rw [List.foldl_cons, ih, Fields.erase, MultiMap.erase, List.filter_filter]
    refine List.filter_congr fun f _ => ?_
    simp [Bool.and_comm]

/-- Up to order, the forwarded fields are the client's without the erased ones. -/
theorem forwardedFields_perm (fields : Fields) :
    (forwardedFields fields).Perm (fields.filter (fun f => ¬ Erased f.name)) := by
  rw [forwardedFields, eraseAll_eq_filter]
  refine ((Fields.insertAll_perm fields).filter _).trans (List.Perm.of_eq ?_)
  refine List.filter_congr fun f _ => ?_
  simp [Erased, Field.key, eq_comm]

/-! ## Fidelity -/

/-- The response head `written` is `header`: start line, values of every name, no other field. -/
structure SameResponse (header written : ResponseHeader) : Prop where
  version : written.version = header.version
  status : written.status = header.status
  reason : written.reason = header.reason
  values : ∀ name, Fields.values name written.fields = Fields.values name header.fields
  fields : written.fields.Perm header.fields

/-- The request head `written` is `header` sent to `info`, less the fields meant for the proxy. -/
structure SameRequest (header : RequestHeader) (info : RemoteInfo) (written : RequestHeader) :
    Prop where
  method : written.method = header.method
  version : written.version = header.version
  target : written.target = info.forwardTarget
  values : ∀ name, ¬ Erased name →
    Fields.values name written.fields = Fields.values name header.fields
  fields : written.fields.Perm (header.fields.filter (fun f => ¬ Erased f.name))

/-- **The relayed response head** is the remote's head exactly if its status code has an enumerator
and its reason is not one the serializer replaces. -/
theorem relayedResponse_same_iff (B : Beast) (header : ResponseHeader)
    (h : 100 ≤ header.status) : SameResponse header (relayedResponse B header) ↔
      B.knownStatus header.status = true ∧
        (header.reason = [] → B.obsoleteReason header.status = []) := by
  constructor
  · intro hsame
    have hstatus : B.result header = header.status := hsame.status
    have hknown : B.knownStatus header.status = true := by
      by_contra hne
      rw [Beast.result, if_neg hne] at hstatus
      omega
    refine ⟨hknown, fun hreason => ?_⟩
    have hwritten := hsame.reason
    simp only [relayedResponse, Beast.onWire, clientResponse, hstatus, if_pos hreason] at hwritten
    rw [hwritten, hreason]
  · rintro ⟨hknown, hreason⟩
    have hstatus : B.result header = header.status := by rw [Beast.result, if_pos hknown]
    refine ⟨rfl, hstatus, ?_, fun name => ?_, ?_⟩
    · simp only [relayedResponse, Beast.onWire, clientResponse, hstatus]
      by_cases hempty : header.reason = []
      · rw [if_pos hempty, hreason hempty, hempty]
      · rw [if_neg hempty]
    · exact Fields.values_insertAll name header.fields
    · exact Fields.insertAll_perm header.fields

theorem relayedResponse_same_ok :
    SameResponse ⟨11, 200, ascii "OK", [⟨ascii "Set-Cookie", ascii "a=1"⟩]⟩
      (relayedResponse HeadTable.minimal.beast
        ⟨11, 200, ascii "OK", [⟨ascii "Set-Cookie", ascii "a=1"⟩]⟩) :=
  (relayedResponse_same_iff HeadTable.minimal.beast _ (by decide)).mpr (by decide)

/-- A `299` response goes to the client as status `0`. -/
theorem relayedResponse_status_lost : ¬ ∀ (B : Beast) (header : ResponseHeader),
    100 ≤ header.status ∧ header.status ≤ 999 → SameResponse header (relayedResponse B header) := by
  intro h
  have hstatus := (h HeadTable.minimal.beast ⟨11, 299, ascii "Custom", []⟩ (by decide)).status
  exact absurd hstatus (by decide)

/-- **The rebuilt request head** is the client's head, and building it does not throw, exactly if
the method has an enumerator. -/
theorem rebuiltRequest_same_iff (B : Beast) (header : RequestHeader) (info : RemoteInfo) :
    (∃ written, rebuiltRequest B header info = .ok written ∧ SameRequest header info written) ↔
      B.knownVerb header.method = true := by
  constructor
  · rintro ⟨written, hok, -⟩
    by_contra hne
    rw [rebuiltRequest, buildRemoteRequestHeader_unknown info hne] at hok
    exact absurd hok (by simp [Except.bind, bind])
  · intro hknown
    refine ⟨_, rebuiltRequest_known info hknown, rfl, rfl, rfl, fun name hname => ?_, ?_⟩
    · rw [Fields.values_insertAll, values_forwardedFields hname]
    · exact (Fields.insertAll_perm _).trans (forwardedFields_perm header.fields)

/-- A `BREW` request ends the session with an exception. -/
theorem rebuiltRequest_throws : ¬ ∀ (B : Beast) (header : RequestHeader) (info : RemoteInfo),
    ∃ written, rebuiltRequest B header info = .ok written ∧ SameRequest header info written := by
  intro h
  obtain ⟨written, hok, -⟩ := h HeadTable.minimal.beast
    ⟨ascii "BREW", 11, ascii "http://pot/", []⟩ ⟨ascii "http", ascii "pot", ascii "80", ascii "/"⟩
  have hthrows : rebuiltRequest HeadTable.minimal.beast
      ⟨ascii "BREW", 11, ascii "http://pot/", []⟩
      ⟨ascii "http", ascii "pot", ascii "80", ascii "/"⟩
        = .error (ascii "unknown verb") := by decide
  rw [hthrows] at hok
  exact absurd hok (by simp)

end ProxyPP.Http
