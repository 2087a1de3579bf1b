import ProxyPP.Rules.Apply
import ProxyPP.Rules.Container

/-!
# ProxyPP.Rules.Agreement — requests and responses under the same actions

`ExecuteRequestAction` over `BeastRequestAdapter` and `ExecuteResponseAction` over
`BeastResponseAdapter` are written twice in the source.  `Alike` relates a request and a response
with the same fields; one action keeps it and ends the same way on both sides
(`executeAction_alike`), and so does a list of them (`performs_alike`).  The same holds over any
containers that store fields verbatim (`rule_paths_agree`).
-/

namespace ProxyPP.Rules

open ProxyPP ProxyPP.Lib ProxyPP.Http

variable {μ ν A : Type}

/-- Two executors that end an action alike on related messages: both change them and keep the
relation, or both reject it with one error and leave them as they are. -/
def EndsAlike (R : μ → ν → Prop) (exec : A → EStateM Error μ PUnit)
    (exec' : A → EStateM Error ν PUnit) : Prop :=
  ∀ action m n, R m n →
    (∃ m' n', exec action m = .ok ⟨⟩ m' ∧ exec' action n = .ok ⟨⟩ n' ∧ R m' n') ∨
      ∃ e, exec action m = .error e m ∧ exec' action n = .error e n

/-- **Action lists side by side.**  Executors that end every action alike perform the same actions
of a list, stop at the same one with the same error, and keep the relation. -/
theorem performs_alike {R : μ → ν → Prop} {exec : A → EStateM Error μ PUnit}
    {exec' : A → EStateM Error ν PUnit} (h : EndsAlike R exec exec') (actions : List A) {m : μ}
    {n : ν} (hmn : R m n) : ∃ done error m' n', R m' n' ∧
      Performs exec actions m done error m' ∧ Performs exec' actions n done error n' := by
  induction actions generalizing m n with
  | nil => exact ⟨[], none, m, n, hmn, .nil m, .nil n⟩
  | cons action actions ih =>
    rcases h action m n hmn with ⟨m₁, n₁, hm, hn, h₁⟩ | ⟨e, hm, hn⟩
    · obtain ⟨done, error, m', n', hR, hp, hp'⟩ := ih h₁
      exact ⟨action :: done, error, m', n', hR, hp.cons hm, hp'.cons hn⟩
    · exact ⟨[], some e, m, n, hmn, .failed hm, .failed hn⟩

/-- A request and a response with the same fields, the rest as in `request` and `response`. -/
def Alike (request : RequestHeader) (response : ResponseHeader) (m : RequestHeader)
    (n : ResponseHeader) : Prop :=
  ∃ fields, m = { request with fields := fields } ∧ n = { response with fields := fields }

/-- One action, over every op, target, data variant and guard. -/
theorem executeAction_alike (request : RequestHeader) (response : ResponseHeader) :
    EndsAlike (Alike request response) executeRequestAction executeResponseAction := by
  rintro action m n ⟨fields, rfl, rfl⟩
  rw [executeRequestAction_eq, executeResponseAction_eq]
  cases changeOf action with
  | ok change => exact Or.inl ⟨_, _, rfl, rfl, change.apply fields, rfl, rfl⟩
  | error e => exact Or.inr ⟨e, rfl, rfl⟩

/-- Over a container that stores fields verbatim an action list ends as it does over a request. -/
theorem Container.executeAll_verbatim {M : Type} {C : Container M} (h : C.StoresVerbatim)
    {error : Option Error} {request' : RequestHeader} : ∀ (actions : List Action)
    {request : RequestHeader} {m : M}, C.fields m = request.fields →
    executeActions executeRequestAction actions request = outcome error request' →
      ∃ m', C.fields m' = request'.fields ∧ C.executeAll actions m = Container.ended error m'
  | [], request, m, hm, hrun => by
    cases error with
    | none =>
      cases hrun
      exact ⟨m, hm, rfl⟩
    | some e => cases hrun
  | action :: actions, request, m, hm, hrun => by
    have hfirst := executeRequestAction_eq action request
    cases hc : changeOf action with
    | ok change =>
      rw [hc] at hfirst
      rw [executeActions_cons_ok hfirst] at hrun
      obtain ⟨m₁, hm₁, hfields⟩ := C.execute_ok h hc m
      obtain ⟨m', hm', hall⟩ := executeAll_verbatim h actions (hm ▸ hfields) hrun
      exact ⟨m', hm', (bind_ok hm₁).trans hall⟩
    | error e =>
      rw [hc] at hfirst
      rw [executeActions, bind_error hfirst] at hrun
      cases error with
      | none => cases hrun
      | some e' =>
        cases hrun
        exact ⟨m, hm, bind_error (Container.execute_error hc m)⟩

/-- **The two rule paths agree.**  From one field list, `ExecuteActions` over a request and over a
response performs the same actions, stops at the same one (the one behind `done`) with the same
error or at none, and leaves the same field list; and so it does over every container that stores
fields verbatim. -/
theorem rule_paths_agree (actions : List Action) (fields : Fields) (request : RequestHeader)
    (response : ResponseHeader) : ∃ done error fields',
    (Performs executeRequestAction actions { request with fields := fields } done error
        { request with fields := fields' } ∧
      executeActions executeRequestAction actions { request with fields := fields }
        = outcome error { request with fields := fields' }) ∧
    Performs executeResponseAction actions { response with fields := fields } done error
        { response with fields := fields' } ∧
      executeActions executeResponseAction actions { response with fields := fields }
        = outcome error { response with fields := fields' } ∧
    ∀ (M : Type) (C : Container M), C.StoresVerbatim → ∀ m, C.fields m = fields →
      ∃ m', C.fields m' = fields' ∧ C.executeAll actions m = Container.ended error m' := by
  have hstart : Alike request response { request with fields := fields }
      { response with fields := fields } := ⟨fields, rfl, rfl⟩
  obtain ⟨done, error, m, n, ⟨fields', rfl, rfl⟩, hreq, hres⟩ :=
    performs_alike (executeAction_alike request response) actions hstart
  have hreq' := executeActions_of_performs hreq
  have hres' := executeActions_of_performs hres
  exact ⟨done, error, fields', ⟨hreq, hreq'⟩, hres, hres', fun M C hC m hm =>
    Container.executeAll_verbatim hC actions hm hreq'⟩

/-- The fields of a response under an action that is performed and one that is not. -/
theorem rule_paths_agree_responseFields :
    let actions : List Action := [⟨.set, .header, .headerNameValue (ascii "A") (ascii "1")⟩,
      ⟨.remove, .header, .headerName (ascii "Host")⟩]
    ∃ error response, executeActions executeRequestAction actions RequestHeader.empty
        = outcome error { RequestHeader.empty with fields := response.fields } ∧
      responseFields.executeAll actions ResponseHeader.empty
        = Container.ended error response := by
  intro actions
  obtain ⟨done, error, fields', ⟨-, hreq⟩, -, -, hverbatim⟩ :=
    rule_paths_agree actions [] RequestHeader.empty ResponseHeader.empty
  obtain ⟨response, rfl, hrun⟩ := hverbatim ResponseHeader responseFields responseFields_verbatim
    ResponseHeader.empty rfl
  exact ⟨error, response, hreq, hrun⟩

end ProxyPP.Rules
