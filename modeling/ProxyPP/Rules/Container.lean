import ProxyPP.Rules.Action

/-!
# ProxyPP.Rules.Container — the header behind an adapter

The adapters call `contains`, `set` and `erase` on the header they wrap.  What `set` stores is left
open here: Beast's own trims the blanks around a value and throws on a field of more than 64 KB.
Where it stores every field as it is given (`StoresVerbatim`), the executors do over a container
what they do over `Fields` (`execute_ok`, `execute_error`).  The headers of the model are such
containers, with the executors as they are (`execute_requestFields`, `execute_responseFields`).
-/

namespace ProxyPP.Rules

open ProxyPP ProxyPP.Lib ProxyPP.Http

/-- What the adapters call on a header of type `M`. -/
structure Container (M : Type) where
  fields : M → Fields
  contains : Bytes → M → Bool
  /-- The header, or the exception. -/
  set : Bytes → Bytes → M → Except Bytes M
  erase : Bytes → M → M

namespace Container

variable {M : Type} (C : Container M)

/-- A field of any size is stored as it is given, and names are compared case-insensitively. -/
structure StoresVerbatim : Prop where
  contains : ∀ name m, C.contains name m = Fields.contains name (C.fields m)
  set : ∀ name value m, ∃ m', C.set name value m = .ok m' ∧
    C.fields m' = Fields.set name value (C.fields m)
  erase : ∀ name m, C.fields (C.erase name m) = Fields.erase name (C.fields m)

/-- `request_.set(name, value)`, with its exception. -/
def put (name value : Bytes) : EStateM (Error ⊕ Bytes) M PUnit := fun m =>
  match C.set name value m with
  | .ok m' => .ok ⟨⟩ m'
  | .error what => .error (.inr what) m

/-- The calls of an adapter. -/
def make : FieldChange → EStateM (Error ⊕ Bytes) M PUnit
  | .set name value => C.put name value
  | .add name value => do
    if C.contains name (← get) then pure ⟨⟩ else C.put name value
  | .replace name value => do
    if C.contains name (← get) then C.put name value else pure ⟨⟩
  | .remove name => modify (C.erase name)

/-- An executor over an adapter of the container. -/
def execute (action : Action) : EStateM (Error ⊕ Bytes) M PUnit :=
  match changeOf action with
  | .ok change => C.make change
  | .error e => throw (.inl e)

/-- `ExecuteActions` -/
def executeAll : List Action → EStateM (Error ⊕ Bytes) M PUnit
  | [] => pure ⟨⟩
  | action :: actions => do
    C.execute action
    executeAll actions

/-- An action list that ends in `m`, after all of it or with an action that is rejected. -/
def ended (error : Option Error) (m : M) : EStateM.Result (Error ⊕ Bytes) M PUnit :=
  match error with
  | none => .ok ⟨⟩ m
  | some e => .error (.inl e) m

variable {C}

theorem StoresVerbatim.put (h : C.StoresVerbatim) (name value : Bytes) (m : M) :
    ∃ m', C.put name value m = .ok ⟨⟩ m' ∧ C.fields m' = Fields.set name value (C.fields m) := by
  obtain ⟨m', hset, hfields⟩ := h.set name value m
  refine ⟨m', ?_, hfields⟩
  rw [Container.put, hset]

/-- The calls of an adapter make the change, without an exception. -/
theorem StoresVerbatim.make (h : C.StoresVerbatim) (change : FieldChange) (m : M) :
    ∃ m', C.make change m = .ok ⟨⟩ m' ∧ C.fields m' = change.apply (C.fields m) := by
  rcases change with ⟨n, v⟩ | ⟨n, v⟩ | ⟨n, v⟩ | n
  · exact h.put n v m
  · simp only [Container.make, bind_ok (get_run m), FieldChange.apply, ← h.contains]
    by_cases hc : C.contains n m = true
    · rw [if_pos hc, if_pos hc]
      exact ⟨m, rfl, rfl⟩
    · rw [if_neg hc, if_neg hc]
      exact h.put n v m
  · simp only [Container.make, bind_ok (get_run m), FieldChange.apply, ← h.contains]
    by_cases hc : C.contains n m = true
    · rw [if_pos hc, if_pos hc]
      exact h.put n v m
    · rw [if_neg hc, if_neg hc]
      exact ⟨m, rfl, rfl⟩
  · exact ⟨_, rfl, h.erase n m⟩

theorem execute_ok (h : C.StoresVerbatim) {action : Action} {change : FieldChange}
    (hc : changeOf action = .ok change) (m : M) :
    ∃ m', C.execute action m = .ok ⟨⟩ m' ∧ C.fields m' = change.apply (C.fields m) := by
  rw [execute, hc]
  exact h.make change m

theorem execute_error {action : Action} {e : Error} (hc : changeOf action = .error e) (m : M) :
    C.execute action m = .error (.inl e) m := by
  rw [execute, hc]
  rfl

/-- The fields of a message as a container. -/
def ofFields (fields : M → Fields) (withFields : Fields → M → M) : Container M where
  fields := fields
  contains name m := Fields.contains name (fields m)
  set name value m := .ok (withFields (Fields.set name value (fields m)) m)
  erase name m := withFields (Fields.erase name (fields m)) m

section OfFields

variable {fields : M → Fields} {withFields : Fields → M → M}

theorem ofFields_verbatim (hget : ∀ fs m, fields (withFields fs m) = fs) :
    (ofFields fields withFields).StoresVerbatim :=
  ⟨fun _ _ => rfl, fun _ _ _ => ⟨_, rfl, hget _ _⟩, fun _ _ => hget _ _⟩

theorem ofFields_make (hput : ∀ m, withFields (fields m) m = m) (change : FieldChange) (m : M) :
    (ofFields fields withFields).make change m
      = .ok ⟨⟩ (withFields (change.apply (fields m)) m) := by
  rcases change with ⟨n, v⟩ | ⟨n, v⟩ | ⟨n, v⟩ | n
  · rfl
  · rw [make, bind_ok (get_run m), FieldChange.apply]
    by_cases hc : Fields.contains n (fields m) = true
    · rw [if_pos hc, hput]
      exact congrFun (if_pos hc) m
    · rw [if_neg hc]
      exact congrFun (if_neg hc) m
  · rw [make, bind_ok (get_run m), FieldChange.apply]
    by_cases hc : Fields.contains n (fields m) = true
    · rw [if_pos hc]
      exact congrFun (if_pos hc) m
    · rw [if_neg hc, hput]
      exact congrFun (if_neg hc) m
  · rfl

end OfFields

end Container

/-! ## The headers of the model -/

def requestFields : Container RequestHeader :=
  .ofFields RequestHeader.fields fun fields request => { request with fields := fields }

def responseFields : Container ResponseHeader :=
  .ofFields ResponseHeader.fields fun fields response => { response with fields := fields }

theorem requestFields_verbatim : requestFields.StoresVerbatim :=
  Container.ofFields_verbatim fun _ _ => rfl

theorem responseFields_verbatim : responseFields.StoresVerbatim :=
  Container.ofFields_verbatim fun _ _ => rfl

/-- `ExecuteRequestAction` is the executor over `requestFields`. -/
theorem execute_requestFields (action : Action) :
    requestFields.execute action = EStateM.adaptExcept Sum.inl (executeRequestAction action) := by
  funext request
  have hrun := executeRequestAction_eq action request
  cases hc : changeOf action with
  | error e =>
    rw [hc] at hrun
    rw [Container.execute_error hc, adaptExcept_error hrun]
  | ok change =>
    rw [hc] at hrun
    rw [adaptExcept_eq_ok.mpr hrun, Container.execute, hc]
    exact Container.ofFields_make (fun _ => rfl) change request

/-- `ExecuteResponseAction` is the executor over `responseFields`. -/
theorem execute_responseFields (action : Action) :
    responseFields.execute action = EStateM.adaptExcept Sum.inl (executeResponseAction action) := by
  funext response
  have hrun := executeResponseAction_eq action response
  cases hc : changeOf action with
  | error e =>
    rw [hc] at hrun
    rw [Container.execute_error hc, adaptExcept_error hrun]
  | ok change =>
    rw [hc] at hrun
    rw [adaptExcept_eq_ok.mpr hrun, Container.execute, hc]
    exact Container.ofFields_make (fun _ => rfl) change response

end ProxyPP.Rules
