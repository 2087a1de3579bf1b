import ProxyPP.Http.Halves

/-!
# ProxyPP.Http.Runs — the runs of a session

`Run` repeats the exchange as long as it ends in Continue.  `Reached env s₀ k s` says that exchange
number `k` of a session that started in `s₀` starts in `s`; a run ends with the exchange that does
not continue (`run_ends`).  What holds in every run is proved by induction on `Reached`.
-/

namespace ProxyPP.Http

open ProxyPP ProxyPP.Lib ProxyPP.Rules

variable {η : Type}

/-- A session with a client and no remote yet. -/
def Session.new (clientSock : Socket) (script : η) (dials : List Dial) : Session η where
  clientSock := clientSock
  remoteSock := ⟨false, ⟨0, ⟨[], 0⟩⟩, [], false, [], []⟩
  clientReadBuffer := []
  remoteReadBuffer := []
  remoteState := ⟨[], [], false⟩
  closed := false
  script := script
  dials := dials
  resolutions := []
  nextConnection := clientSock.connection.id + 1

/-- Exchange `k`, counted from `0`, of the session that started in `s₀` starts in this state. -/
inductive Reached (env : Env η) (s₀ : Session η) : ℕ → Session η → Prop
  | start : Reached env s₀ 0 s₀
  | next {k : ℕ} {s t : Session η} : Reached env s₀ k s →
      handleOneExchange env s = .ok .continue t → Reached env s₀ (k + 1) t

variable (env : Env η)

/-- `Close`: both sockets closed, once. -/
theorem close_run (s : Session η) : close s = .ok ⟨⟩ (if s.closed then s else
    { s with
      closed := true, remoteSock := s.remoteSock.close, remoteState := ⟨[], [], false⟩
      clientSock := s.clientSock.close }) := by
  unfold close
  rw [bind_ok (get_run s)]
  by_cases hc : s.closed = true
  · rw [if_pos hc, if_pos hc]
    rfl
  · rw [if_neg hc, if_neg hc]
    rfl

/-- **The runs of `Run`.**  Its loop is left by an exchange that ends in Close, and then the session
is closed; or an exchange does not return. -/
theorem run_ends (s₀ : Session η) : Ends (run env) s₀
    (fun _ t => ∃ k s u, Reached env s₀ k s ∧ handleOneExchange env s = .ok .close u ∧
      close u = .ok ⟨⟩ t)
    (fun e t => ∃ k s, Reached env s₀ k s ∧
      (handleOneExchange env s = .error e t ∨ e = .outOfFuel ∧ t = s)) := by
  have hloop : Ends (whileLoop .outOfFuel (runStep env) env.fuel ()) s₀
      (fun _ u => ∃ k s, Reached env s₀ k s ∧ handleOneExchange env s = .ok .close u)
      (fun e t => ∃ k s, Reached env s₀ k s ∧
        (handleOneExchange env s = .error e t ∨ e = .outOfFuel ∧ t = s)) := by
    refine ends_whileLoop (fun _ s => ∃ k, Reached env s₀ k s) ?_ ?_ env.fuel () s₀ ⟨0, .start⟩
    · rintro - s ⟨k, hs⟩
      cases hx : handleOneExchange env s with
      | ok r t =>
        refine ends_bind (Ends.of_ok hx ?_)
        rcases r with _ | _
        · exact ends_continue ⟨k + 1, hs.next hx⟩
        · exact ends_leave ⟨k, s, hs, hx⟩
      | error e t => exact ends_bind (Ends.of_error hx ⟨k, s, hs, Or.inl hx⟩)
    · rintro - s ⟨k, hs⟩
      exact ⟨k, s, hs, Or.inr ⟨rfl, rfl⟩⟩
  refine hloop.bind ?_
  rintro - u ⟨k, s, hs, hx⟩
  exact Ends.of_ok (close_run u) ⟨k, s, u, hs, hx, close_run u⟩

/-! ### Concrete runs -/

/-- A head of a table is read as its entry if no other head is a prefix of it, nor it of another. -/
theorem HeadTable.delimits {α : Type} {heads : List (Bytes × α)} {head : Bytes} {value : α}
    (hmem : (head, value) ∈ heads)
    (hfree : ∀ h ∈ heads, h.1 <+: head ∨ head <+: h.1 → h = (head, value)) :
    Delimits (HeadTable.parse heads) head value := by
  constructor
  · intro rest
    have hfind : heads.find? (fun h => h.1.isPrefixOf (head ++ rest)) = some (head, value) := by
      cases hf : heads.find? (fun h => h.1.isPrefixOf (head ++ rest)) with
      | none =>
        have hno := List.find?_eq_none.mp hf (head, value) hmem
        simp at hno
      | some h =>
        have hpre : h.1 <+: head ++ rest := by simpa using List.find?_some hf
        have hcmp := List.prefix_or_prefix_of_prefix hpre (List.prefix_append head rest)
        rw [hfree h (List.mem_of_find?_eq_some hf) hcmp]
    rw [HeadTable.parse, hfind]
  · intro q hq _ hne
    have hfind : heads.find? (fun h => h.1.isPrefixOf q) = none := by
      refine List.find?_eq_none.mpr fun h hh hpre => ?_
      have hpre : h.1 <+: q := by simpa using hpre
      obtain rfl := hfree h hh (Or.inl (hpre.trans hq))
      exact hne (hq.eq_of_length_le hpre.length_le)
    have hany : heads.any (fun h => q.isPrefixOf h.1) = true := by
      refine List.any_eq_true.mpr ⟨_, hmem, ?_⟩
      simpa using hq
    rw [HeadTable.parse, hfind]
    exact if_pos hany

theorem HeadTable.mem_of_parse {α : Type} {heads : List (Bytes × α)} {buffer : Bytes} {value : α}
    {consumed : ℕ} (h : HeadTable.parse heads buffer = .done value consumed) :
    ∃ head, (head, value) ∈ heads := by
  unfold HeadTable.parse at h
  cases hf : heads.find? (fun h => h.1.isPrefixOf buffer) with
  | some entry =>
    rw [hf] at h
    cases h
    exact ⟨entry.1, List.mem_of_find?_eq_some hf⟩
  | none =>
    rw [hf] at h
    dsimp only at h
    split at h
    · cases h
    · cases h

/-- A `GET` request to a host. -/
def getOf (host : Bytes) : Bytes × RequestParser :=
  (ascii "GET http://" ++ host ++ ascii "/ HTTP/1.1\r\n\r\n",
    ⟨⟨ascii "GET", 11, ascii "http://" ++ host ++ ascii "/", []⟩, false, none, true⟩)

/-- A response without content. -/
def emptyOk : Bytes × ResponseParser :=
  (ascii "HTTP/1.1 200 OK\r\nContent-Length: 0\r\n\r\n",
    ⟨⟨11, 200, ascii "OK", [⟨ascii "Content-Length", ascii "0"⟩]⟩, false, some 0, true⟩)

/-- Sessions with `GET` requests to `hosts`, the given response heads, and no rules. -/
def Env.ofHosts (hosts : List Bytes) (responses : List (Bytes × ResponseParser)) :
    Env (List (Except Error Bool)) where
  beast := HeadTable.beast
    ⟨[ascii "GET"], [(100, ascii "Continue"), (200, ascii "OK")], hosts.map getOf, responses⟩
  urls :=
    { parseAbsoluteUri := fun target =>
        (hosts.find? fun host => (getOf host).2.header.target == target).map fun host =>
          ⟨ascii "http", host, [], ascii "/", ascii "/", false, []⟩
      parseAuthority := fun _ => none }
  ruleEngine := Engine.scripted
  ruleHttpConfig := none
  schedule := []
  fuel := 20

/-- A dial that reaches its only endpoint, which sends `reads`. -/
def Dial.ofReads (reads : List Bytes) : Dial :=
  ⟨some [⟨[], 80⟩], [some ⟨reads.map (ReadOutcome.mk none), true, []⟩]⟩

/-- A session whose client sends `requests`, and whose dials reach `remotes`. -/
def Session.ofReads (requests : List Bytes) (remotes : List (List Bytes)) :
    Session (List (Except Error Bool)) :=
  .new (scriptedSocket 0 (requests.map (ReadOutcome.mk none))) [] (remotes.map Dial.ofReads)

variable {env}

/-- A function that was evaluated. -/
theorem ok_stateOf {α : Type} {x : EStateM.Result Stop (Session η) α} {a : α}
    (h : (returned x).map Prod.fst = some a) : x = .ok a (stateOf x) := by
  obtain ⟨⟨b, t⟩, hr, rfl⟩ := Option.map_eq_some_iff.mp h
  rw [returned_eq_some.mp hr]
  rfl

/-- An exchange that was evaluated to Continue. -/
theorem Reached.next_stateOf {s₀ s : Session η} {k : ℕ} (h : Reached env s₀ k s)
    (hx : (returned (handleOneExchange env s)).map Prod.fst = some .continue) :
    Reached env s₀ (k + 1) (stateOf (handleOneExchange env s)) :=
  h.next (ok_stateOf hx)

end ProxyPP.Http
