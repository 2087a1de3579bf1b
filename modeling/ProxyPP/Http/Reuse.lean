import Mathlib.Data.List.Destutter
import ProxyPP.Http.Routing

/-!
# ProxyPP.Http.Reuse — when a connection is reused

`EnsureRemoteConnected` keeps a connection as long as requests are for the same remote.  Over a run
the resolutions are the remotes of the requests with repetitions in a row left out
(`connections_reused`): a remote that comes back after another one is resolved again, and a request
for the remote of the request before it resolves nothing, however its exchange ends.
-/

namespace ProxyPP.Http

open ProxyPP ProxyPP.Lib ProxyPP.Rules

/-! ## Leaving out repetitions -/

section Destutter

variable {α : Type} [DecidableEq α]

theorem destutter'_concat (a b : α) (l : List α) : (l ++ [a]).destutter' (· ≠ ·) b
    = l.destutter' (· ≠ ·) b ++ if (b :: l).getLast? = some a then [] else [a] := by
  induction l generalizing b with
  | nil =>
    by_cases h : b = a
    · simp [h]
    · simp [h]
  | cons c l ih =>
    have hlast : (b :: c :: l).getLast? = (c :: l).getLast? := by
      rw [List.getLast?_cons_cons]
    rw [List.cons_append, hlast]
    by_cases h : b = c
    · subst h
      rw [List.destutter'_cons_neg _ (not_not.mpr rfl),
        List.destutter'_cons_neg _ (not_not.mpr rfl), ih]
    · rw [List.destutter'_cons_pos _ h, List.destutter'_cons_pos _ h, ih, List.cons_append]

/-- One more element is kept unless it repeats the last one. -/
theorem destutter_concat (l : List α) (a : α) : (l ++ [a]).destutter (· ≠ ·)
    = l.destutter (· ≠ ·) ++ if l.getLast? = some a then [] else [a] := by
  cases l with
  | nil => simp
  | cons b l =>
    rw [List.cons_append, List.destutter_cons', List.destutter_cons', destutter'_concat]

end Destutter

/-! ## Remotes -/

def RemoteInfo.remote (info : RemoteInfo) : Bytes × Bytes := (info.host, info.port)

def Resolution.remote (r : Resolution) : Bytes × Bytes := (r.host, r.port)

variable {η : Type} {env : Env η}

/-- A run gets to one state at the start of exchange `k`. -/
theorem Reached.unique {s₀ s t : Session η} {k : ℕ} (h : Reached env s₀ k s)
    (h' : Reached env s₀ k t) : s = t := by
  induction h generalizing t with
  | start => cases h' with
    | start => rfl
  | next _ hx ih => cases h' with
    | next h'' hx' =>
      obtain rfl := ih h''
      rw [hx] at hx'
      exact (EStateM.Result.ok.inj hx').2

/-- The remotes of the exchanges before `k`, what was resolved for them, and the connection left. -/
structure ReusedUpTo (env : Env η) (s₀ : Session η) (infos : List RemoteInfo) (k : ℕ)
    (s : Session η) : Prop where
  length : infos.length = k
  own : ∀ i sᵢ, i < k → Reached env s₀ i sᵢ → exchangeInfo env sᵢ = infos[i]?
  resolved : s.resolutions.map Resolution.remote
    = (infos.map RemoteInfo.remote).destutter (· ≠ ·)
  dials : s.dials = s₀.dials.drop s.resolutions.length
  connected : ∀ info, s.reuses info = true ↔
    (infos.map RemoteInfo.remote).getLast? = some info.remote

/-- What an exchange that continues resolves. -/
theorem resolutions_of_continue {s t : Session η} (h : handleOneExchange env s = .ok .continue t) :
    ∃ info, exchangeInfo env s = some info ∧ t.remoteState = ⟨info.host, info.port, true⟩ ∧
      t.remoteSock.isOpen = true ∧
      (s.reuses info = true ∧ t.resolutions = s.resolutions ∧ t.dials = s.dials ∨
        s.reuses info = false ∧ t.dials = s.dials.tail ∧ ∃ endpoints,
          t.resolutions = s.resolutions ++ [⟨info.host, info.port, endpoints⟩]) := by
  obtain ⟨parser, raw, s₀, info, s₁, request, s₂, hread, -, hinfo, hensure, hrequest, hresponse⟩ :=
    handleOneExchange_continue env h
  have h₀ : HeadOnly s s₀ := ((readClientRequestHeader_ends env s).ok hread).2
  have hup := (upstream_forwardRequest env parser raw info s₁).ok hrequest
  have hdown := (downstream_forwardResponse env parser request s₂).ok hresponse
  have hstate : t.remoteState = s₁.remoteState := by rw [hdown, hup]
  have hres : t.resolutions = s₁.resolutions := by rw [hdown, hup]
  have hdials : t.dials = s₁.dials := by rw [hdown, hup]
  have hreuses : s₀.reuses info = s.reuses info := by rw [h₀]; rfl
  refine ⟨info, by rw [exchangeInfo, hread]; exact hinfo, ?_⟩
  have hconnects : Connects info s₀ s₁ := (ensureRemoteConnected_ends info s₀).ok hensure
  rcases hconnects with ⟨hr, rfl⟩ | ⟨hr, dial, endpoints, endpoint, peer, -, -, -, rfl⟩
  · have hsame := hr
    simp only [Session.reuses, Bool.and_eq_true, decide_eq_true_eq] at hsame
    obtain ⟨⟨⟨hconn, -⟩, hhost⟩, hport⟩ := hsame
    refine ⟨?_, (connected_of_continue env h).2, Or.inl ⟨hreuses ▸ hr, ?_, ?_⟩⟩
    · rw [hstate, ← hhost, ← hport, ← hconn]
    · rw [hres, h₀]
    · rw [hdials, h₀]
  · refine ⟨hstate, (connected_of_continue env h).2, Or.inr ⟨hreuses ▸ hr, ?_, endpoints, ?_⟩⟩
    · rw [hdials, h₀]
    · rw [hres, h₀]

theorem ReusedUpTo.next {s₀ s t : Session η} {infos : List RemoteInfo} {k : ℕ}
    (h : ReusedUpTo env s₀ infos k s) (hs : Reached env s₀ k s)
    (hx : handleOneExchange env s = .ok .continue t) :
    ∃ info, ReusedUpTo env s₀ (infos ++ [info]) (k + 1) t := by
  obtain ⟨info, hinfo, hstate, hopen, hcase⟩ := resolutions_of_continue hx
  refine ⟨info, by simp [h.length], fun i sᵢ hi hsᵢ => ?_, ?_, ?_, fun other => ?_⟩
  · by_cases hlt : i < k
    · rw [List.getElem?_append_left (by rw [h.length]; exact hlt)]
      exact h.own i sᵢ hlt hsᵢ
    · obtain rfl : i = k := by omega
      rw [hsᵢ.unique hs, hinfo, ← h.length, List.getElem?_concat_length]
  · rw [List.map_append, List.map_cons, List.map_nil, destutter_concat, ← h.resolved]
    rcases hcase with ⟨hr, hres, -⟩ | ⟨hr, -, endpoints, hres⟩
    · rw [if_pos ((h.connected info).mp hr), List.append_nil, hres]
    · have hnot : ¬ (infos.map RemoteInfo.remote).getLast? = some info.remote := fun hlast => by
        rw [(h.connected info).mpr hlast] at hr
        cases hr
      rw [if_neg hnot, hres, List.map_append]
      rfl
  · rcases hcase with ⟨-, hres, hdials⟩ | ⟨-, hdials, endpoints, hres⟩
    · rw [hdials, hres, h.dials]
    · rw [hdials, hres, h.dials, List.tail_drop, List.length_append]
      rfl
  · rw [List.map_append, List.map_cons, List.map_nil, List.getLast?_concat, Session.reuses, hstate,
      hopen]
    simp [RemoteInfo.remote]

theorem Reached.reused {clientSock : Socket} {script : η} {dials : List Dial} {k : ℕ}
    {s : Session η} (hs : Reached env (Session.new clientSock script dials) k s) :
    ∃ infos, ReusedUpTo env (Session.new clientSock script dials) infos k s := by
  induction hs with
  | start =>
    refine ⟨[], rfl, fun i _ hi => absurd hi (Nat.not_lt_zero i), rfl, rfl, fun info => ?_⟩
    simp [Session.reuses, Session.new]
  | next hs hx ih =>
    obtain ⟨infos, h⟩ := ih
    obtain ⟨info, h'⟩ := h.next hs hx
    exact ⟨infos ++ [info], h'⟩

/-- An exchange that reuses the connection resolves nothing, however it ends. -/
theorem resolutions_of_reuses {s : Session η} {info : RemoteInfo}
    (hinfo : exchangeInfo env s = some info) (hr : s.reuses info = true) :
    (stateOf (handleOneExchange env s)).resolutions = s.resolutions := by
  unfold exchangeInfo at hinfo
  split at hinfo
  case h_2 => cases hinfo
  case h_1 parser raw s₀ hread =>
  have h₀ : HeadOnly s s₀ := ((readClientRequestHeader_ends env s).ok hread).2
  have hr₀ : s₀.reuses info = true := by
    rw [h₀]
    exact hr
  -- behind the connection in place nothing is resolved
  have hserves : ∀ {m : EStateM Stop (Session η) ExchangeResult}, Within Serves m →
      Ends (do if ← ensureRemoteConnected info then m else pure .close) s₀
        (fun _ t => t.resolutions = s.resolutions) (fun _ t => t.resolutions = s.resolutions) := by
    intro m hm
    refine ends_bind (Ends.of_ok (ensureRemoteConnected_reuses hr₀) ?_)
    rw [if_pos rfl]
    refine (hm s₀).mono ?_ ?_
    · intro _ t hserves
      rw [hserves.resolutions, h₀]
    · intro _ t hserves
      rw [hserves.resolutions, h₀]
  suffices hends : Ends (handleOneExchange env) s
      (fun _ t => t.resolutions = s.resolutions) (fun _ t => t.resolutions = s.resolutions) from
    Ends.stateOf hends
  refine ends_bind (Ends.of_ok hread ?_)
  refine ends_ite (fun _ => ?_) fun _ => ?_
  · unfold handleConnectExchange
    rw [hinfo]
    refine hserves (Within.bind (within_writeConnectEstablishedResponseToClient env) fun _ => ?_)
    refine within_ite (fun _ => ?_) fun _ => within_pure _
    exact Within.bind (within_relayTunnelBidirectional _ _ _) fun _ => within_pure _
  · unfold handleHttpExchange
    rw [hinfo]
    refine hserves (Within.bind
      (within_forwardRequest env within_onUpLink within_writeToRemote serves_script _ _ _) ?_)
    rintro (_ | request)
    · exact within_pure _
    · exact within_forwardResponse env parser request

/-- **Connections are reused exactly along repetitions.**  In every run, at the start of exchange
`k`, the resolutions made so far are the remotes of the exchanges before it with repetitions in a
row left out, one dial each; and exchange `k` resolves nothing if its remote is that of the exchange
before it, however it ends. -/
theorem connections_reused (env : Env η) (clientSock : Socket) (script : η) (dials : List Dial)
    {k : ℕ} {s : Session η} (hs : Reached env (Session.new clientSock script dials) k s) :
    ∃ infos : List RemoteInfo, infos.length = k ∧
      (∀ i sᵢ, i < k → Reached env (Session.new clientSock script dials) i sᵢ →
        exchangeInfo env sᵢ = infos[i]?) ∧
      s.resolutions.map Resolution.remote
        = (infos.map RemoteInfo.remote).destutter (· ≠ ·) ∧
      s.dials = dials.drop s.resolutions.length ∧
      ∀ info, exchangeInfo env s = some info →
        (infos.map RemoteInfo.remote).getLast? = some info.remote →
        (stateOf (handleOneExchange env s)).resolutions = s.resolutions := by
  obtain ⟨infos, h⟩ := hs.reused
  exact ⟨infos, h.length, h.own, h.resolved, h.dials, fun info hinfo hlast =>
    resolutions_of_reuses hinfo ((h.connected info).mpr hlast)⟩

/-- Two requests to `a` and then one to `b`. -/
theorem connections_reused_hosts : ∃ s, Reached (Env.ofHosts [ascii "a", ascii "b"] [emptyOk])
      (Session.ofReads [(getOf (ascii "a")).1, (getOf (ascii "a")).1, (getOf (ascii "b")).1]
        [[emptyOk.1, emptyOk.1], [emptyOk.1]]) 3 s ∧
    ∃ infos : List RemoteInfo, infos.length = 3 ∧ s.resolutions.map Resolution.remote
      = (infos.map RemoteInfo.remote).destutter (· ≠ ·) := by
  obtain ⟨s, hs⟩ : ∃ s, Reached (Env.ofHosts [ascii "a", ascii "b"] [emptyOk])
      (Session.ofReads [(getOf (ascii "a")).1, (getOf (ascii "a")).1, (getOf (ascii "b")).1]
        [[emptyOk.1, emptyOk.1], [emptyOk.1]]) 3 s :=
    ⟨_, ((Reached.start.next_stateOf (by decide +kernel)).next_stateOf
      (by decide +kernel)).next_stateOf (by decide +kernel)⟩
  obtain ⟨infos, hlen, -, hres, -⟩ := connections_reused _ _ _ _ hs
  exact ⟨s, hs, infos, hlen, hres⟩

end ProxyPP.Http
