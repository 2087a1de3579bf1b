import ProxyPP.Http.Runs

/-!
# ProxyPP.Http.Routing — no request reaches the wrong remote

`remote_state_` and the socket are two pieces of state.  `Session.Routed` couples them: a state that
says it is connected to `(host, port)` has a socket connected to an endpoint of the last resolution,
and that was one of `(host, port)`.  Every exchange keeps it, however it ends, and writes to the
remote only on such a connection for its own `(host, port)`.
-/

namespace ProxyPP.Http

open ProxyPP ProxyPP.Lib ProxyPP.Rules

variable {η : Type}

/-- The connection goes to an endpoint of the last resolution, which was one of `(host, port)`. -/
def ResolvedFor (resolutions : List Resolution) (host port : Bytes) (c : Connection) : Prop :=
  ∃ r, resolutions.getLast? = some r ∧ r.host = host ∧ r.port = port ∧ c.endpoint ∈ r.endpoints

/-- `remote_state_` says truly what the socket is connected to. -/
def Session.Routed (s : Session η) : Prop :=
  s.remoteState.connected = true →
    ResolvedFor s.resolutions s.remoteState.host s.remoteState.port s.remoteSock.connection

/-- All that was written to the remote from `s` to `t` went to an endpoint of `(host, port)`. -/
def WritesTo (host port : Bytes) (s t : Session η) : Prop :=
  ∃ ds, t.remoteSock.sent = s.remoteSock.sent ++ ds ∧
    ∀ d ∈ ds, ResolvedFor t.resolutions host port d.connection

theorem Serves.routed {s t : Session η} (h : Serves s t) (hs : s.Routed) : t.Routed := by
  intro hconnected
  rcases h.remoteState with hstate | hlost
  · rw [hstate] at hconnected ⊢
    rw [h.resolutions, h.connection]
    exact hs hconnected
  · rw [hlost] at hconnected
    exact absurd hconnected (by simp)

theorem Idle.routed {s t : Session η} (h : Idle s t) (hs : s.Routed) : t.Routed := by
  intro hconnected
  rcases h.remoteState with hlost | ⟨hstate, hsock, hres⟩
  · rw [hlost] at hconnected
    exact absurd hconnected (by simp)
  · rw [hstate] at hconnected ⊢
    rw [hsock, hres]
    exact hs hconnected

theorem HeadOnly.routed {s t : Session η} (h : HeadOnly s t) (hs : s.Routed) : t.Routed := by
  rw [h]
  exact hs

/-- The connection of an exchange is one to its own remote. -/
theorem Connects.resolvedFor {info : RemoteInfo} {s t : Session η} (h : Connects info s t)
    (hs : s.Routed) : t.Routed ∧
      ResolvedFor t.resolutions info.host info.port t.remoteSock.connection := by
  rcases h with ⟨hreuses, rfl⟩ | ⟨-, dial, endpoints, endpoint, peer, -, -, hc, rfl⟩
  · unfold Session.reuses at hreuses
    simp only [Bool.and_eq_true, decide_eq_true_eq] at hreuses
    obtain ⟨⟨⟨hconnected, -⟩, hhost⟩, hport⟩ := hreuses
    have hres := hs hconnected
    rw [hhost, hport] at hres
    exact ⟨hs, hres⟩
  · have hres : ResolvedFor (s.resolutions ++ [⟨info.host, info.port, endpoints⟩]) info.host
        info.port ⟨s.nextConnection, endpoint⟩ :=
      ⟨_, List.getLast?_concat, rfl, rfl, (mem_of_connectFirst hc).1⟩
    exact ⟨fun _ => hres, hres⟩

section Exchange

variable (env : Env η)

/-- **One exchange** keeps `Routed` and writes only to its own remote. -/
theorem Exchanged.routed {s t : Session η} (h : Exchanged env s t) (hs : s.Routed) : t.Routed ∧
    (t.remoteSock.sent = s.remoteSock.sent ∨
      ∃ info, exchangeInfo env s = some info ∧ WritesTo info.host info.port s t) := by
  rcases h with hidle | ⟨info, s₀, s₁, hinfo, h₀, hconnects, hserves⟩
  · exact ⟨hidle.routed hs, Or.inl hidle.toRemote⟩
  obtain ⟨hr₁, hres⟩ := hconnects.resolvedFor (h₀.routed hs)
  refine ⟨hserves.routed hr₁, Or.inr ⟨info, hinfo, ?_⟩⟩
  obtain ⟨ds, hds, hc⟩ := hserves.toRemote
  have hsent : s₁.remoteSock.sent = s.remoteSock.sent := by rw [hconnects.frame.2, h₀]
  refine ⟨ds, by rw [hds, hsent], fun d hd => ?_⟩
  rw [hc d hd, hserves.resolutions]
  exact hres

theorem exchanged_stateOf (s : Session η) : Exchanged env s (stateOf (handleOneExchange env s)) :=
  Ends.stateOf (handleOneExchange_ends env s)

theorem routed_new (clientSock : Socket) (script : η) (dials : List Dial) :
    (Session.new clientSock script dials).Routed := by
  intro h
  exact absurd h (by simp [Session.new])

theorem Reached.routed {s₀ s : Session η} {k : ℕ} (h : Reached env s₀ k s) (h₀ : s₀.Routed) :
    s.Routed := by
  induction h with
  | start => exact h₀
  | @next k s t _ hx ih =>
    have hex := exchanged_stateOf env s
    rw [hx] at hex
    exact (hex.routed env ih).1

/-- A request whose remote cannot be resolved or connected to ends the run, and leaves no connection
that a later exchange could take for its own. -/
theorem handleOneExchange_lost {s s₀ u : Session η} {parser : RequestParser} {raw : List Octet}
    {info : RemoteInfo} (hread : readClientRequestHeader env s = .ok (some (parser, raw)) s₀)
    (hinfo : parseRemoteInfo env.urls parser.header = some info)
    (hlost : ensureRemoteConnected info s₀ = .ok false u) :
    handleOneExchange env s = .ok .close u ∧ u.remoteSock.isOpen = false ∧
      ∀ info', u.reuses info' = false := by
  have hloses : Loses s₀ u := (ensureRemoteConnected_ends info s₀).ok hlost
  refine ⟨?_, ?_, fun info' => ?_⟩
  · unfold handleOneExchange
    rw [bind_ok hread]
    by_cases hc : isConnect parser.header = true
    · simp only [if_pos hc]
      unfold handleConnectExchange
      rw [hinfo]
      exact bind_ok hlost
    · simp only [if_neg hc]
      unfold handleHttpExchange
      rw [hinfo]
      exact bind_ok hlost
  · rw [hloses]
    rfl
  · rw [Session.reuses, hloses]
    rfl

/-- **No request reaches the wrong remote.**  In every run of a session, whatever the requests and
the outcomes of resolving, connecting, reading and writing: what an exchange writes to the remote
goes to an endpoint that resolving its own `(host, port)` gave; `remote_state_` is true in every
state reached, also when the exchange is suspended or the session closed; and an exchange that
cannot resolve or connect is the last one and leaves no connection to reuse. -/
theorem requests_reach_their_remote (clientSock : Socket) (script : η) (dials : List Dial) :
    (∀ k s, Reached env (Session.new clientSock script dials) k s →
      s.Routed ∧ (stateOf (handleOneExchange env s)).Routed ∧
      ((stateOf (handleOneExchange env s)).remoteSock.sent = s.remoteSock.sent ∨
        ∃ info, exchangeInfo env s = some info ∧
          WritesTo info.host info.port s (stateOf (handleOneExchange env s))) ∧
      ∀ parser raw s₀ info u, readClientRequestHeader env s = .ok (some (parser, raw)) s₀ →
        parseRemoteInfo env.urls parser.header = some info →
        ensureRemoteConnected info s₀ = .ok false u →
        handleOneExchange env s = .ok .close u ∧ u.remoteSock.isOpen = false ∧
          ∀ info', u.reuses info' = false) ∧
    (stateOf (run env (Session.new clientSock script dials))).Routed := by
  have hnew := routed_new clientSock script dials
  refine ⟨fun k s hs => ?_, ?_⟩
  · have hrouted := hs.routed env hnew
    obtain ⟨hafter, hwrites⟩ := (exchanged_stateOf env s).routed env hrouted
    exact ⟨hrouted, hafter, hwrites, fun _ _ _ _ _ => handleOneExchange_lost env⟩
  · refine Ends.stateOf ((run_ends env _).mono ?_ ?_)
    · rintro - t ⟨k, s, u, hs, hx, hclose⟩
      have hex := exchanged_stateOf env s
      rw [hx] at hex
      exact ((within_close u).ok hclose).routed (hex.routed env (hs.routed env hnew)).1
    · rintro e t ⟨k, s, hs, hx | ⟨-, rfl⟩⟩
      · have hex := exchanged_stateOf env s
        rw [hx] at hex
        exact (hex.routed env (hs.routed env hnew)).1
      · exact hs.routed env hnew

end Exchange

end ProxyPP.Http
