import ProxyPP.Http.Attribution

/-!
# ProxyPP.Http.Isolation — whose bytes the client gets

`remote_read_buffer_` outlives the connection its bytes came from: `CloseRemote` closes the socket
and resets `remote_state_`, and leaves the buffer.  As long as every exchange either reuses the
connection or starts with an empty buffer, the client gets bytes of the exchange's own connection
only (`responses_isolated`).  What is left in the buffer is what the remote sent beyond the framing
of its response, so isolation holds as long as no remote that is left for another one did so
(`framed_responses_isolated`); such surplus bytes are otherwise taken for the response of the next
remote (`response_of_another_remote`).
-/

namespace ProxyPP.Http

open ProxyPP ProxyPP.Lib ProxyPP.Rules

variable {η : Type} (env : Env η)

/-! ## Specification -/

/-- The connection of the exchange that starts in `s`: the one in place if it is reused, else the
next one to be opened. -/
def Uses (s : Session η) (c : Connection) : Prop :=
  ∃ info, exchangeInfo env s = some info ∧
    if s.reuses info then c = s.remoteSock.connection else c.id = s.nextConnection

/-- The writes to the client from `s` to `t`. -/
def deliveredToClient (s t : Session η) : List Delivery :=
  t.clientSock.sent.drop s.clientSock.sent.length

/-- All that the client gets in the exchange that starts in `s`, ended or suspended, is made from
bytes received on the exchange's own connection. -/
def Isolated (s : Session η) : Prop :=
  ∀ d ∈ deliveredToClient s (stateOf (handleOneExchange env s)),
    ∃ c, Uses env s c ∧ OnlyFrom c d.octets

/-- An exchange that opens a connection starts with an empty `remote_read_buffer_`. -/
def OpensEmpty (s : Session η) : Prop :=
  ∀ info, exchangeInfo env s = some info → s.reuses info = true ∨ s.remoteReadBuffer = []

/-- The exchange that starts in `s` gets a request, and its remote answers with a response of the
framing that the head announces and sends `beyond` behind it. -/
def AnsweredWith (s : Session η) (beyond : Bytes) : Prop :=
  ∃ (r : ClientRequest env) (rest : Bytes) (response : ResponseHead env) (body : Bytes),
    s.upLink.ahead = r.bytes ++ rest ∧
    (∀ info, parseHttpRemoteInfo env.urls r.parser.header = some info →
      AheadFor info (response.head ++ (body ++ beyond)) s) ∧
    ResponseBody (determineResponseBodyInfo r.parser response.parser) body ∧
    ((determineResponseBodyInfo r.parser response.parser).framing = .closeDelimited →
      response.parser.keepAlive = false)

/-- The exchange that starts in `t` stays with the remote of the one that started in `s`, or that
remote sent nothing beyond the framing of its response. -/
def StaysOrFramed (s t : Session η) : Prop :=
  (∀ info, exchangeInfo env t = some info → t.reuses info = true) ∨ AnsweredWith env s []

/-! ## Exchanges -/

/-- Connections are numbered in the order they are opened. -/
def Session.Numbered (s : Session η) : Prop := s.remoteSock.connection.id < s.nextConnection

theorem HeadOnly.reuses {s s₀ : Session η} (h : HeadOnly s s₀) (info : RemoteInfo) :
    s₀.reuses info = s.reuses info := by
  rw [h]
  rfl

theorem Connects.numbered {info : RemoteInfo} {s t : Session η} (h : Connects info s t)
    (hs : s.Numbered) : t.Numbered := by
  rcases h with ⟨-, rfl⟩ | ⟨-, dial, endpoints, endpoint, peer, -, -, -, rfl⟩
  · exact hs
  · exact Nat.lt_succ_self _

/-- **The buffer of a connected exchange** is free of older bytes exactly if the connection is
reused or the buffer was empty. -/
theorem Connects.clean_iff {info : RemoteInfo} {s t : Session η} (h : Connects info s t)
    (hclean : s.Clean) (hnum : s.Numbered) :
    t.Clean ↔ s.reuses info = true ∨ s.remoteReadBuffer = [] := by
  rcases h with ⟨hr, rfl⟩ | ⟨hr, dial, endpoints, endpoint, peer, -, -, -, rfl⟩
  · exact ⟨fun _ => Or.inl hr, fun _ => hclean⟩
  · constructor
    · intro hnew
      right
      by_contra hne
      obtain ⟨o, ho⟩ := List.exists_mem_of_ne_nil _ hne
      have hold : o.origins = [s.remoteSock.connection.id] := hclean o ho
      have hnext : o.origins = [s.nextConnection] := hnew o ho
      rw [hold] at hnext
      have heq := List.head_eq_of_cons_eq hnext
      unfold Session.Numbered at hnum
      omega
    · rintro (hr' | hempty)
      · rw [hr] at hr'
        exact absurd hr' (by simp)
      · intro o ho
        have ho' : o ∈ s.remoteReadBuffer := ho
        rw [hempty] at ho'
        exact absurd ho' List.not_mem_nil

theorem Connects.uses {info : RemoteInfo} {s s₀ s₁ : Session η} (h : Connects info s₀ s₁)
    (hinfo : exchangeInfo env s = some info) (h₀ : HeadOnly s s₀) :
    Uses env s s₁.remoteSock.connection := by
  refine ⟨info, hinfo, ?_⟩
  rcases h with ⟨hr, rfl⟩ | ⟨hr, dial, endpoints, endpoint, peer, -, -, -, rfl⟩
  · rw [h₀.reuses] at hr
    rw [if_pos hr, h₀]
  · rw [h₀.reuses] at hr
    rw [if_neg (by simp [hr]), h₀]

/-- **One exchange** from a clean buffer: it keeps the invariants, and is isolated. -/
theorem Exchanged.isolated {s t : Session η} (h : Exchanged env s t) (hclean : s.Clean)
    (hnum : s.Numbered) (hempty : OpensEmpty env s) : t.Clean ∧ t.Numbered ∧
      ∀ d ∈ deliveredToClient s t, ∃ c, Uses env s c ∧ OnlyFrom c d.octets := by
  rcases h with hidle | ⟨info, s₀, s₁, hinfo, h₀, hconnects, hserves⟩
  · refine ⟨?_, ?_, fun d hd => ?_⟩
    · rw [Session.Clean, hidle.connection, hidle.remoteReadBuffer]
      exact hclean
    · rw [Session.Numbered, hidle.connection, hidle.nextConnection]
      exact hnum
    · rw [deliveredToClient, hidle.toClient, List.drop_length] at hd
      exact absurd hd List.not_mem_nil
  · have hclean₀ : s₀.Clean := by rw [h₀]; exact hclean
    have hnum₀ : s₀.Numbered := by rw [h₀]; exact hnum
    have hclean₁ : s₁.Clean := by
      refine (hconnects.clean_iff hclean₀ hnum₀).mpr ?_
      rw [h₀.reuses, h₀]
      exact hempty info hinfo
    obtain ⟨ds, hds, honly⟩ := hserves.toClient
    refine ⟨hserves.clean hclean₁, ?_, fun d hd => ⟨_, hconnects.uses env hinfo h₀, ?_⟩⟩
    · rw [Session.Numbered, hserves.connection, hserves.nextConnection]
      exact hconnects.numbered hnum₀
    · have hsent : s₁.clientSock.sent = s.clientSock.sent := by rw [hconnects.frame.1, h₀]
      rw [deliveredToClient, hds, hsent, List.drop_left] at hd
      exact honly hclean₁ d hd

/-- **What an exchange leaves** in the buffer is what was read of the bytes beyond the framing. -/
theorem AnsweredWith.left {s t : Session η} {beyond : Bytes} (h : AnsweredWith env s beyond)
    (hx : handleOneExchange env s = .ok .continue t) : text t.remoteReadBuffer <+: beyond := by
  obtain ⟨r, rest, response, body, hahead, hremote, hbody, hclose⟩ := h
  obtain ⟨-, htail, -⟩ := handleOneExchange_takes env hahead hremote response.delimits hbody hclose
    rfl hx
  exact ⟨_, htail⟩

theorem StaysOrFramed.opensEmpty {s t : Session η} (h : StaysOrFramed env s t)
    (hx : handleOneExchange env s = .ok .continue t) : OpensEmpty env t := by
  intro info hinfo
  rcases h with hstays | hframed
  · exact Or.inl (hstays info hinfo)
  · have hnone : text t.remoteReadBuffer = [] := List.prefix_nil.mp (hframed.left env hx)
    exact Or.inr (List.map_eq_nil_iff.mp hnone)

/-! ## Runs -/

theorem clean_new (clientSock : Socket) (script : η) (dials : List Dial) :
    (Session.new clientSock script dials).Clean := by
  intro o ho
  exact absurd ho List.not_mem_nil

theorem numbered_new (clientSock : Socket) (script : η) (dials : List Dial) :
    (Session.new clientSock script dials).Numbered := Nat.succ_pos _

theorem Reached.clean {s₀ s : Session η} {k : ℕ} (h : Reached env s₀ k s)
    (hempty : ∀ j < k, ∀ s', Reached env s₀ j s' → OpensEmpty env s') (hclean : s₀.Clean)
    (hnum : s₀.Numbered) : s.Clean ∧ s.Numbered := by
  induction h with
  | start => exact ⟨hclean, hnum⟩
  | @next k s t hs hx ih =>
    obtain ⟨hc, hn⟩ := ih fun j hj => hempty j (by omega)
    have hex := Ends.stateOf (handleOneExchange_ends env s)
    rw [hx] at hex
    obtain ⟨hc', hn', -⟩ := hex.isolated env hc hn (hempty k (by omega) s hs)
    exact ⟨hc', hn'⟩

/-- **Response isolation.**  In every run in which the exchanges so far reused the connection or
opened one with an empty `remote_read_buffer_`, the buffer holds bytes of the current connection
only.  The next exchange, if it is one of these, is isolated; where it gets a connection, the
buffer is free of older bytes exactly if it is one of these; and what it leaves in the buffer was
sent beyond the framing of its response. -/
theorem responses_isolated (clientSock : Socket) (script : η) (dials : List Dial) {k : ℕ}
    {s : Session η} (hs : Reached env (Session.new clientSock script dials) k s)
    (hempty : ∀ j < k, ∀ s', Reached env (Session.new clientSock script dials) j s' →
      OpensEmpty env s') :
    s.Clean ∧ (OpensEmpty env s → Isolated env s) ∧
      (∀ parser raw s₀ info u, readClientRequestHeader env s = .ok (some (parser, raw)) s₀ →
        parseRemoteInfo env.urls parser.header = some info →
        ensureRemoteConnected info s₀ = .ok true u → (u.Clean ↔ OpensEmpty env s)) ∧
      ∀ beyond t, AnsweredWith env s beyond → handleOneExchange env s = .ok .continue t →
        text t.remoteReadBuffer <+: beyond := by
  obtain ⟨hclean, hnum⟩ := hs.clean env hempty (clean_new _ _ _) (numbered_new _ _ _)
  refine ⟨hclean, fun h => ?_, fun parser raw s₀ info u hread hinfo hu => ?_,
    fun beyond t h hx => h.left env hx⟩
  · exact ((Ends.stateOf (handleOneExchange_ends env s)).isolated env hclean hnum h).2.2
  · have h₀ : HeadOnly s s₀ := ((readClientRequestHeader_ends env s).ok hread).2
    have hconnects : Connects info s₀ u := (ensureRemoteConnected_ends info s₀).ok hu
    have hinfo' : exchangeInfo env s = some info := by
      rw [exchangeInfo, hread]
      exact hinfo
    have hclean₀ : s₀.Clean := by rw [h₀]; exact hclean
    have hnum₀ : s₀.Numbered := by rw [h₀]; exact hnum
    rw [hconnects.clean_iff hclean₀ hnum₀, h₀.reuses, h₀]
    constructor
    · intro h info' hinfo''
      rw [hinfo'] at hinfo''
      obtain rfl := Option.some.inj hinfo''
      exact h
    · exact fun h => h info hinfo'

/-- **In terms of the remotes.**  In every run in which no remote that was left for another one sent
anything beyond the framing of its response, the exchanges are isolated. -/
theorem framed_responses_isolated (clientSock : Socket) (script : η) (dials : List Dial) {k : ℕ}
    {s : Session η} (hs : Reached env (Session.new clientSock script dials) k s)
    (hframed : ∀ j < k, ∀ s' t, Reached env (Session.new clientSock script dials) j s' →
      handleOneExchange env s' = .ok .continue t → StaysOrFramed env s' t) : Isolated env s := by
  have hempty : ∀ j ≤ k, ∀ s', Reached env (Session.new clientSock script dials) j s' →
      OpensEmpty env s' := by
    intro j hj s' hs'
    cases hs' with
    | start => exact fun info _ => Or.inr rfl
    | next hs' hx => exact (hframed _ hj _ _ hs' hx).opensEmpty env hx
  obtain ⟨hclean, hnum⟩ := hs.clean env (fun j hj => hempty j (Nat.le_of_lt hj)) (clean_new _ _ _)
    (numbered_new _ _ _)
  exact ((Ends.stateOf (handleOneExchange_ends env s)).isolated env hclean hnum
    (hempty k (Nat.le_refl k) s hs)).2.2

/-! ### Two sessions -/

/-- Two requests to one host, which answers each. -/
def sameHost : Session (List (Except Error Bool)) :=
  .ofReads [(getOf (ascii "a")).1, (getOf (ascii "a")).1] [[emptyOk.1, emptyOk.1]]

/-- The second exchange of `sameHost` reuses the connection. -/
theorem responses_isolated_sameHost : ∃ s,
    Reached (Env.ofHosts [ascii "a"] [emptyOk]) sameHost 1 s ∧
    Isolated (Env.ofHosts [ascii "a"] [emptyOk]) s := by
  obtain ⟨s, hs, hinfo, hreuses⟩ : ∃ s, Reached (Env.ofHosts [ascii "a"] [emptyOk]) sameHost 1 s ∧
      exchangeInfo (Env.ofHosts [ascii "a"] [emptyOk]) s
        = some ⟨ascii "http", ascii "a", ascii "80", ascii "/"⟩ ∧
      s.reuses ⟨ascii "http", ascii "a", ascii "80", ascii "/"⟩ = true :=
    ⟨_, Reached.start.next_stateOf (by decide +kernel), by decide +kernel, by decide +kernel⟩
  refine ⟨s, hs, (responses_isolated (Env.ofHosts [ascii "a"] [emptyOk]) _ _ _ hs ?_).2.1 ?_⟩
  · intro j hj s' hs' info _
    obtain rfl : j = 0 := by omega
    cases hs'
    exact Or.inr rfl
  · intro info h
    rw [hinfo] at h
    obtain rfl := Option.some.inj h
    exact Or.inl hreuses

/-- A request to `a`, answered with a surplus response, and one to `b`. -/
def surplusResponse : Session (List (Except Error Bool)) :=
  .ofReads [(getOf (ascii "a")).1, (getOf (ascii "b")).1] [[emptyOk.1 ++ emptyOk.1], [emptyOk.1]]

/-- The client gets the surplus bytes of `a` as the response of `b`. -/
theorem response_of_another_remote : ¬ ∀ (env : Env (List (Except Error Bool)))
    (clientSock : Socket) (script : List (Except Error Bool)) (dials : List Dial) (k : ℕ)
    (s : Session (List (Except Error Bool))),
    Reached env (Session.new clientSock script dials) k s → Isolated env s := by
  intro h
  obtain ⟨s, hs, ⟨d, hd, o, ho, hone⟩, hinfo, hreuses, hnext⟩ :
      ∃ s, Reached (Env.ofHosts [ascii "a", ascii "b"] [emptyOk]) surplusResponse 1 s ∧
        (∃ d ∈ deliveredToClient s
          (stateOf (handleOneExchange (Env.ofHosts [ascii "a", ascii "b"] [emptyOk]) s)),
          ∃ o ∈ d.octets, 1 ∈ o.origins) ∧
        exchangeInfo (Env.ofHosts [ascii "a", ascii "b"] [emptyOk]) s
          = some ⟨ascii "http", ascii "b", ascii "80", ascii "/"⟩ ∧
        s.reuses ⟨ascii "http", ascii "b", ascii "80", ascii "/"⟩ = false ∧
        s.nextConnection = 2 :=
    ⟨_, Reached.start.next_stateOf (by decide +kernel), by decide +kernel, by decide +kernel,
      by decide +kernel, by decide +kernel⟩
  obtain ⟨c, ⟨info, hinfo', huses⟩, honly⟩ := h _ _ _ _ 1 s hs d hd
  rw [hinfo] at hinfo'
  obtain rfl := Option.some.inj hinfo'
  rw [hreuses, if_neg (by simp), hnext] at huses
  have := honly o ho 1 hone
  omega

end ProxyPP.Http
