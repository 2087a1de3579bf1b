import ProxyPP.Http.Sharing
import ProxyPP.Rules.RuleFile

/-!
# ProxyPP.Core.TcpServer — `TcpServer`

The server from the start of its acceptor to the sessions it spawns.  The operating system is a
parameter: how each of its calls turns out, and what the accept operations bring.  The process may
be killed before any call, so the states in which a run can stop are all those that are ever seen
from outside.

The sessions share the rule engine; what the other sessions do to its runtime in between is part of
what a connection brings along.
-/

namespace ProxyPP.Core

open ProxyPP ProxyPP.Lib ProxyPP.Http ProxyPP.Rules

/-! ## The operating system -/

/-- `boost::system::error_code` -/
structure SystemError where
  value : ℤ
  category : Bytes
  message : Bytes
  deriving DecidableEq, Repr

/-- `asio::ip::address`, with the text of `to_string`. -/
structure Address where
  text : Bytes
  v6 : Bool
  deriving DecidableEq, Repr

structure ListenEndpoint where
  address : Bytes
  port : ℕ
  deriving DecidableEq, Repr

/-- `tcp::acceptor`; a bound one has a local endpoint. -/
inductive Acceptor
  | closed
  | opened (v6 : Bool)
  | bound (localEndpoint : ListenEndpoint)
  | listening (localEndpoint : ListenEndpoint)
  deriving DecidableEq, Repr

/-- A client, the remotes its session will reach, and what the other sessions do to the runtime of
the rule engine between the calls of this one. -/
structure Client (η : Type) where
  clientSock : Socket
  dials : List Dial
  others : List (η → η)

/-- The result of one `async_accept`. -/
inductive AcceptOutcome (η : Type)
  | accepted (client : Client η)
  | operationAborted
  | failed (ec : SystemError)

/-- How the calls turn out that the server makes. -/
structure Network (η : Type) where
  /-- `asio::ip::make_address`, which throws. -/
  makeAddress : Bytes → Except Bytes Address
  openAcceptor : Option SystemError
  setReuseAddress : Option SystemError
  /-- The local endpoint; the system chooses a port if it is `0`. -/
  bind : Address → ℕ → Except SystemError ListenEndpoint
  listen : Option SystemError
  accepts : List (AcceptOutcome η)

/-! ## The process -/

/-- An error of a `Result`, by the category of its code. -/
inductive Failure
  | startTcpServerFailed (message : Bytes)
  | fileOperationFailed (message : Bytes)
  | internalError (message : Bytes)
  | loading (error : CommonError)
  | engine (error : Rules.Error)
  deriving DecidableEq, Repr

/-- How the process stops or where it waits. -/
inductive Halt
  | killed
  | waiting
  /-- An exception nobody catches. -/
  | uncaught (what : Bytes)
  /-- `return EXIT_FAILURE`, after this error. -/
  | exitFailure (failure : Failure)
  deriving DecidableEq, Repr

/-- A session that was spawned; its rule engine is the one of the server. -/
structure SpawnedSession (η : Type) where
  id : UInt64
  client : Client η
  httpRuleConfig : Option Config

structure Process (η : Type) where
  files : Bytes → Option Bytes
  acceptor : Acceptor
  reuseAddress : Bool
  /-- The accept loop was spawned. -/
  accepting : Bool
  /-- `io.run` was entered. -/
  serving : Bool
  nextSessionId : UInt64
  sessions : List (SpawnedSession η)
  /-- How many more calls the process gets to make. -/
  callsLeft : ℕ

variable {η : Type}

/-- A call of the operating system; the process may be killed before it. -/
def systemCall {α : Type} (f : Process η → α × Process η) : EStateM Halt (Process η) α := fun p =>
  match p.callsLeft with
  | 0 => .error .killed p
  | n + 1 => .ok (f p).1 { (f p).2 with callsLeft := n }

/-! ## `Start` -/

/-- Without the rule engine, which is part of the environment of the sessions. -/
structure TcpServerOptions where
  address : Bytes
  port : ℕ
  httpRuleConfig : Option Config
  deriving DecidableEq, Repr

def decimal (n : ℕ) : Bytes := ascii (toString n)

def startFailed (context : Bytes) (ec : SystemError) : Halt :=
  .exitFailure (.startTcpServerFailed (context ++ ascii ": " ++ ec.message ++ ascii " (code="
    ++ ascii (toString ec.value) ++ ascii ", category=" ++ ec.category ++ ascii ")"))

/-- An operation of the acceptor that sets `ec`. -/
def acceptorCall (context : Bytes) (outcome : Option SystemError)
    (effect : Process η → Process η) : EStateM Halt (Process η) PUnit := do
  match ← systemCall fun p => (outcome, if outcome.isNone then effect p else p) with
  | none => pure ⟨⟩
  | some ec => throw (startFailed context ec)

def bindOutcome {ε α : Type} : Except ε α → Option ε
  | .ok _ => none
  | .error e => some e

/-- The local endpoint after a successful `bind`. -/
def bindAcceptor (outcome : Except SystemError ListenEndpoint) (p : Process η) : Process η :=
  match outcome with
  | .ok localEndpoint => { p with acceptor := .bound localEndpoint }
  | .error _ => p

def listenAcceptor (p : Process η) : Process η :=
  match p.acceptor with
  | .bound localEndpoint => { p with acceptor := .listening localEndpoint }
  | _ => p

/-- `StartAccept`: the accept loop is spawned, and runs in `io.run`. -/
def startAccept : EStateM Halt (Process η) PUnit := modify fun p => { p with accepting := true }

/-- `acceptor_.local_endpoint()`, which throws on a socket that is not bound. -/
def localEndpoint : EStateM Halt (Process η) ListenEndpoint := do
  match ← systemCall fun p => (p.acceptor, p) with
  | .listening endpoint => pure endpoint
  | .bound endpoint => pure endpoint
  | _ => throw (.uncaught (ascii "local_endpoint"))

def start (net : Network η) (options : TcpServerOptions) :
    EStateM Halt (Process η) ListenEndpoint :=
  match net.makeAddress options.address with
  | .error what => throw (.uncaught what)
  | .ok address => do
    -- `static_cast<asio::ip::port_type>`
    let port := options.port % 2 ^ 16
    let endpointText := address.text ++ ascii ":" ++ decimal port
    acceptorCall (ascii "failed to open TCP acceptor for " ++ endpointText) net.openAcceptor
      fun p => { p with acceptor := .opened address.v6 }
    acceptorCall (ascii "failed to enable SO_REUSEADDR for TCP acceptor on " ++ endpointText)
      net.setReuseAddress fun p => { p with reuseAddress := true }
    acceptorCall (ascii "failed to bind TCP acceptor to " ++ endpointText)
      (bindOutcome (net.bind address port)) (bindAcceptor (net.bind address port))
    acceptorCall (ascii "failed to listen on TCP endpoint " ++ endpointText) net.listen
      listenAcceptor
    startAccept
    localEndpoint

/-! ## The accept loop -/

/-- `next_session_id_.fetch_add (1)` and the session made with it. -/
def spawnSession (options : TcpServerOptions) (client : Client η) (p : Process η) : Process η :=
  { p with
    nextSessionId := p.nextSessionId + 1
    sessions := p.sessions ++
      [⟨p.nextSessionId, client, options.httpRuleConfig⟩] }

/-- The server is destroyed, and its acceptor with it. -/
def Process.closed (p : Process η) : Process η :=
  { p with acceptor := .closed, accepting := false }

/-- The loop of `StartAccept` on what the accept operations bring; it waits for the next one. -/
def acceptLoop (options : TcpServerOptions) :
    List (AcceptOutcome η) → EStateM Halt (Process η) PUnit
  | [] => throw .waiting
  | outcome :: accepts => do
    match ← systemCall fun p => (outcome, p) with
    -- `main` has let go of the server, so `self` was its last owner.
    | .operationAborted => modify Process.closed
    | .failed _ => acceptLoop options accepts
    | .accepted client => do
      modify (spawnSession options client)
      acceptLoop options accepts

/-- The run of a spawned session, with the rules of the server; `runtime` is the state of the engine
it finds. -/
def SpawnedSession.run (env : Env η) (runtime : η) (session : SpawnedSession η) :
    EStateM.Result Stop (Session (η × List (η → η))) PUnit :=
  Http.run { env.withEngine env.ruleEngine.interrupted with
      ruleHttpConfig := session.httpRuleConfig }
    (Session.new session.client.clientSock (runtime, session.client.others) session.client.dials)

/-- A session is over when it returns or throws: its completion handler catches every exception. -/
def isOver {α : Type} : EStateM.Result Stop (Session (η × List (η → η))) α → Bool
  | .ok _ _ => true
  | .error (.thrown _) _ => true
  | .error _ _ => false

/-- `io.run`: the accept loop, if it was spawned, and then the sessions that are not over yet. -/
def ioRun (env : Env η) (runtime : η) (options : TcpServerOptions)
    (accepts : List (AcceptOutcome η)) : EStateM Halt (Process η) PUnit := do
  modify fun p => { p with serving := true }
  let p ← get
  if p.accepting then do
    acceptLoop options accepts
    let p ← get
    if p.sessions.all fun session => isOver (session.run env runtime) then pure ⟨⟩
    else throw .waiting
  else pure ⟨⟩

/-! ## Rules -/

theorem ends_systemCall {α : Type} {f : Process η → α × Process η} {p : Process η}
    {Q : α → Process η → Prop} {E : Halt → Process η → Prop} (hkilled : E .killed p)
    (h : ∀ n, Q (f p).1 { (f p).2 with callsLeft := n }) : Ends (systemCall f) p Q E := by
  unfold Ends systemCall
  cases p.callsLeft with
  | zero => exact hkilled
  | succ n => exact h n

theorem acceptorCall_ends (context : Bytes) (outcome : Option SystemError)
    (effect : Process η → Process η) (p : Process η) :
    Ends (acceptorCall context outcome effect) p
      (fun _ q => outcome = none ∧ ∃ n, q = { effect p with callsLeft := n })
      (fun h q => h ≠ .waiting ∧ ∃ n, q = { p with callsLeft := n }) := by
  refine ends_bind (ends_systemCall ⟨by simp, p.callsLeft, rfl⟩ fun n => ?_)
  cases outcome with
  | none => exact ends_pure ⟨rfl, n, rfl⟩
  | some ec => exact ends_throw ⟨by simp [startFailed], n, rfl⟩

/-! ### Starting -/

/-- Nothing was done to the process but to its acceptor. -/
def OnlyAcceptor (p q : Process η) : Prop :=
  ∃ acceptor reuseAddress accepting n, q = { p with
    acceptor := acceptor, reuseAddress := reuseAddress, accepting := accepting, callsLeft := n }

/-- Every call of `Start` succeeds; the acceptor is bound to `endpoint`. -/
structure Network.Starts (net : Network η) (options : TcpServerOptions)
    (endpoint : ListenEndpoint) : Prop where
  openAcceptor : net.openAcceptor = none
  setReuseAddress : net.setReuseAddress = none
  bind : ∃ address, net.makeAddress options.address = .ok address ∧
    net.bind address (options.port % 2 ^ 16) = .ok endpoint
  listen : net.listen = none

/-- A server that listens, its accept loop spawned. -/
def Process.started (endpoint : ListenEndpoint) (n : ℕ) (p : Process η) : Process η :=
  { p with
    acceptor := .listening endpoint, reuseAddress := true, accepting := true, callsLeft := n }

theorem start_ends (net : Network η) (options : TcpServerOptions) (p : Process η) :
    Ends (start net options) p
      (fun endpoint q => net.Starts options endpoint ∧ ∃ n, q = p.started endpoint n)
      (fun h q => h ≠ .waiting ∧ OnlyAcceptor p q) := by
  unfold start
  split
  · exact ends_throw ⟨by simp, _, _, _, _, rfl⟩
  rename_i address haddress
  dsimp only
  refine ((acceptorCall_ends _ net.openAcceptor _ p).mono (fun _ _ h => h) ?_).bind ?_
  · rintro h _ ⟨hh, n, rfl⟩
    exact ⟨hh, _, _, _, n, rfl⟩
  rintro _ _ ⟨hopen, n₁, rfl⟩
  refine ((acceptorCall_ends _ net.setReuseAddress _ _).mono (fun _ _ h => h) ?_).bind ?_
  · rintro h _ ⟨hh, n, rfl⟩
    exact ⟨hh, _, _, _, n, rfl⟩
  rintro _ _ ⟨hreuse, n₂, rfl⟩
  refine ((acceptorCall_ends _ _ _ _).mono (fun _ _ h => h) ?_).bind ?_
  · rintro h _ ⟨hh, n, rfl⟩
    exact ⟨hh, _, _, _, n, rfl⟩
  rintro _ _ ⟨hbind, n₃, rfl⟩
  cases hlocal : net.bind address (options.port % 2 ^ 16) with
  | error ec => rw [hlocal] at hbind; cases hbind
  | ok endpoint =>
    refine ((acceptorCall_ends _ net.listen _ _).mono (fun _ _ h => h) ?_).bind ?_
    · rintro h _ ⟨hh, n, rfl⟩
      exact ⟨hh, _, _, _, n, rfl⟩
    rintro _ _ ⟨hlisten, n₄, rfl⟩
    refine ends_bind (ends_modify ?_)
    refine ends_bind (ends_systemCall ⟨by simp, _, _, _, _, rfl⟩ fun n => ?_)
    exact ends_pure ⟨⟨hopen, hreuse, ⟨address, haddress, hlocal⟩, hlisten⟩, n, rfl⟩

theorem systemCall_run {α : Type} (f : Process η → α × Process η) {p : Process η} {n : ℕ}
    (h : p.callsLeft = n + 1) : systemCall f p = .ok (f p).1 { (f p).2 with callsLeft := n } := by
  unfold systemCall
  rw [h]

theorem acceptorCall_run (context : Bytes) (effect : Process η → Process η) {p : Process η} {n : ℕ}
    (h : p.callsLeft = n + 1) :
    acceptorCall context none effect p = .ok ⟨⟩ { effect p with callsLeft := n } :=
  bind_ok (systemCall_run _ h)

theorem start_run {net : Network η} {options : TcpServerOptions} {endpoint : ListenEndpoint}
    {p : Process η} {n : ℕ} (h : net.Starts options endpoint) (hn : p.callsLeft = n + 5) :
    start net options p = .ok endpoint (p.started endpoint n) := by
  obtain ⟨address, haddress, hbind⟩ := h.bind
  unfold start
  rw [haddress]
  dsimp only
  rw [h.openAcceptor, h.setReuseAddress, hbind, h.listen,
    bind_ok (acceptorCall_run _ _ (show _ = n + 4 + 1 from hn)),
    bind_ok (acceptorCall_run _ _ (show _ = n + 3 + 1 from rfl)), bindOutcome,
    bind_ok (acceptorCall_run _ _ (show _ = n + 2 + 1 from rfl)),
    bind_ok (acceptorCall_run _ _ (show _ = n + 1 + 1 from rfl))]
  rfl

/-! ### Accepting -/

/-- The connections that are accepted before the loop is stopped. -/
def admitted : List (AcceptOutcome η) → List (Client η)
  | [] => []
  | .operationAborted :: _ => []
  | .failed _ :: accepts => admitted accepts
  | .accepted client :: accepts => client :: admitted accepts

/-- An accept operation is aborted. -/
def stopped : List (AcceptOutcome η) → Bool
  | [] => false
  | .operationAborted :: _ => true
  | .failed _ :: accepts => stopped accepts
  | .accepted _ :: accepts => stopped accepts

/-- Sessions numbered from `first` on. -/
def numbered (config : Option Config) (first : UInt64) : List (Client η) → List (SpawnedSession η)
  | [] => []
  | client :: clients => ⟨first, client, config⟩ :: numbered config (first + 1) clients

/-- One session for each of `clients`, and nothing else but to the acceptor. -/
def Spawned (options : TcpServerOptions) (clients : List (Client η)) (p q : Process η) : Prop :=
  q.sessions = p.sessions ++ numbered options.httpRuleConfig p.nextSessionId clients ∧
    q.files = p.files ∧ q.serving = p.serving

theorem Spawned.none (options : TcpServerOptions) (p : Process η) : Spawned options [] p p :=
  ⟨by simp [numbered], rfl, rfl⟩

/-- The acceptor was left alone. -/
def SameAcceptor (p q : Process η) : Prop := q.acceptor = p.acceptor ∧ q.accepting = p.accepting

/-- The accept loop is over, and the server gone. -/
def Process.Closed (q : Process η) : Prop := q.acceptor = .closed ∧ q.accepting = false

/-- As long as the loop was not stopped the acceptor is as it was. -/
theorem acceptLoop_ends (options : TcpServerOptions) (accepts : List (AcceptOutcome η)) :
    ∀ p, Ends (acceptLoop options accepts) p
      (fun _ q => stopped accepts = true ∧ Spawned options (admitted accepts) p q ∧ q.Closed)
      (fun h q => (h = .waiting → stopped accepts = false ∧
          Spawned options (admitted accepts) p q) ∧
        (h = .killed ∨ h = .waiting) ∧ SameAcceptor p q ∧
        ∃ clients, clients <+: admitted accepts ∧ Spawned options clients p q) := by
  induction accepts with
  | nil =>
    exact fun p => ends_throw ⟨fun _ => ⟨rfl, .none options p⟩, .inr rfl, ⟨rfl, rfl⟩, [],
      List.nil_prefix, .none options p⟩
  | cons outcome accepts ih =>
    intro p
    refine ends_bind (ends_systemCall ⟨by simp, .inl rfl, ⟨rfl, rfl⟩, [], List.nil_prefix,
      .none options p⟩ fun n => ?_)
    cases outcome with
    | operationAborted => exact ends_modify ⟨rfl, .none options p, rfl, rfl⟩
    | failed ec => exact ih _
    | accepted client =>
      refine ends_bind (ends_modify ?_)
      -- the session of this client, and then those of the rest
      have hnext : ∀ {clients q}, Spawned options clients (spawnSession options client
          { p with callsLeft := n }) q → Spawned options (client :: clients) p q := by
        rintro clients q ⟨hsessions, hfiles, hserving⟩
        refine ⟨?_, hfiles, hserving⟩
        rw [hsessions]
        simp [spawnSession, numbered]
      refine (ih _).mono ?_ ?_
      · rintro _ q ⟨hstopped, hq, hclosed⟩
        exact ⟨hstopped, hnext hq, hclosed⟩
      · rintro h q ⟨hwaiting, hh, hsame, clients, hclients, hq⟩
        refine ⟨fun hw => ?_, hh, hsame, client :: clients, ?_, hnext hq⟩
        · obtain ⟨hstopped, hall⟩ := hwaiting hw
          exact ⟨hstopped, hnext hall⟩
        · exact List.cons_prefix_cons.mpr ⟨rfl, hclients⟩

/-- The numbers of `2 ^ 64` sessions in a row are different. -/
theorem numbered_ids (config : Option Config) (clients : List (Client η)) :
    ∀ first, (numbered config first clients).map SpawnedSession.id
      = (List.range clients.length).map fun i => first + UInt64.ofNat i := by
  induction clients with
  | nil => exact fun _ => rfl
  | cons client clients ih =>
    intro first
    rw [numbered, List.map_cons, ih, List.length_cons, List.range_succ_eq_map, List.map_cons,
      List.map_map]
    refine congrArg₂ List.cons (by simp) (List.map_congr_left fun i _ => ?_)
    show first + 1 + UInt64.ofNat i = first + UInt64.ofNat (i + 1)
    rw [UInt64.ofNat_add, add_assoc, add_comm (UInt64.ofNat i)]
    rfl

theorem nodup_ids (config : Option Config) (first : UInt64) {clients : List (Client η)}
    (h : clients.length ≤ 2 ^ 64) :
    ((numbered config first clients).map SpawnedSession.id).Nodup := by
  rw [numbered_ids]
  refine List.Nodup.map_on (fun i hi j hj hij => ?_) List.nodup_range
  have hi := List.mem_range.mp hi
  have hj := List.mem_range.mp hj
  have heq : (UInt64.ofNat i).toNat = (UInt64.ofNat j).toNat := by rw [add_left_cancel hij]
  rwa [UInt64.toNat_ofNat_of_lt' (by simp only [UInt64.size]; omega),
    UInt64.toNat_ofNat_of_lt' (by simp only [UInt64.size]; omega)] at heq

/-- What `io.run` has done of `accepts` when it stops, waits or returns. -/
theorem ioRun_ends (env : Env η) (runtime : η) (options : TcpServerOptions)
    (accepts : List (AcceptOutcome η)) {p : Process η} (hp : p.accepting = true) :
    Ends (ioRun env runtime options accepts) p
      (fun _ q => stopped accepts = true ∧ q.Closed ∧
        Spawned options (admitted accepts) { p with serving := true } q ∧
        ∀ session ∈ q.sessions, isOver (session.run env runtime) = true)
      (fun h q => (h = .waiting → Spawned options (admitted accepts) { p with serving := true } q) ∧
        (h = .killed ∨ h = .waiting) ∧
        (SameAcceptor p q ∨ stopped accepts = true ∧ q.Closed) ∧
        ∃ clients, clients <+: admitted accepts ∧
          Spawned options clients { p with serving := true } q) := by
  refine ends_bind (ends_modify ?_)
  refine ends_bind (ends_get ?_)
  refine ends_ite (fun _ => ?_) fun hn => absurd hp hn
  refine ((acceptLoop_ends options accepts _).mono (fun _ _ h => h) ?_).bind ?_
  · rintro h q ⟨hwaiting, hh, hsame, hq⟩
    exact ⟨fun hw => (hwaiting hw).2, hh, .inl hsame, hq⟩
  · rintro _ q ⟨hstopped, hq, hclosed⟩
    refine ends_bind (ends_get ?_)
    refine ends_ite (fun hover => ?_) fun _ => ?_
    · exact ends_pure ⟨hstopped, hclosed, hq, List.all_eq_true.mp hover⟩
    · exact ends_throw ⟨fun _ => hq, .inr rfl, .inr ⟨hstopped, hclosed⟩, _, List.prefix_refl _, hq⟩

end ProxyPP.Core
