import ProxyPP.App.Log
import ProxyPP.Lib.Uri
import ProxyPP.Qjs.Runtime
import ProxyPP.Rules.Accepted

/-!
# ProxyPP.App.Main — `main.cpp`

The program from its parsed command line to its return: the log is opened, rules and engine are
loaded, the server is started, and only then is the ready file written, next to its place and
renamed into it.  A path stands for one file here.
-/

namespace ProxyPP.App

open ProxyPP ProxyPP.Lib ProxyPP.Http ProxyPP.Rules ProxyPP.Core

/-! ## The code -/

/-- What the command line says of the `http` command, `--rule-file` apart. -/
structure HttpOpts where
  bind : Bytes
  port : ℕ
  readyFile : Bytes
  deriving DecidableEq, Repr

/-- How the calls turn out that `main` makes itself. -/
structure Host where
  /-- The exception of the file sink of a logger, if its constructor throws. -/
  openLog : LogModule → Option Bytes
  /-- `std::filesystem::absolute`, which throws. -/
  absolute : Bytes → Except Bytes Bytes
  inProgramDirectory : Bytes → Bytes
  /-- `JS_NewRuntime` -/
  newRuntime : Bool
  openTemporary : Bool
  /-- Whether all bytes are written, and how many are if not. -/
  flushTemporary : Option ℕ
  /-- The exception of `std::filesystem::rename`, if it throws. -/
  rename : Option Bytes

/-- `"./logs"` -/
def kLogDir : Bytes := ascii "./logs"

/-- `ResolveRuleFilePath` -/
def resolveRuleFilePath (host : Host) (ruleFile : Option Bytes) : Except Bytes Bytes :=
  match ruleFile with
  | some path => host.absolute path
  | none => .ok (host.inProgramDirectory (ascii "rules.json"))

variable {η : Type}

/-- `ReadTextFile` -/
def readTextFile (p : Process η) (path : Bytes) : Except CommonError Bytes :=
  match p.files path with
  | some text => .ok text
  | none => .error ⟨.invalidArgument, ascii "failed to open file: " ++ path⟩

/-- `LoadRuleConfig`, of which `main` takes the rules for HTTP. -/
def loadRuleConfig (J : Jsoncons) (path : Bytes) : EStateM Halt (Process η) (Option Config) :=
  fun p => match loadRulesFromFile J (readTextFile p) path with
    | .ok config => .ok config.http p
    | .error e => .error (.exitFailure (.loading e)) p

/-- `InitRuleEngine` -/
def initRuleEngine (host : Host) : EStateM Halt (Process η) PUnit :=
  if host.newRuntime then pure ⟨⟩
  else throw (.exitFailure (.engine ⟨.rule .ruleEngineInitializationFailed,
    ascii "create qjs runtime failed: " ++ Qjs.messageOf .createRuntimeFailed⟩))

/-- The content of the ready file. -/
def readyText (endpoint : ListenEndpoint) : Bytes :=
  ascii "\x7b\n  \"host\": \"" ++ endpoint.address ++ ascii "\",\n  \"port\": "
    ++ decimal endpoint.port ++ ascii "\n\x7d\n"

def temporaryFile (readyFile : Bytes) : Bytes := readyFile ++ ascii ".tmp"

def writeFile (path text : Bytes) (p : Process η) : Process η :=
  { p with files := Function.update p.files path (some text) }

/-- `rename` replaces what is there. -/
def renameFile (source target : Bytes) (p : Process η) : Process η :=
  { p with files := Function.update (Function.update p.files target (p.files source)) source none }

def writeReadyFile (host : Host) (readyFile : Bytes) (endpoint : ListenEndpoint) :
    EStateM Halt (Process η) PUnit := do
  let temporary := temporaryFile readyFile
  -- `std::ios::trunc`
  if ← systemCall fun p =>
      (host.openTemporary, if host.openTemporary then writeFile temporary [] p else p) then
    let text := readyText endpoint
    match ← systemCall fun p =>
        (host.flushTemporary, writeFile temporary (text.take (host.flushTemporary.getD text.length))
          p) with
    | some _ =>
      throw (.exitFailure (.fileOperationFailed (ascii "write file " ++ temporary
        ++ ascii " failed")))
    | none =>
      match ← systemCall fun p =>
          (host.rename, if host.rename.isNone then renameFile temporary readyFile p else p) with
      | some what =>
        throw (.exitFailure (.internalError (ascii "rename file failed, " ++ what)))
      | none =>
        -- the log line behind the renaming, still inside the `try`
        match host.absolute readyFile with
        | .ok _ => pure ⟨⟩
        | .error what =>
          throw (.exitFailure (.internalError (ascii "rename file failed, " ++ what)))
  else throw (.exitFailure (.internalError temporary))

/-- `main` up to its return, behind the parsing of the command line. -/
def runMain (J : Jsoncons) (host : Host) (net : Network η) (env : Env η) (runtime : η)
    (http : Option HttpOpts) (ruleFile : Option Bytes) : EStateM Halt (Process η) PUnit := do
  logInit host.openLog kLogDir
  match resolveRuleFilePath host ruleFile with
  | .error what => throw (.uncaught what)
  | .ok ruleFilePath => do
    let httpRuleConfig ← loadRuleConfig J ruleFilePath
    initRuleEngine host
    match http with
    | none => ioRun env runtime ⟨[], 0, none⟩ net.accepts
    | some opts =>
      let options : TcpServerOptions := ⟨opts.bind, opts.port, httpRuleConfig⟩
      let endpoint ← start net options
      if opts.readyFile ≠ [] then writeReadyFile host opts.readyFile endpoint
      ioRun env runtime options net.accepts

/-- What a return destroys: `io` goes, and the server with it. -/
def afterHalt (h : Halt) (p : Process η) : Process η :=
  match h with
  | .exitFailure _ => p.closed
  | _ => p

/-- `main`.  It returns `0`, or `EXIT_FAILURE`. -/
def main (J : Jsoncons) (host : Host) (net : Network η) (env : Env η) (runtime : η)
    (http : Option HttpOpts) (ruleFile : Option Bytes) : EStateM Halt (Process η) PUnit := fun p =>
  match runMain J host net env runtime http ruleFile p with
  | .ok _ q => .ok ⟨⟩ q.closed
  | .error h q => .error h (afterHalt h q)

/-! ## The ready file -/

/-- The byte of a digit gives the digit back. -/
theorem char_of_digit {c : Char} (h : c.isDigit = true) : Char.ofNat c.toNat.toUInt8.toNat = c := by
  have hle : c.toNat ≤ 57 := by
    simp only [Char.isDigit, Bool.and_eq_true, decide_eq_true_eq] at h
    exact h.2
  have hbyte : c.toNat.toUInt8.toNat = c.toNat := by
    rw [Nat.toUInt8, UInt8.toNat_ofNat']
    omega
  rw [hbyte, Char.ofNat_toNat]

theorem decimal_injective : Function.Injective decimal := by
  have hdecode : ∀ n, (decimal n).map (fun b => Char.ofNat b.toNat) = (Nat.repr n).toList := by
    intro n
    have hdigits : ∀ c ∈ (Nat.repr n).toList, Char.ofNat c.toNat.toUInt8.toNat = c := by
      intro c hc
      rw [Nat.toList_repr] at hc
      exact char_of_digit (Nat.isDigit_of_mem_toDigits (by omega) (by omega) hc)
    show ((Nat.repr n).toList.map fun c => c.toNat.toUInt8).map (fun b => Char.ofNat b.toNat) = _
    rw [List.map_map]
    exact (List.map_congr_left hdigits).trans (List.map_id _)
  intro m n h
  have hrepr := congrArg (List.map fun b : UInt8 => Char.ofNat b.toNat) h
  rw [hdecode, hdecode, Nat.toList_repr, Nat.toList_repr] at hrepr
  rw [← Nat.ofDigitChars_ten_toDigits (n := m), hrepr, Nat.ofDigitChars_ten_toDigits]

/-- `"` -/
def quote : UInt8 := 34

/-- The ready file tells the endpoint, as no address has a quote in it. -/
theorem readyText_injective {e e' : ListenEndpoint} (he : quote ∉ e.address)
    (he' : quote ∉ e'.address) (h : readyText e = readyText e') : e = e' := by
  have hsplit : ∀ e : ListenEndpoint, readyText e = ascii "\x7b\n  \"host\": \"" ++ (e.address ++
      prefixed quote (some (ascii ",\n  \"port\": " ++ decimal e.port ++ ascii "\n\x7d\n"))) := by
    intro e
    simp only [readyText, prefixed, List.append_assoc]
    rfl
  rw [hsplit, hsplit] at h
  have hcut := congrArg (cut quote) (List.append_cancel_left h)
  rw [cut_of_not_mem he, cut_of_not_mem he'] at hcut
  obtain ⟨haddress, hrest⟩ := Prod.mk.inj hcut
  have hport := List.append_cancel_left (List.append_cancel_right (Option.some.inj hrest))
  cases e
  cases e'
  exact congrArg₂ ListenEndpoint.mk haddress (decimal_injective hport)

theorem temporaryFile_ne (readyFile : Bytes) : temporaryFile readyFile ≠ readyFile := by
  intro h
  have hlen := congrArg List.length h
  rw [temporaryFile, List.length_append, show (ascii ".tmp").length = 4 from rfl] at hlen
  omega

/-- The ready file in its place. -/
def publishedFiles (readyFile : Bytes) (endpoint : ListenEndpoint)
    (files : Bytes → Option Bytes) : Bytes → Option Bytes :=
  Function.update (Function.update files readyFile (some (readyText endpoint)))
    (temporaryFile readyFile) none

/-- `files` as they were, but for the temporary file and the log. -/
def TemporaryOnly (readyFile : Bytes) (files files' : Bytes → Option Bytes) : Prop :=
  ∀ path, path ≠ temporaryFile readyFile → path ≠ logFile kLogDir → files' path = files path

theorem TemporaryOnly.update {readyFile : Bytes} {files files' : Bytes → Option Bytes}
    (h : TemporaryOnly readyFile files files') (text : Bytes) :
    TemporaryOnly readyFile files
      (Function.update files' (temporaryFile readyFile) (some text)) := by
  intro path hpath hlog
  rw [Function.update_of_ne hpath, h path hpath hlog]

/-- The log was opened before. -/
theorem TemporaryOnly.of_log {readyFile : Bytes} {files files' : Bytes → Option Bytes}
    (h : TemporaryOnly readyFile (openedLog kLogDir files) files') :
    TemporaryOnly readyFile files files' := fun path hpath hlog =>
  (h path hpath hlog).trans (openedLog_of_ne hlog files)

/-- The renamed file is the text that was written, all of it. -/
theorem renamed_files (readyFile : Bytes) (endpoint : ListenEndpoint) (p : Process η) :
    (renameFile (temporaryFile readyFile) readyFile
      (writeFile (temporaryFile readyFile) ((readyText endpoint).take (readyText endpoint).length)
        (writeFile (temporaryFile readyFile) [] p))).files
      = publishedFiles readyFile endpoint p.files := by
  simp only [renameFile, writeFile, publishedFiles, List.take_length, Function.update_idem,
    Function.update_self]
  rw [Function.update_comm (temporaryFile_ne readyFile).symm, Function.update_idem,
    Function.update_comm (temporaryFile_ne readyFile)]

/-- Every call of `WriteReadyFile` succeeds. -/
structure Host.Publishes (host : Host) (readyFile : Bytes) : Prop where
  openTemporary : host.openTemporary = true
  flushTemporary : host.flushTemporary = none
  rename : host.rename = none
  absolute : ∃ path, host.absolute readyFile = .ok path

/-- The failure of the log line behind the renaming. -/
def renamingFailed (what : Bytes) : Halt :=
  .exitFailure (.internalError (ascii "rename file failed, " ++ what))

/-- `writeReadyFile` publishes the endpoint as a whole or not at all.  Once it is published only the
log line can fail. -/
theorem writeReadyFile_ends (host : Host) (readyFile : Bytes) (endpoint : ListenEndpoint)
    (p : Process η) : Ends (writeReadyFile host readyFile endpoint) p
      (fun _ q => host.Publishes readyFile ∧ ∃ n, q = { p with
        files := publishedFiles readyFile endpoint p.files, callsLeft := n })
      (fun h q => (h ≠ .waiting ∧ ∃ files n, q = { p with files := files, callsLeft := n } ∧
          TemporaryOnly readyFile p.files files) ∨
        ∃ what n, host.absolute readyFile = .error what ∧ h = renamingFailed what ∧ q = { p with
          files := publishedFiles readyFile endpoint p.files, callsLeft := n }) := by
  have hsame : TemporaryOnly readyFile p.files p.files := fun _ _ _ => rfl
  unfold writeReadyFile
  refine ends_bind (ends_systemCall (.inl ⟨by simp, _, _, rfl, hsame⟩) fun n₁ => ?_)
  cases hopen : host.openTemporary with
  | false => exact ends_throw (.inl ⟨by simp, _, _, rfl, hsame⟩)
  | true =>
    refine ends_bind (ends_systemCall (.inl ⟨by simp, _, _, rfl, hsame.update []⟩) fun n₂ => ?_)
    cases hflush : host.flushTemporary with
    | some n => exact ends_throw (.inl ⟨by simp, _, _, rfl, (hsame.update []).update _⟩)
    | none =>
      refine ends_bind (ends_systemCall (.inl ⟨by simp, _, _, rfl, (hsame.update []).update _⟩)
        fun n₃ => ?_)
      cases hrename : host.rename with
      | some what => exact ends_throw (.inl ⟨by simp, _, _, rfl, (hsame.update []).update _⟩)
      | none =>
        have hfiles := renamed_files readyFile endpoint p
        cases habsolute : host.absolute readyFile with
        | ok path =>
          exact ends_pure ⟨⟨hopen, hflush, hrename, path, habsolute⟩, n₃, by rw [← hfiles]; rfl⟩
        | error what => exact ends_throw (.inr ⟨what, n₃, rfl, rfl, by rw [← hfiles]; rfl⟩)

theorem writeReadyFile_run {host : Host} {readyFile : Bytes} (endpoint : ListenEndpoint)
    {p : Process η} {n : ℕ} (h : host.Publishes readyFile) (hn : p.callsLeft = n + 3) :
    writeReadyFile host readyFile endpoint p = .ok ⟨⟩ { p with
      files := publishedFiles readyFile endpoint p.files, callsLeft := n } := by
  obtain ⟨path, habsolute⟩ := h.absolute
  unfold writeReadyFile
  dsimp only
  rw [h.openTemporary, h.flushTemporary, h.rename, habsolute,
    bind_ok (systemCall_run _ (show _ = n + 2 + 1 from hn)), if_pos rfl,
    bind_ok (systemCall_run _ (show _ = n + 1 + 1 from rfl))]
  dsimp only
  rw [bind_ok (systemCall_run _ (show _ = n + 1 from rfl)), ← renamed_files]
  rfl

/-! ## How far `main` gets -/

/-- A process that was just started, in a file system with these files. -/
def Process.new (files : Bytes → Option Bytes) (callsLeft : ℕ) : Process η :=
  { files, acceptor := .closed, reuseAddress := false, accepting := false, serving := false,
    nextSessionId := 1, sessions := [], callsLeft }

/-- A process with its log opened. -/
def logged (p : Process η) : Process η :=
  { p with files := openedLog kLogDir p.files }

/-- `config` are the rules for HTTP in the rule file. -/
def Loaded (J : Jsoncons) (host : Host) (ruleFile : Option Bytes) (p : Process η)
    (config : Option Config) : Prop :=
  ∃ path ruleConfig, resolveRuleFilePath host ruleFile = .ok path ∧
    loadRulesFromFile J (readTextFile p) path = .ok ruleConfig ∧ ruleConfig.http = config

/-- Every step in front of `io.run` succeeds. -/
structure Succeeds (J : Jsoncons) (host : Host) (net : Network η) (opts : HttpOpts)
    (ruleFile : Option Bytes) (p : Process η) (config : Option Config)
    (endpoint : ListenEndpoint) : Prop where
  logs : ∀ logger, host.openLog logger = none
  loaded : Loaded J host ruleFile (logged p) config
  newRuntime : host.newRuntime = true
  starts : net.Starts ⟨opts.bind, opts.port, config⟩ endpoint
  publishes : opts.readyFile = [] ∨ host.Publishes opts.readyFile

/-- `io.run` was not entered, and the ready file was not put into its place. -/
def Starting (opts : HttpOpts) (p q : Process η) : Prop :=
  ∃ acceptor reuseAddress accepting files n,
    q = { p with
      acceptor := acceptor, reuseAddress := reuseAddress, accepting := accepting, files := files,
      callsLeft := n } ∧
    TemporaryOnly opts.readyFile p.files files

theorem Starting.after {opts : HttpOpts} {p q : Process η} (h : Starting opts p q) (e : Halt) :
    Starting opts p (afterHalt e q) := by
  obtain ⟨acceptor, reuseAddress, accepting, files, n, rfl, hfiles⟩ := h
  cases e with
  | exitFailure failure => exact ⟨.closed, reuseAddress, false, files, n, rfl, hfiles⟩
  | killed => exact ⟨_, _, _, files, n, rfl, hfiles⟩
  | waiting => exact ⟨_, _, _, files, n, rfl, hfiles⟩
  | uncaught what => exact ⟨_, _, _, files, n, rfl, hfiles⟩

/-- Nobody is served. -/
theorem Starting.idle {opts : HttpOpts} {p q : Process η} (h : Starting opts p q) :
    q.serving = p.serving ∧ q.sessions = p.sessions := by
  obtain ⟨acceptor, reuseAddress, accepting, files, n, rfl, -⟩ := h
  exact ⟨rfl, rfl⟩

theorem LogOnly.starting {opts : HttpOpts} {p q : Process η} (h : LogOnly kLogDir p q) :
    Starting opts p q := by
  obtain ⟨files, n, rfl, rfl | rfl⟩ := h
  · exact ⟨_, _, _, _, n, rfl, fun _ _ _ => rfl⟩
  · exact ⟨_, _, _, _, n, rfl, fun path _ hlog => openedLog_of_ne hlog _⟩

/-- The files while `io.run` runs. -/
def servingFiles (readyFile : Bytes) (endpoint : ListenEndpoint) (files : Bytes → Option Bytes) :
    Bytes → Option Bytes :=
  if readyFile = [] then openedLog kLogDir files
  else publishedFiles readyFile endpoint (openedLog kLogDir files)

/-- The server listens and accepts at `endpoint`, or its accept loop was stopped. -/
def Serves (net : Network η) (q : Process η) (endpoint : ListenEndpoint) : Prop :=
  q.acceptor = .listening endpoint ∧ q.accepting = true ∨
    stopped net.accepts = true ∧ q.serving = true ∧ q.Closed

section Main

variable (J : Jsoncons) (host : Host) (net : Network η) (env : Env η) (runtime : η)
  (opts : HttpOpts) (ruleFile : Option Bytes)

/-- In `io.run`, with one session for each of `clients`. -/
structure Serving (config : Option Config) (clients : List (Client η)) (p q : Process η) :
    Prop where
  listens : ∃ endpoint, Succeeds J host net opts ruleFile p config endpoint ∧
    Serves net q endpoint ∧ q.files = servingFiles opts.readyFile endpoint p.files
  serving : q.serving = true
  sessions : q.sessions = p.sessions ++ numbered config p.nextSessionId clients

/-- `main` has returned `0`. -/
def ReturnsZero (p q : Process η) : Prop :=
  stopped net.accepts = true ∧ q.Closed ∧
    (∀ session ∈ q.sessions, isOver (session.run env runtime) = true) ∧
    ∃ config, Serving J host net opts ruleFile config (admitted net.accepts) p q

/-- `main` has failed with the ready file in its place. -/
def FailsPublished (h : Halt) (p q : Process η) : Prop :=
  ∃ what config endpoint n, host.absolute opts.readyFile = .error what ∧ h = renamingFailed what ∧
    net.Starts ⟨opts.bind, opts.port, config⟩ endpoint ∧ q = { p with
      acceptor := .closed, reuseAddress := true, accepting := false
      files := publishedFiles opts.readyFile endpoint (openedLog kLogDir p.files), callsLeft := n }

/-- `main` has stopped, or waits. -/
def StopsIn (h : Halt) (p q : Process η) : Prop :=
  h ≠ .waiting ∧ Starting opts p q ∨ FailsPublished host net opts h p q ∨
    (h = .killed ∨ h = .waiting) ∧ ∃ config clients,
      clients <+: admitted net.accepts ∧ (h = .waiting → clients = admitted net.accepts) ∧
      Serving J host net opts ruleFile config clients p q

variable {J host net opts ruleFile}

theorem FailsPublished.idle {h : Halt} {p q : Process η} (hf : FailsPublished host net opts h p q) :
    q.serving = p.serving ∧ q.sessions = p.sessions := by
  obtain ⟨what, config, endpoint, n, -, -, -, rfl⟩ := hf
  exact ⟨rfl, rfl⟩

theorem FailsPublished.ne_waiting {h : Halt} {p q : Process η}
    (hf : FailsPublished host net opts h p q) : h ≠ .waiting := by
  obtain ⟨what, config, endpoint, n, -, rfl, -⟩ := hf
  simp [renamingFailed]

/-- `io.run` from a server that listens. -/
theorem serve_ends {config : Option Config} {endpoint : ListenEndpoint} {p p₁ : Process η}
    (h : Succeeds J host net opts ruleFile p config endpoint)
    (hlistens : p₁.acceptor = .listening endpoint ∧ p₁.accepting = true)
    (hfiles₁ : p₁.files = servingFiles opts.readyFile endpoint p.files)
    (hsame : p₁.sessions = p.sessions ∧ p₁.nextSessionId = p.nextSessionId) :
    Ends (ioRun env runtime ⟨opts.bind, opts.port, config⟩ net.accepts) p₁
      (fun _ q => ReturnsZero J host net env runtime opts ruleFile p q)
      (fun h q => StopsIn J host net opts ruleFile h p q) := by
  obtain ⟨hsessions₁, hnext⟩ := hsame
  have hserving : ∀ {clients q}, SameAcceptor p₁ q ∨ stopped net.accepts = true ∧ q.Closed →
      Spawned ⟨opts.bind, opts.port, config⟩ clients { p₁ with serving := true } q →
      Serving J host net opts ruleFile config clients p q := by
    rintro clients q hq ⟨hsessions, hfiles, hserving⟩
    refine ⟨⟨endpoint, h, ?_, hfiles.trans hfiles₁⟩, hserving, ?_⟩
    · rcases hq with ⟨hacceptor, haccepting⟩ | ⟨hstopped, hclosed⟩
      · exact .inl ⟨hacceptor.trans hlistens.1, haccepting.trans hlistens.2⟩
      · exact .inr ⟨hstopped, hserving, hclosed⟩
    · rw [hsessions, ← hsessions₁, ← hnext]
  refine (ioRun_ends env runtime _ net.accepts hlistens.2).mono ?_ ?_
  · rintro _ q ⟨hstopped, hclosed, hq, hover⟩
    exact ⟨hstopped, hclosed, hover, config, hserving (.inr ⟨hstopped, hclosed⟩) hq⟩
  · rintro e q ⟨hwaiting, he, hacceptor, clients, hclients, hq⟩
    cases he with
    | inl he =>
      exact .inr (.inr ⟨.inl he, config, clients, hclients, by simp [he], hserving hacceptor hq⟩)
    | inr he =>
      exact .inr (.inr ⟨.inr he, config, _, List.prefix_refl _, fun _ => rfl,
        hserving hacceptor (hwaiting he)⟩)

theorem ReturnsZero.closed {p q : Process η}
    (h : ReturnsZero J host net env runtime opts ruleFile p q) : q.closed = q := by
  obtain ⟨-, ⟨hacceptor, haccepting⟩, -⟩ := h
  cases q
  cases hacceptor
  cases haccepting
  rfl

/-- What waits or was killed is not destroyed. -/
theorem after_of_serving {h : Halt} (hh : h = .killed ∨ h = .waiting) (q : Process η) :
    afterHalt h q = q := by
  rcases hh with rfl | rfl
  · rfl
  · rfl

variable (J host net opts ruleFile)

theorem runMain_ends (p : Process η) :
    Ends (runMain J host net env runtime (some opts) ruleFile) p
      (fun _ q => ReturnsZero J host net env runtime opts ruleFile p q)
      (fun h q => StopsIn J host net opts ruleFile h p (afterHalt h q)) := by
  have hserve : ∀ {config endpoint p₁}, Succeeds J host net opts ruleFile p config endpoint →
      p₁.acceptor = .listening endpoint ∧ p₁.accepting = true →
      p₁.files = servingFiles opts.readyFile endpoint p.files →
      p₁.sessions = p.sessions ∧ p₁.nextSessionId = p.nextSessionId →
      Ends (ioRun env runtime ⟨opts.bind, opts.port, config⟩ net.accepts) p₁
        (fun _ q => ReturnsZero J host net env runtime opts ruleFile p q)
        (fun h q => StopsIn J host net opts ruleFile h p (afterHalt h q)) := by
    intro config endpoint p₁ h hlistens hfiles hsame
    refine ((ioRun_ends env runtime ⟨opts.bind, opts.port, config⟩ net.accepts hlistens.2).and
      (serve_ends env runtime h hlistens hfiles hsame)).mono (fun _ _ h => h.2) ?_
    rintro e q ⟨⟨-, he, -⟩, hq⟩
    rw [after_of_serving he]
    exact hq
  have hstarting : ∀ {e q}, e ≠ .waiting → Starting opts p q →
      StopsIn J host net opts ruleFile e p (afterHalt e q) :=
    fun he hq => .inl ⟨he, hq.after _⟩
  unfold runMain
  refine ((logInit_ends host.openLog kLogDir p).mono (fun _ _ h => h) ?_).bind ?_
  · rintro h q ⟨hh, hlog⟩
    exact hstarting (by rcases hh with rfl | ⟨what, rfl⟩ <;> simp) hlog.starting
  rintro _ _ ⟨hlogs, n₀, rfl⟩
  have hlogged : TemporaryOnly opts.readyFile p.files (openedLog kLogDir p.files) :=
    fun path _ hlog => openedLog_of_ne hlog _
  split
  · exact ends_throw (hstarting (by simp) ⟨_, _, _, _, n₀, rfl, hlogged⟩)
  rename_i path hpath
  refine ends_bind ?_
  unfold Ends loadRuleConfig
  cases hload : loadRulesFromFile J (readTextFile (logged p)) path with
  | error e =>
    have hload' : loadRulesFromFile J (readTextFile { p with
      files := openedLog kLogDir p.files, callsLeft := n₀ }) path = .error e := hload
    rw [hload']
    exact hstarting (by simp) ⟨_, _, _, _, n₀, rfl, hlogged⟩
  | ok ruleConfig =>
  have hload' : loadRulesFromFile J (readTextFile { p with
    files := openedLog kLogDir p.files, callsLeft := n₀ }) path = .ok ruleConfig := hload
  have hloaded : Loaded J host ruleFile (logged p) ruleConfig.http :=
    ⟨path, ruleConfig, hpath, hload, rfl⟩
  rw [hload']
  show Ends _ _ _ _
  refine ends_bind ?_
  unfold initRuleEngine
  refine ends_ite (fun hruntime => ends_pure ?_) fun _ =>
    ends_throw (hstarting (by simp) ⟨_, _, _, _, n₀, rfl, hlogged⟩)
  refine ((start_ends net ⟨opts.bind, opts.port, ruleConfig.http⟩ _).mono (fun _ _ h => h)
    ?_).bind ?_
  · rintro h q ⟨hh, acceptor, reuseAddress, accepting, n, rfl⟩
    exact hstarting hh ⟨_, _, _, _, n, rfl, hlogged⟩
  rintro endpoint _ ⟨hstarts, n, rfl⟩
  by_cases hready : opts.readyFile = []
  · rw [if_neg (not_not.mpr hready)]
    refine hserve ⟨hlogs, hloaded, hruntime, hstarts, .inl hready⟩ ⟨rfl, rfl⟩ ?_ ⟨rfl, rfl⟩
    rw [servingFiles, if_pos hready]
    rfl
  · rw [if_pos hready]
    refine ((writeReadyFile_ends host opts.readyFile endpoint _).mono (fun _ _ h => h) ?_).bind ?_
    · rintro h _ (⟨hh, files, n₁, rfl, hfiles⟩ | ⟨what, n₁, habsolute, rfl, rfl⟩)
      · exact hstarting hh ⟨_, _, _, files, n₁, rfl, hfiles.of_log⟩
      · exact .inr (.inl ⟨what, _, endpoint, n₁, habsolute, rfl, hstarts, rfl⟩)
    · rintro _ _ ⟨hpublishes, n₁, rfl⟩
      refine hserve ⟨hlogs, hloaded, hruntime, hstarts, .inr hpublishes⟩ ⟨rfl, rfl⟩ ?_ ⟨rfl, rfl⟩
      rw [servingFiles, if_neg hready]
      rfl

theorem main_ends (p : Process η) :
    Ends (main J host net env runtime (some opts) ruleFile) p
      (fun _ q => ReturnsZero J host net env runtime opts ruleFile p q)
      (fun h q => StopsIn J host net opts ruleFile h p q) := by
  have hends := runMain_ends J host net env runtime opts ruleFile p
  unfold Ends main
  cases hr : runMain J host net env runtime (some opts) ruleFile p with
  | ok a q =>
    have hq := hends.ok hr
    show ReturnsZero J host net env runtime opts ruleFile p q.closed
    rw [hq.closed]
    exact hq
  | error h q => exact hends.error hr

/-- `main` closes the acceptor when it fails, and has not entered `io.run`. -/
theorem main_fails {p q : Process η} {failure : Failure} (hr : main J host net env runtime
    (some opts) ruleFile p = .error (.exitFailure failure) q) :
    q.serving = p.serving ∧ q.acceptor = .closed := by
  constructor
  · have hstops := (main_ends J host net env runtime opts ruleFile p).error hr
    rcases hstops with ⟨-, hstarting⟩ | hfails | ⟨hh, -⟩
    · exact hstarting.idle.1
    · exact hfails.idle.1
    · simp at hh
  · unfold main at hr
    cases hrun : runMain J host net env runtime (some opts) ruleFile p with
    | ok a t =>
      rw [hrun] at hr
      cases hr
    | error h t =>
      rw [hrun] at hr
      obtain ⟨rfl, rfl⟩ := EStateM.Result.error.inj hr
      rfl

/-- The calls that `main` makes in front of `io.run`, if none of them fails. -/
def callsToServe : ℕ := loggers.length + 5 + 3

/-- With enough calls left, a start that succeeds gets to `io.run`. -/
theorem main_serves {p : Process η} {config : Option Config} {endpoint : ListenEndpoint}
    (h : Succeeds J host net opts ruleFile p config endpoint)
    (hcalls : callsToServe ≤ p.callsLeft) :
    (stateOf (main J host net env runtime (some opts) ruleFile p)).serving = true := by
  obtain ⟨path, ruleConfig, hpath, hload, rfl⟩ := h.loaded
  obtain ⟨n, hn⟩ : ∃ n, p.callsLeft = n + 3 + 5 + loggers.length :=
    ⟨p.callsLeft - callsToServe, by unfold callsToServe at *; omega⟩
  have hrun : ∀ p : Process η, p.accepting = true → (stateOf (ioRun env runtime
      ⟨opts.bind, opts.port, ruleConfig.http⟩ net.accepts p)).serving = true := by
    intro p hp
    refine Ends.stateOf (I := fun q => q.serving = true)
      ((ioRun_ends env runtime _ net.accepts hp).mono ?_ ?_)
    · rintro _ q ⟨-, -, hq, -⟩
      exact hq.2.2
    · rintro _ q ⟨-, -, -, clients, -, hq⟩
      exact hq.2.2
  have hserving : (stateOf (runMain J host net env runtime (some opts) ruleFile p)).serving
      = true := by
    have hconfig : loadRuleConfig J path { p with
        files := openedLog kLogDir p.files, callsLeft := n + 3 + 5 }
          = .ok ruleConfig.http { p with
            files := openedLog kLogDir p.files, callsLeft := n + 3 + 5 } := by
      have hload' : loadRulesFromFile J (readTextFile { p with
        files := openedLog kLogDir p.files, callsLeft := n + 3 + 5 }) path = .ok ruleConfig := hload
      unfold loadRuleConfig
      rw [hload']
    unfold runMain
    rw [bind_ok (logInit_run kLogDir h.logs hn), hpath]
    dsimp only
    rw [bind_ok hconfig, initRuleEngine, if_pos h.newRuntime, bind_ok (pure_run _ _),
      bind_ok (start_run h.starts rfl)]
    rcases h.publishes with hready | hpublishes
    · rw [if_neg (not_not.mpr hready)]
      exact hrun _ rfl
    · by_cases hready : opts.readyFile = []
      · rw [if_neg (not_not.mpr hready)]
        exact hrun _ rfl
      · rw [if_pos hready, bind_ok (writeReadyFile_run endpoint hpublishes rfl)]
        exact hrun _ rfl
  unfold main
  cases hr : runMain J host net env runtime (some opts) ruleFile p with
  | ok a q =>
    rw [hr] at hserving
    exact hserving
  | error e q =>
    rw [hr] at hserving
    cases e <;> exact hserving

/-! ## What is seen of a run -/

theorem publishedFiles_ready (readyFile : Bytes) (endpoint : ListenEndpoint)
    (files : Bytes → Option Bytes) :
    publishedFiles readyFile endpoint files readyFile = some (readyText endpoint) := by
  rw [publishedFiles, Function.update_of_ne (temporaryFile_ne readyFile).symm,
    Function.update_self]

theorem publishedFiles_of_ne {readyFile : Bytes} {endpoint : ListenEndpoint}
    {files : Bytes → Option Bytes} {path : Bytes} (hready : path ≠ readyFile)
    (htemporary : path ≠ temporaryFile readyFile) :
    publishedFiles readyFile endpoint files path = files path := by
  rw [publishedFiles, Function.update_of_ne htemporary, Function.update_of_ne hready]

/-- What an observer finds, if the ready file was not there at first; `holds` is what is true of an
endpoint that is told. -/
structure Seen (opts : HttpOpts) (files : Bytes → Option Bytes) (holds : ListenEndpoint → Prop)
    (q : Process η) : Prop where
  published : ∀ text, q.files opts.readyFile = some text → ∃ endpoint, quote ∉ endpoint.address ∧
    text = readyText endpoint ∧ holds endpoint
  untouched : ∀ path, path ∉ logFiles kLogDir → path ≠ opts.readyFile →
    path ≠ temporaryFile opts.readyFile → q.files path = files path
  idle : q.sessions ≠ [] → q.serving = true
  served : q.serving = true → opts.readyFile ≠ [] →
    (q.files opts.readyFile).isSome = true ∧ q.files (temporaryFile opts.readyFile) = none

theorem ne_logFile {logDir path : Bytes} (h : path ∉ logFiles logDir) : path ≠ logFile logDir := by
  rintro rfl
  exact h List.mem_cons_self

/-- `main` failed behind the renaming, and the server is gone. -/
def FailedPublished (host : Host) (opts : HttpOpts) (r : EStateM.Result Halt (Process η) PUnit) :
    Prop :=
  ∃ what q, host.absolute opts.readyFile = .error what ∧ r = .error (renamingFailed what) q ∧
    q.Closed

section Seen

variable {J : Jsoncons} {host : Host} {net : Network η} {opts : HttpOpts} {ruleFile : Option Bytes}
  {files : Bytes → Option Bytes} {callsLeft : ℕ}
  {q : Process η}

section Address

variable (haddress : ∀ address port endpoint, net.bind address port = .ok endpoint →
  quote ∉ endpoint.address)

include haddress

theorem FailsPublished.seen {h : Halt} {r : EStateM.Result Halt (Process η) PUnit}
    (hfails : FailsPublished host net opts h (Process.new files callsLeft) q)
    (hr : r = .error h q) :
    Seen opts files (fun endpoint => Serves net q endpoint ∨ FailedPublished host opts r) q := by
  obtain ⟨what, config, endpoint, n, habsolute, rfl, hstarts, rfl⟩ := hfails
  refine ⟨fun text htext => ?_, fun path hpath hne htemporary => ?_, fun h => absurd rfl h,
    fun h => by cases h⟩
  · have hfile := publishedFiles_ready opts.readyFile endpoint (openedLog kLogDir files)
    obtain ⟨address, -, hbind⟩ := hstarts.bind
    exact ⟨endpoint, haddress _ _ _ hbind, (Option.some.inj (hfile.symm.trans htext)).symm,
      .inr ⟨what, _, habsolute, hr, rfl, rfl⟩⟩
  · exact (publishedFiles_of_ne hne htemporary).trans (openedLog_of_ne (ne_logFile hpath) files)

variable (hready : files opts.readyFile = none) (hlog : opts.readyFile ∉ logFiles kLogDir)

include hready hlog

theorem Serving.seen {config : Option Config} {clients : List (Client η)}
    (h : Serving J host net opts ruleFile config clients (Process.new files callsLeft) q)
    {failed : Prop} : Seen opts files (fun endpoint => Serves net q endpoint ∨ failed) q := by
  obtain ⟨endpoint, hsucceeds, hserves, hfiles⟩ := h.listens
  obtain ⟨address, -, hbind⟩ := hsucceeds.starts.bind
  have hfiles₀ : (Process.new files callsLeft : Process η).files = files := rfl
  rw [hfiles₀, servingFiles] at hfiles
  by_cases hname : opts.readyFile = []
  · rw [if_pos hname] at hfiles
    refine ⟨fun text htext => ?_, fun path hpath _ _ => ?_, fun _ => h.serving,
      fun _ hne => absurd hname hne⟩
    · rw [hfiles, openedLog_of_ne (ne_logFile hlog)] at htext
      exact absurd (htext.symm.trans hready) (by simp)
    · rw [hfiles, openedLog_of_ne (ne_logFile hpath)]
  · rw [if_neg hname] at hfiles
    refine ⟨fun text htext => ?_, fun path hpath hne htemporary => ?_, fun _ => h.serving,
      fun _ _ => ?_⟩
    · rw [hfiles, publishedFiles_ready] at htext
      exact ⟨endpoint, haddress _ _ _ hbind, (Option.some.inj htext).symm, .inl hserves⟩
    · rw [hfiles, publishedFiles_of_ne hne htemporary, openedLog_of_ne (ne_logFile hpath)]
    · rw [hfiles, publishedFiles_ready]
      exact ⟨rfl, Function.update_self ..⟩

end Address

theorem Starting.seen (h : Starting opts (Process.new files callsLeft) q)
    (hready : files opts.readyFile = none) (hlog : opts.readyFile ∉ logFiles kLogDir)
    (holds : ListenEndpoint → Prop) : Seen opts files holds q := by
  obtain ⟨acceptor, reuseAddress, accepting, files', n, rfl, hfiles⟩ := h
  refine ⟨fun text htext => ?_, fun path hpath _ htemporary =>
    hfiles path htemporary (ne_logFile hpath), fun h => absurd rfl h, fun h => by cases h⟩
  -- nothing was published
  have hnone : files' opts.readyFile = none :=
    (hfiles _ (temporaryFile_ne opts.readyFile).symm (ne_logFile hlog)).trans hready
  exact absurd (htext.symm.trans hnone) (by simp)

end Seen

/-- **The ready file keeps its promise.**  The process may be killed at any of its calls, and any of
them may fail.  At every moment the ready file, if it is there, is complete and tells the endpoint
at which the server listens and accepts, until its accept loop is stopped or `main` fails in the log
line behind the renaming; no client is served before the file is there; and a run that fails has
served nobody.  The ready file must not be the log. -/
theorem ready_file_promises (J : Jsoncons) (host : Host) (net : Network η) (env : Env η)
    (runtime : η) (opts : HttpOpts) (ruleFile : Option Bytes) (files : Bytes → Option Bytes)
    (callsLeft : ℕ) (hready : files opts.readyFile = none)
    (hlog : opts.readyFile ∉ logFiles kLogDir)
    (haddress : ∀ address port endpoint, net.bind address port = .ok endpoint →
      quote ∉ endpoint.address) :
    let r := main J host net env runtime (some opts) ruleFile (Process.new files callsLeft)
    let q := stateOf r
    (∀ text, q.files opts.readyFile = some text → ∃ endpoint, text = readyText endpoint ∧
      (Serves net q endpoint ∨ FailedPublished host opts r)) ∧
    (∀ endpoint, quote ∉ endpoint.address → q.files opts.readyFile = some (readyText endpoint) →
      Serves net q endpoint ∨ FailedPublished host opts r) ∧
    (∀ path, path ∉ logFiles kLogDir → path ≠ opts.readyFile →
      path ≠ temporaryFile opts.readyFile → q.files path = files path) ∧
    (q.sessions ≠ [] → q.serving = true) ∧
    (q.serving = true → opts.readyFile ≠ [] →
      (q.files opts.readyFile).isSome = true ∧ q.files (temporaryFile opts.readyFile) = none) ∧
    ∀ failure, r = .error (.exitFailure failure) q → q.serving = false ∧ q.acceptor = .closed := by
  intro r q
  have hends := main_ends J host net env runtime opts ruleFile (Process.new files callsLeft)
  have hseen : Seen opts files
      (fun endpoint => Serves net q endpoint ∨ FailedPublished host opts r) q := by
    cases hr : r with
    | ok a t =>
      have hq : q = t := by rw [show q = stateOf r from rfl, hr]; rfl
      obtain ⟨-, -, -, config, hserving⟩ := hends.ok hr
      rw [hq]
      exact hserving.seen haddress hready hlog
    | error h t =>
      have hq : q = t := by rw [show q = stateOf r from rfl, hr]; rfl
      rw [hq]
      rcases hends.error hr with ⟨-, hstarting⟩ | hfails | ⟨-, config, clients, -, -, hserving⟩
      · exact hstarting.seen hready hlog _
      · exact hfails.seen haddress rfl
      · exact hserving.seen haddress hready hlog
  refine ⟨fun text htext => ?_, fun endpoint hquote htext => ?_, hseen.untouched, hseen.idle,
    hseen.served, fun failure hr => ?_⟩
  · obtain ⟨endpoint, -, hseen⟩ := hseen.published text htext
    exact ⟨endpoint, hseen⟩
  · obtain ⟨endpoint', hquote', hsame, hserves⟩ := hseen.published _ htext
    rw [readyText_injective hquote hquote' hsame]
    exact hserves
  · exact main_fails J host net env runtime opts ruleFile hr

/-- **One session for each client.**  Given enough calls, `main` gets to `io.run` exactly if every
step in front of it succeeds.  The sessions are then one for each connection accepted before the
accept loop is stopped, in order and with different numbers, all with the rules of the rule file;
failed accepts are skipped.  While it waits none of them is left out, and it returns only when the
loop was stopped, the acceptor is closed and every session is over. -/
theorem main_serves_admitted (files : Bytes → Option Bytes) (callsLeft : ℕ) :
    let p : Process η := Process.new files callsLeft
    let r := main J host net env runtime (some opts) ruleFile p
    let q := stateOf r
    (callsToServe ≤ callsLeft → (q.serving = true ↔ ∃ config endpoint,
      Succeeds J host net opts ruleFile p config endpoint)) ∧
    ∃ config clients, q.sessions = numbered config 1 clients ∧ clients <+: admitted net.accepts ∧
      (clients ≠ [] → Loaded J host ruleFile (logged p) config) ∧
      (clients.length ≤ 2 ^ 64 → (q.sessions.map SpawnedSession.id).Nodup) ∧
      (q.serving = true → ∃ endpoint, Serves net q endpoint) ∧
      (r = .error .waiting q → clients = admitted net.accepts) ∧
      (r = .ok ⟨⟩ q → stopped net.accepts = true ∧ q.Closed ∧ clients = admitted net.accepts ∧
        ∀ session ∈ q.sessions, isOver (session.run env runtime) = true) := by
  intro p r q
  have hends := main_ends J host net env runtime opts ruleFile p
  constructor
  · intro hcalls
    constructor
    · -- `io.run` is entered behind all the steps
      refine Ends.stateOf (I := fun q => q.serving = true → ∃ config endpoint,
        Succeeds J host net opts ruleFile p config endpoint) (hends.mono ?_ ?_)
      · rintro _ q ⟨-, -, -, config, hserving⟩ _
        obtain ⟨endpoint, hsucceeds, -⟩ := hserving.listens
        exact ⟨config, endpoint, hsucceeds⟩
      · rintro h q (⟨-, hstarting⟩ | hfails | ⟨-, config, clients, -, -, hserving⟩) hq
        · exact absurd (hstarting.idle.1.symm.trans hq) (by simp [p, Process.new])
        · exact absurd (hfails.idle.1.symm.trans hq) (by simp [p, Process.new])
        · obtain ⟨endpoint, hsucceeds, -⟩ := hserving.listens
          exact ⟨config, endpoint, hsucceeds⟩
    · rintro ⟨config, endpoint, hsucceeds⟩
      exact main_serves J host net env runtime opts ruleFile hsucceeds hcalls
  · cases hr : r with
    | ok a t =>
      obtain ⟨hstopped, hclosed, hover, config, hserving⟩ := hends.ok hr
      have hq : q = t := by rw [show q = stateOf r from rfl, hr]; rfl
      obtain ⟨endpoint, hsucceeds, hserves, -⟩ := hserving.listens
      rw [hq]
      refine ⟨config, admitted net.accepts, hserving.sessions, List.prefix_refl _,
        fun _ => hsucceeds.loaded, fun hlen => ?_, fun _ => ⟨endpoint, hserves⟩, fun _ => rfl,
        fun _ => ⟨hstopped, hclosed, rfl, hover⟩⟩
      rw [hserving.sessions]
      exact nodup_ids config 1 hlen
    | error h t =>
      have hq : q = t := by rw [show q = stateOf r from rfl, hr]; rfl
      rw [hq]
      have hcases : (t.sessions = [] ∧ t.serving = false ∧ h ≠ .waiting) ∨
          ∃ config clients, clients <+: admitted net.accepts ∧
            (h = .waiting → clients = admitted net.accepts) ∧
            Serving J host net opts ruleFile config clients p t := by
        rcases hends.error hr with ⟨hh, hstarting⟩ | hfails | ⟨-, hserving⟩
        · exact .inl ⟨hstarting.idle.2, hstarting.idle.1, hh⟩
        · exact .inl ⟨hfails.idle.2, hfails.idle.1, hfails.ne_waiting⟩
        · exact .inr hserving
      rcases hcases with ⟨hsessions, hidle, hh⟩ | ⟨config, clients, hclients, hwaiting, hserving⟩
      · refine ⟨none, [], hsessions, List.nil_prefix, fun h => absurd rfl h, fun _ => ?_,
          fun hs => absurd (hidle.symm.trans hs) (by simp), fun hw => ?_, fun hok => by cases hok⟩
        · rw [hsessions]
          exact List.nodup_nil
        · cases hw
          exact absurd rfl hh
      · obtain ⟨endpoint, hsucceeds, hserves, -⟩ := hserving.listens
        refine ⟨config, clients, hserving.sessions, hclients, fun _ => hsucceeds.loaded,
          fun hlen => ?_, fun _ => ⟨endpoint, hserves⟩, fun hw => ?_, fun hok => by cases hok⟩
        · rw [hserving.sessions]
          exact nodup_ids config 1 hlen
        · cases hw
          exact hwaiting rfl

end Main

/-- A host on which every call succeeds. -/
def obligingHost : Host := ⟨fun _ => none, .ok, id, true, true, none, none⟩

/-- A network that binds to this endpoint, and in which accepting fails. -/
def boundNetwork (endpoint : ListenEndpoint) : Network (List (Except Error Bool)) :=
  { makeAddress := fun text => .ok ⟨text, false⟩, openAcceptor := none, setReuseAddress := none,
    bind := fun _ _ => .ok endpoint, listen := none,
    accepts := [.failed ⟨24, ascii "system", ascii "Too many open files"⟩] }

/-- A run that is killed after the ready file was written. -/
theorem ready_file_promises_killed :
    let q := stateOf (main (Jsoncons.strict [(setUserAgentText, setUserAgent)]) obligingHost
      (boundNetwork ⟨ascii "127.0.0.1", 3000⟩) (Env.ofHosts [] []) []
      (some ⟨ascii "127.0.0.1", 3000, ascii "ready.json"⟩) none (Process.new
        (Function.update (fun _ => none) (ascii "rules.json") (some setUserAgentText))
        callsToServe))
    q.files (ascii "ready.json") = some (readyText ⟨ascii "127.0.0.1", 3000⟩) ∧
      Serves (boundNetwork ⟨ascii "127.0.0.1", 3000⟩) q ⟨ascii "127.0.0.1", 3000⟩ := by
  intro q
  have hread : q.files (ascii "ready.json") = some (readyText ⟨ascii "127.0.0.1", 3000⟩) := by
    decide +kernel
  obtain ⟨-, htold, -⟩ := ready_file_promises (Jsoncons.strict [(setUserAgentText, setUserAgent)])
    obligingHost (boundNetwork ⟨ascii "127.0.0.1", 3000⟩) (Env.ofHosts [] []) []
    ⟨ascii "127.0.0.1", 3000, ascii "ready.json"⟩ none
    (Function.update (fun _ => none) (ascii "rules.json") (some setUserAgentText)) callsToServe
    (by decide +kernel) (by decide +kernel) fun _ _ _ h => by
      obtain rfl := Except.ok.inj h
      decide
  refine ⟨hread, (htold _ (by decide) hread).resolve_right ?_⟩
  -- the file was renamed without a failure
  rintro ⟨what, -, habsolute, -⟩
  cases habsolute

end ProxyPP.App
