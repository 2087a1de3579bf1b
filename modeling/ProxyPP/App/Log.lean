import ProxyPP.Core.TcpServer

/-!
# ProxyPP.App.Log — `log::Init`

Every logger gets a file sink of its own on the one log file, which is created where it is missing.
What is logged afterwards is not tracked: log lines go to `logFiles` and nowhere else.
-/

namespace ProxyPP.App

open ProxyPP ProxyPP.Lib ProxyPP.Core

/-! ## The code -/

/-- `log::Module` -/
inductive LogModule
  | app
  | core
  | http
  | rule
  | qjs
  deriving DecidableEq, Repr

/-- The loggers that `MakeLoggers` registers. -/
def loggers : List LogModule := [.app, .core, .http, .rule, .qjs]

def kMaxFileCount : ℕ := 5

/-- `log_dir / "proxypp.log"` -/
def logFile (logDir : Bytes) : Bytes := logDir ++ ascii "/proxypp.log"

/-- The log file and the names that it is rotated to. -/
def logFiles (logDir : Bytes) : List Bytes :=
  logFile logDir :: (List.range kMaxFileCount).map fun i =>
    logDir ++ ascii "/proxypp." ++ decimal (i + 1) ++ ascii ".log"

/-- The files behind the opening of the log file, for appending. -/
def openedLog (logDir : Bytes) (files : Bytes → Option Bytes) : Bytes → Option Bytes :=
  Function.update files (logFile logDir) (some ((files (logFile logDir)).getD []))

variable {η : Type}

/-- `MakeRotateFileSink`, which throws if the file cannot be opened. -/
def makeRotateFileSink (openLog : LogModule → Option Bytes) (logDir : Bytes) (logger : LogModule) :
    EStateM Halt (Process η) PUnit := do
  match ← systemCall fun p => (openLog logger,
      if (openLog logger).isNone then { p with files := openedLog logDir p.files } else p) with
  | none => pure ⟨⟩
  | some what => throw (.uncaught what)

/-- The loop of `log::Init` over the loggers. -/
def makeSinks (openLog : LogModule → Option Bytes) (logDir : Bytes) :
    List LogModule → EStateM Halt (Process η) PUnit
  | [] => pure ⟨⟩
  | logger :: rest => do
    makeRotateFileSink openLog logDir logger
    makeSinks openLog logDir rest

/-- `log::Init` -/
def logInit (openLog : LogModule → Option Bytes) (logDir : Bytes) :
    EStateM Halt (Process η) PUnit :=
  makeSinks openLog logDir loggers

/-! ## What it leaves -/

theorem openedLog_idem (logDir : Bytes) (files : Bytes → Option Bytes) :
    openedLog logDir (openedLog logDir files) = openedLog logDir files := by
  unfold openedLog
  rw [Function.update_self, Option.getD_some, Function.update_idem]

theorem openedLog_of_ne {logDir path : Bytes} (h : path ≠ logFile logDir)
    (files : Bytes → Option Bytes) : openedLog logDir files path = files path :=
  Function.update_of_ne h _ _

/-- The log was or was not opened yet. -/
def LogOnly (logDir : Bytes) (p q : Process η) : Prop :=
  ∃ files n, q = { p with files := files, callsLeft := n } ∧
    (files = p.files ∨ files = openedLog logDir p.files)

/-- The log file is there. -/
def LogOpened (logDir : Bytes) (p q : Process η) : Prop :=
  ∃ n, q = { p with files := openedLog logDir p.files, callsLeft := n }

theorem LogOpened.trans {logDir : Bytes} {p p₁ q : Process η} (h : LogOpened logDir p p₁)
    (h' : LogOpened logDir p₁ q) : LogOpened logDir p q := by
  obtain ⟨n₁, rfl⟩ := h
  obtain ⟨n, rfl⟩ := h'
  exact ⟨n, by rw [openedLog_idem]⟩

theorem LogOpened.then_only {logDir : Bytes} {p p₁ q : Process η} (h : LogOpened logDir p p₁)
    (h' : LogOnly logDir p₁ q) : LogOnly logDir p q := by
  obtain ⟨n₁, rfl⟩ := h
  obtain ⟨files, n, rfl, hfiles⟩ := h'
  refine ⟨files, n, rfl, .inr ?_⟩
  rcases hfiles with hfiles | hfiles
  · exact hfiles
  · exact hfiles.trans (openedLog_idem logDir p.files)

theorem makeRotateFileSink_ends (openLog : LogModule → Option Bytes) (logDir : Bytes)
    (logger : LogModule) (p : Process η) :
    Ends (makeRotateFileSink openLog logDir logger) p
      (fun _ q => openLog logger = none ∧ LogOpened logDir p q)
      (fun h q => (h = .killed ∨ ∃ what, h = .uncaught what) ∧ LogOnly logDir p q) := by
  refine ends_bind (ends_systemCall ⟨.inl rfl, p.files, p.callsLeft, rfl, .inl rfl⟩ fun n => ?_)
  cases openLog logger with
  | none => exact ends_pure ⟨rfl, n, rfl⟩
  | some what => exact ends_throw ⟨.inr ⟨what, rfl⟩, p.files, n, rfl, .inl rfl⟩

theorem makeSinks_ends (openLog : LogModule → Option Bytes) (logDir : Bytes)
    (rest : List LogModule) : ∀ logger (p : Process η),
    Ends (makeSinks openLog logDir (logger :: rest)) p
      (fun _ q => (∀ l ∈ logger :: rest, openLog l = none) ∧ LogOpened logDir p q)
      (fun h q => (h = .killed ∨ ∃ what, h = .uncaught what) ∧ LogOnly logDir p q) := by
  induction rest with
  | nil =>
    intro logger p
    refine (makeRotateFileSink_ends openLog logDir logger p).bind ?_
    rintro _ q ⟨hopen, hq⟩
    exact ends_pure ⟨by simpa using hopen, hq⟩
  | cons next rest ih =>
    intro logger p
    refine (makeRotateFileSink_ends openLog logDir logger p).bind ?_
    rintro _ p₁ ⟨hopen, hp₁⟩
    refine (ih next p₁).mono ?_ ?_
    · rintro _ q ⟨hrest, hq⟩
      exact ⟨List.forall_mem_cons.mpr ⟨hopen, hrest⟩, hp₁.trans hq⟩
    · rintro h q ⟨hh, hq⟩
      exact ⟨hh, hp₁.then_only hq⟩

/-- **`log::Init`** opens the log file, or nobody catches its exception. -/
theorem logInit_ends (openLog : LogModule → Option Bytes) (logDir : Bytes) (p : Process η) :
    Ends (logInit openLog logDir) p
      (fun _ q => (∀ logger, openLog logger = none) ∧ LogOpened logDir p q)
      (fun h q => (h = .killed ∨ ∃ what, h = .uncaught what) ∧ LogOnly logDir p q) := by
  refine (makeSinks_ends openLog logDir _ _ p).mono ?_ fun _ _ h => h
  rintro _ q ⟨hopen, hq⟩
  refine ⟨fun logger => hopen logger ?_, hq⟩
  cases logger <;> decide

theorem makeRotateFileSink_run {openLog : LogModule → Option Bytes} (logDir : Bytes)
    {logger : LogModule} {p : Process η} {n : ℕ} (h : openLog logger = none)
    (hn : p.callsLeft = n + 1) : makeRotateFileSink openLog logDir logger p
      = .ok ⟨⟩ { p with files := openedLog logDir p.files, callsLeft := n } := by
  unfold makeRotateFileSink
  rw [h]
  exact bind_ok (systemCall_run _ hn)

theorem makeSinks_run {openLog : LogModule → Option Bytes} (logDir : Bytes)
    (h : ∀ logger, openLog logger = none) (rest : List LogModule) :
    ∀ logger {p : Process η} {n}, p.callsLeft = n + (logger :: rest).length →
      makeSinks openLog logDir (logger :: rest) p
        = .ok ⟨⟩ { p with files := openedLog logDir p.files, callsLeft := n } := by
  induction rest with
  | nil =>
    intro logger p n hn
    rw [makeSinks, bind_ok (makeRotateFileSink_run logDir (h logger) hn)]
    rfl
  | cons next rest ih =>
    intro logger p n hn
    have hlogger : makeRotateFileSink openLog logDir logger p = .ok ⟨⟩ { p with
        files := openedLog logDir p.files, callsLeft := n + (next :: rest).length } :=
      makeRotateFileSink_run logDir (h logger) hn
    rw [makeSinks, bind_ok hlogger, ih next rfl, openedLog_idem]

theorem logInit_run {openLog : LogModule → Option Bytes} (logDir : Bytes)
    (h : ∀ logger, openLog logger = none) {p : Process η} {n : ℕ}
    (hn : p.callsLeft = n + loggers.length) : logInit openLog logDir p
      = .ok ⟨⟩ { p with files := openedLog logDir p.files, callsLeft := n } :=
  makeSinks_run logDir h _ _ hn

end ProxyPP.App
