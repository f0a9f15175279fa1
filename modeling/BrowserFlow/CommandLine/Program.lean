import BrowserFlow.CommandLine.Configuration
import BrowserFlow.CommandLine.Request
import BrowserFlow.Document.Source
import BrowserFlow.Page.Session
import BrowserFlow.Report.Directory
import BrowserFlow.Run.Basic

/-!
The program: what it does with the words of a command line. A document is
checked, or it is run in a browser session; the events of the run go to standard
output as lines of JSON, its log goes to standard error, and at its end the
result is kept in the directory of the run. Everything that the program does is a
deed, in its order. Main statements: what is done about the events of a run are
lines alone, and a performance that is closed behind a session closes the browser
once more, whatever came of the run, and stops to listen for interruptions as
often as it begins to.
-/

set_option autoImplicit false
set_option relaxedAutoImplicit false

namespace BrowserFlow

/-- Something that the program does. -/
inductive Deed where
  /-- It writes a line to standard output. -/
  | printed (line : Text)
  /-- It writes a line to standard error. -/
  | complained (line : Text)
  /-- It sets its exit code. -/
  | exitCode (code : Nat)
  /-- It does something with the browser. -/
  | session (event : SessionEvent)
  /-- It begins to listen for interruptions. -/
  | listening
  /-- It stops to listen for interruptions. -/
  | deaf

/-- How the program ends. -/
inductive Departure where
  /-- With all done. -/
  | finished
  /-- Without a request. -/
  | parted (parting : Parting)
  /-- With something thrown. -/
  | threw (what : Datum)

/-- Those who answer the requests of a run. -/
structure Company (σ : Type) where
  /-- They themselves. -/
  host : Host σ
  /-- The files as a run leaves them. -/
  diskAfter : Live σ → Disk

/-- What the program runs in. -/
structure Terminal (σ : Type) where
  /-- The environment variables. -/
  environment : Entries (Option Text)
  /-- The files at the beginning. -/
  disk : Disk
  /-- The browser. -/
  browser : Browser
  /-- Those who answer the requests of a run that stores its values in a directory. -/
  company : Text → Except Datum (Company σ)
  /-- What the next run is called. -/
  runId : Text

/-- What the program has done. -/
structure Performance (σ : Type) where
  /-- Its deeds. -/
  deeds : List Deed
  /-- How it ended. -/
  departure : Departure
  /-- The files at the end. -/
  disk : Disk
  /-- The run, if there was one. -/
  live : Option (Live σ)

namespace Deed

/-- Whether a deed closes a browser. -/
def isClosing : Deed → Bool
  | .session event => event.isClosing
  | _ => false

/-- Whether a deed begins to listen for interruptions. -/
def isListening : Deed → Bool
  | .listening => true
  | _ => false

/-- Whether a deed stops to listen for interruptions. -/
def isDeaf : Deed → Bool
  | .deaf => true
  | _ => false

/-- The line about an event at a time. -/
def eventLine (event : Text) (time : Number) (payload : Entries Value) : Text :=
  let base : Entries Value := [("event", .text event), ("timestamp", .text (Moment.ofClock time))]
  Json.write (.mapping (base.override payload))

/-- An event at a time, told on standard output. -/
def told (event : Text) (time : Number) (payload : Entries Value) : Deed :=
  .printed (eventLine event time payload)

/-- What is done about an event of a run, where entries of a level are asked for. -/
def ofEvent? (asked : Level) : Event → Option Deed
  | .recorded time outcome => some (told "step_end" time outcome.entries)
  | .logged entry => (entry.line? asked).map .complained
  | _ => none

/-- What is done about the events of a run. -/
def ofEvents (asked : Level) (events : List Event) : List Deed := events.filterMap (ofEvent? asked)

end Deed

namespace Program

variable {σ : Type}

/-- Why an interruption cancels a run, and what is said about it. -/
def interruption : Datum × Remark :=
  (.failure (.plain none "Interrupted"),
    ⟨.warn, "Interrupt received, stopping after the current step"⟩)

/-- The complaints about a document that is not valid. -/
def complaints (file : Text) (issues : List Text) : List Deed :=
  .complained (file ++ " is invalid:") :: issues.map (fun issue ↦ .complained ("  - " ++ issue))
    ++ [.exitCode 1]

/-- The end of the program where a document cannot be loaded. -/
def refuse (terminal : Terminal σ) (file : Text) (failure : Failure) : Performance σ :=
  match failure with
  | .fault (.validation issues) => ⟨complaints file issues, .finished, terminal.disk, none⟩
  | other => ⟨[], .threw (.failure other), terminal.disk, none⟩

/-- A document checked. -/
def validate (terminal : Terminal σ) (file : Text) : Performance σ :=
  match Workflow.load file terminal.disk with
  | .error failure => refuse terminal file failure
  | .ok validated =>
    ⟨.printed "valid" :: validated.warnings.map (fun warning ↦ .printed ("warning: " ++ warning))
      ++ [.exitCode 0], .finished, terminal.disk, none⟩

/-! ### Runs -/

/-- What a run is set up with. -/
structure Setup where
  /-- The configuration of the program. -/
  configuration : Configuration
  /-- What the switches say. -/
  flags : RunSwitches
  /-- What the run is called. -/
  runId : Text
  /-- The workflow. -/
  workflow : Workflow

namespace Setup

/-- The directory of storage. -/
def storageDir (setup : Setup) : Text := setup.flags.storageDir.getD setup.configuration.storageDir

/-- The directory of the run, if its files are to be kept. -/
def directory (setup : Setup) : Option RunDirectory :=
  match setup.flags.runDir.orElse fun () ↦ setup.configuration.runDir with
  | some path => if path.isEmpty then none else some ⟨FilePath.join path setup.runId⟩
  | none => none

/-- What the session is opened with. -/
def session (setup : Setup) : SessionPlan where
  headless := !setup.flags.headed && setup.configuration.headless
  navigationTimeout := setup.configuration.navigationTimeout
  outputDir := setup.storageDir

/-- What is said about the run. -/
def options (setup : Setup) : RunParameters where
  runId := setup.runId
  bindings := setup.flags.bindings.map fun (name, value) ↦ (name, some value)
  exported := setup.flags.exported
  retry := setup.configuration.retry
  waitForTimeout := setup.configuration.waitForTimeout

/-- What is told when the run begins. -/
def startLine (setup : Setup) (time : Number) : Deed :=
  .told "run_start" time [("runId", .text setup.runId), ("workflow", .text setup.workflow.name),
    ("version", .text setup.workflow.version)]

/-- What is told when the run is over. -/
def completeLine (setup : Setup) (time : Number) (result : RunResult) : Deed :=
  .told "run_complete" time (Entries.present [("runId", some (.text setup.runId)),
    ("status", some (.text result.status.name)), ("durationMs", some (.number result.duration)),
    ("error", result.error.map FaultReport.toValue),
    ("variables", some (.mapping result.bindings))])

/-- The files about the run written, if they are to be kept. -/
def keep (setup : Setup) (time : Number) (result : RunResult) : Writing Unit :=
  match setup.directory with
  | some directory => directory.saveRun time result
  | none => return ()

end Setup

/-- The exit code of a run. -/
def exitCodeOf (status : RunEnding) : Nat := if status = .completed then 0 else 1

/-- What is done in a session: the run with its events, and what is kept of it. -/
def inSession (terminal : Terminal σ) (setup : Setup) (turns : Nat) (idle : Live σ) :
    Option (Performance σ) :=
  match terminal.company setup.storageDir with
  | .error what => some ⟨[], .threw what, terminal.disk, none⟩
  | .ok company =>
    let start := setup.startLine idle.time
    let level := setup.configuration.logLevel
    match Workflow.run company.host setup.options (.ofValue setup.workflow.toValue) turns idle with
    | none => none
    | some (.error failure, after) =>
      some ⟨start :: Deed.ofEvents level after.events, .threw (.failure failure),
        company.diskAfter after, some after⟩
    | some (.ok result, after) =>
      let (written, disk) := Writing.on (company.diskAfter after) (setup.keep after.time result)
      let told :=
        start :: Deed.ofEvents level after.events ++ [setup.completeLine after.time result]
      match written with
      | .error failure => some ⟨told, .threw (.failure failure), disk, some after⟩
      | .ok () =>
        some ⟨told ++ [.exitCode (exitCodeOf result.status)], .finished, disk, some after⟩

/-- A performance with the session closed behind it. What closing throws goes before all else. -/
def closed (browser : Browser) (performance : Performance σ) : Performance σ :=
  { performance with
    deeds := .listening :: performance.deeds ++ [.deaf, .session .closing]
    departure := (browser.close.map .threw).getD performance.departure }

/-- A document run in a browser session. -/
def run (terminal : Terminal σ) (file : Text) (flags : RunSwitches) (turns : Nat) (idle : Live σ) :
    Option (Performance σ) :=
  match Configuration.read terminal.environment with
  | .error failure => some ⟨[], .threw (.failure failure), terminal.disk, none⟩
  | .ok configuration =>
    match Workflow.load file terminal.disk with
    | .error failure => some (refuse terminal file failure)
    | .ok validated =>
      let setup : Setup := ⟨configuration, flags, terminal.runId, validated.workflow⟩
      let (opened, events) := terminal.browser.startSession setup.session
      let before := events.map Deed.session
      match opened with
      | .error what => some ⟨before, .threw what, terminal.disk, none⟩
      | .ok () =>
        (inSession terminal setup turns idle).map fun performance ↦
          let whole := closed terminal.browser performance
          { whole with deeds := before ++ whole.deeds }

/-- What the program shows when it ends without a request. -/
def part (terminal : Terminal σ) (parting : Parting) : Performance σ :=
  let shown := parting.shown.trimEnd
  ⟨[if parting.exitCode = 0 then .printed shown else .complained shown], .parted parting,
    terminal.disk, none⟩

/-- What the program does with the words of a command line; a run takes at most so many turns. -/
def perform (terminal : Terminal σ) (words : List Text) (turns : Nat) (idle : Live σ) :
    Option (Performance σ) :=
  match Request.ofWords words with
  | .error parting => some (part terminal parting)
  | .ok (.validate file) => some (validate terminal file)
  | .ok (.run file flags) => run terminal file flags turns idle

end Program

namespace Performance

variable {σ : Type}

/-- The lines on standard output. -/
def output (p : Performance σ) : List Text :=
  p.deeds.filterMap fun | .printed line => some line | _ => none

/-- The lines on standard error. -/
def complaints (p : Performance σ) : List Text :=
  p.deeds.filterMap fun | .complained line => some line | _ => none

/-- The exit codes that were set. -/
def exitCodes (p : Performance σ) : List Nat :=
  p.deeds.filterMap fun | .exitCode code => some code | _ => none

/-- What was done with the browser. -/
def sessionEvents (p : Performance σ) : List SessionEvent :=
  p.deeds.filterMap fun | .session event => some event | _ => none

/-- The words for something thrown that nobody caught. -/
def lastWords : Datum → Text
  | .failure failure => failure.message
  | other =>
    match other.spoken with
    | .ok text => text
    | .error failure => failure.message

/-- The exit code of the program. -/
def finalCode (p : Performance σ) : Nat :=
  match p.departure with
  | .finished => p.exitCodes.getLastD 0
  | .parted parting => parting.exitCode
  | .threw _ => 1

/-- The text on standard output. -/
def outputText (p : Performance σ) : Text := .concat (p.output.map (· ++ "\n"))

/-- The text on standard error, with the last words of a program that nobody caught. -/
def complaintText (p : Performance σ) : Text :=
  let last := match p.departure with
    | .threw what => [lastWords what]
    | _ => []
  .concat ((p.complaints ++ last).map (· ++ "\n"))

end Performance

/-! ### Sessions and their ends -/

/-- What is done about an event of a run closes no browser, and nobody begins or stops to listen. -/
theorem Deed.not_session_of_mem_ofEvents {asked : Level} {events : List Event} {deed : Deed}
    (h : deed ∈ Deed.ofEvents asked events) :
    deed.isClosing = false ∧ deed.isListening = false ∧ deed.isDeaf = false := by
  obtain ⟨event, _, hevent⟩ := List.mem_filterMap.mp h
  cases event with
  | recorded time outcome =>
    rw [← Option.some.inj hevent]
    exact ⟨rfl, rfl, rfl⟩
  | logged entry =>
    obtain ⟨line, _, rfl⟩ := Option.map_eq_some_iff.mp hevent
    exact ⟨rfl, rfl, rfl⟩
  | _ => simp [ofEvent?] at hevent

/-- The browser is closed once more behind a session. -/
theorem Program.countP_isClosing_closed {σ : Type} (browser : Browser) (p : Performance σ) :
    (closed browser p).deeds.countP Deed.isClosing = p.deeds.countP Deed.isClosing + 1 := by
  simp [closed, List.countP_cons, Deed.isClosing, SessionEvent.isClosing]

/-- Around a session, whoever begins to listen for interruptions stops again. -/
theorem Program.countP_isListening_closed {σ : Type} (browser : Browser) (p : Performance σ) :
    (closed browser p).deeds.countP Deed.isListening = p.deeds.countP Deed.isListening + 1
      ∧ (closed browser p).deeds.countP Deed.isDeaf = p.deeds.countP Deed.isDeaf + 1 := by
  simp [closed, List.countP_cons, Deed.isListening, Deed.isDeaf]

end BrowserFlow
