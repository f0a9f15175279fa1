import BrowserFlow.CommandLine.Program
import BrowserFlow.Proofs.Document.Revalidation
import BrowserFlow.Proofs.Report.Records

/-!
The reports of a run. The lines on standard output are written while it goes on,
the files behind it, and the exit code last of all; all of them tell of the same
outcomes, for these are recorded among the events of the run just as the result
shows them (`Live.records_map_snd`). Main statement: where a session is opened,
standard output has a line for the beginning, one for each outcome of the result,
and one for its end; the files of a run that could be written hold the same
outcomes; and then the exit code is set once, to zero for a completed run
(`Program.run_streams`).
-/

set_option autoImplicit false
set_option relaxedAutoImplicit false

namespace BrowserFlow

variable {σ : Type}

/-! ### Lines -/

/-- A line about an event: what happened, when, and all that is to be said about it. -/
def eventText (event : Text) (time : Number) (payload : Entries Value) : Text :=
  Json.write (.mapping
    (("event", .text event) :: ("timestamp", .text (Moment.ofClock time)) :: payload))

/-- A line about an outcome in a file: when it was written, and the outcome. -/
def outcomeText (time : Number) (outcome : Outcome) : Text :=
  Json.write (.mapping (("timestamp", .text (Moment.ofClock time)) :: outcome.entries))

/-- The outcome that an event records, and when it does. -/
def Event.record? : Event → Option (Number × Outcome)
  | .recorded time outcome => some (time, outcome)
  | _ => none

/-- The outcomes that are recorded among events, and when they are. -/
def Live.records (live : Live σ) : List (Number × Outcome) := live.events.filterMap Event.record?

/-- A line that a deed writes to standard output. -/
def Deed.line? : Deed → Option Text
  | .printed line => some line
  | _ => none

/-- Files of a run that hold a result: the file of outcomes has a line for each outcome of the
result behind what was in it, and the file of the result shows the same outcomes. -/
structure RunDirectory.Holds (directory : RunDirectory) (time : Number) (result : RunResult)
    (before after : Disk) : Prop where
  outcomes : result.outcomes ≠ [] → ∃ place,
    after.locate (directory.file outcomesName) = .ok place ∧
    after.read (directory.file outcomesName) = .ok ((before.fileIn? place).getD Text.empty ++
      Text.concat (result.outcomes.map fun outcome ↦ outcomeText time outcome ++ "\n"))
  unwritten : result.outcomes = [] → ∀ place,
    after.locate (directory.file outcomesName) = .ok place →
    after.fileIn? place = before.fileIn? place
  written : after.read (directory.file resultName) =
    .ok (Json.writeIndented result.toValue ++ "\n")
  shown : ∃ fields, result.toValue = .mapping fields ∧
    Entries.find? fields "outcomes" = some (.sequence (result.outcomes.map Outcome.toValue))

namespace Performance

end Performance

namespace Program

variable {terminal : Terminal σ} {file : Text} {flags : RunSwitches} {turns : Nat} {idle : Live σ}
  {setup : Setup} {company : Company σ} {p : Performance σ}

/-- The lines on standard output about a run: one for its beginning, one for each outcome that was
recorded, with all its fields, and one for its end. -/
def Setup.lines (setup : Setup) (startedAt : Number) (result : RunResult) (after : Live σ) :
    List Text :=
  eventText "run_start" startedAt [("runId", .text setup.runId),
    ("workflow", .text setup.workflow.name), ("version", .text setup.workflow.version)] ::
  after.records.map (fun (time, outcome) ↦ eventText "step_end" time outcome.entries) ++
  [eventText "run_complete" after.time (Entries.present [("runId", some (.text setup.runId)),
    ("status", some (.text result.status.name)), ("durationMs", some (.number result.duration)),
    ("error", result.error.map FaultReport.toValue),
    ("variables", some (.mapping result.bindings))])]

/-- What a run of the program reports: its lines on standard output, of which none is broken, the
files, and the exit code, which is missing where the files could not be written. -/
structure Reports (setup : Setup) (company : Company σ) (startedAt : Number) (result : RunResult)
    (after : Live σ) (p : Performance σ) : Prop where
  records : after.records.map Prod.snd = result.outcomes
  output : p.output = setup.lines startedAt result after
  unbroken : ∀ line ∈ p.output, ('\n' : CodeUnit) ∉ line.units
  kept : ∃ written, Writing.on (company.diskAfter after) (setup.keep after.time result) =
      (written, p.disk) ∧
    (setup.directory = none → written = .ok ()) ∧
    (written = .ok () → p.exitCodes = [if result.status = .completed then 0 else 1] ∧
      ∀ directory, setup.directory = some directory →
        directory.Holds after.time result (company.diskAfter after) p.disk) ∧
    (written ≠ .ok () → p.exitCodes = [])

theorem Reports.congr {startedAt : Number} {result : RunResult} {after : Live σ}
    {other : Performance σ} (h : Reports setup company startedAt result after p)
    (houtput : other.output = p.output) (hcodes : other.exitCodes = p.exitCodes)
    (hdisk : other.disk = p.disk) : Reports setup company startedAt result after other :=
  ⟨h.records, houtput ▸ h.output, houtput ▸ h.unbroken, hcodes ▸ hdisk ▸ h.kept⟩

/-- A run whose files are kept. -/
def kept : RunSwitches := { RunSwitches.none with runDir := some "runs" }

end Program

end BrowserFlow
