import BrowserFlow.Run.Outcome
import BrowserFlow.Log.Basic

/-!
The summary of a run, as a page of headings and lists for people to read: how it
went, which steps failed, the variables, and what the run was.
-/

set_option autoImplicit false
set_option relaxedAutoImplicit false

namespace BrowserFlow

/-- What a summary tells of an outcome. -/
structure Finding where
  /-- The path of the step. -/
  path : Text
  /-- The name of the step. -/
  step : Text
  /-- How it ended, if that is known. -/
  status : Option StepEnding
  /-- The kind and the message of its error. -/
  error : Option (Text × Text)

/-- What a summary tells of a run. -/
structure Summary where
  /-- The name of the workflow. -/
  workflow : Text
  /-- Its version. -/
  version : Text
  /-- How the run ended, if that is known. -/
  status : Option RunEnding
  /-- How long it took, in milliseconds. -/
  duration : Number
  /-- The outcomes. -/
  findings : List Finding
  /-- The kind and the message of what ended the run early. -/
  error : Option (Text × Text)
  /-- The variables at the end. -/
  bindings : Entries Value
  /-- What the run is called. -/
  runId : Text
  /-- When it began, written. -/
  startedAt : Text

namespace RunEnding

/-- The label of a status. -/
def label : RunEnding → Text
  | .completed => "Completed"
  | .failed => "Failed"
  | .cancelled => "Cancelled"

end RunEnding

namespace Finding

/-- Whether a step was skipped. -/
def isSkipped (finding : Finding) : Bool := finding.status == some .skipped

/-- Whether a step succeeded. -/
def isPassed (finding : Finding) : Bool :=
  finding.status == some .success || finding.status == some .retried

/-- Whether a step failed. -/
def isFailed (finding : Finding) : Bool := finding.status == some .failed

/-- What went wrong. -/
def detail (finding : Finding) : Text :=
  match finding.error with
  | some (kind, message) => kind ++ " - " ++ message
  | none => "no details"

/-- A failed step as a numbered line. -/
def line (index : Nat) (finding : Finding) : Text :=
  Text.ofNat (index + 1) ++ ". " ++ finding.path ++ " \"" ++ finding.step ++ "\": "
    ++ finding.detail

end Finding

namespace Summary

/-- Minutes and seconds of a time in milliseconds. -/
def durationText (milliseconds : Number) : Text :=
  let seconds := (milliseconds / 1000).floor
  let minutes := (seconds / 60).floor
  minutes.toText.padStart 2 '0' ++ "m " ++ (Number.rem seconds 60).toText.padStart 2 '0' ++ "s"

/-- The number of executed steps. -/
def executed (summary : Summary) : Nat := (summary.findings.filter (!·.isSkipped)).length

/-- The number of steps that succeeded. -/
def passed (summary : Summary) : Nat := (summary.findings.filter Finding.isPassed).length

/-- The number of skipped steps. -/
def skipped (summary : Summary) : Nat := (summary.findings.filter Finding.isSkipped).length

/-- The lines of a list, or the line that there are none. -/
def orNone (lines : List Text) : List Text := if lines.isEmpty then ["- None"] else lines

/-- The lines about how the run went. -/
def headLines (summary : Summary) : List Text :=
  let label := (summary.status.map RunEnding.label).getD "undefined"
  let head : List Text := [
    "# Run Summary",
    "- Workflow: " ++ summary.workflow ++ " (version " ++ summary.version ++ ")",
    "- Result: " ++ label,
    "- Duration: " ++ durationText summary.duration,
    "- Steps: " ++ Text.ofNat summary.passed ++ "/" ++ Text.ofNat summary.executed ++ " passed, "
      ++ Text.ofNat summary.skipped ++ " skipped"]
  match summary.error with
  | some (kind, message) => head ++ ["- Error: " ++ kind ++ " - " ++ message]
  | none => head

/-- The lines about the steps that failed. -/
def failureLines (summary : Summary) : List Text :=
  orNone ((summary.findings.filter Finding.isFailed).mapIdx Finding.line)

/-- The lines about the variables. -/
def variableLines (summary : Summary) : List Text :=
  orNone (summary.bindings.map fun (name, value) ↦ "- " ++ name ++ ": " ++ Json.write value)

/-- A heading behind an empty line. -/
def heading (words : Text) : List Text := [Text.empty, "## " ++ words]

/-- The lines about the run itself. -/
def infoLines (summary : Summary) : List Text :=
  ["- Run ID: " ++ summary.runId, "- Started at: " ++ summary.startedAt]

/-- The lines of a summary. -/
def lines (summary : Summary) : List Text :=
  summary.headLines ++ heading "Failed Steps" ++ summary.failureLines ++ heading "Variables"
    ++ summary.variableLines ++ heading "Run Info" ++ summary.infoLines

/-- A summary as text. -/
def toText (summary : Summary) : Text := Text.join "\n" summary.lines ++ "\n"

end Summary

namespace FaultReport

/-- The kind and the message of an error. -/
def words (info : FaultReport) : Text × Text := (info.kind.name, info.message)

end FaultReport

namespace Outcome

/-- What a summary tells of an outcome. -/
def finding (outcome : Outcome) : Finding :=
  ⟨outcome.path, outcome.step, some outcome.status, outcome.error.map FaultReport.words⟩

end Outcome

namespace RunResult

/-- The summary of a run. -/
def summary (result : RunResult) : Summary where
  workflow := result.workflow
  version := result.version
  status := some result.status
  duration := result.duration
  findings := result.outcomes.map Outcome.finding
  error := result.error.map FaultReport.words
  bindings := result.bindings
  runId := result.runId
  startedAt := Moment.ofClock result.startedAt

/-- The object that reports show of a result. -/
def toValue (result : RunResult) : Value :=
  .mapping (Entries.present [
    ("runId", some (.text result.runId)),
    ("workflow", some (.text result.workflow)),
    ("version", some (.text result.version)),
    ("status", some (.text result.status.name)),
    ("variables", some (.mapping result.bindings)),
    ("outcomes", some (.sequence (result.outcomes.map Outcome.toValue))),
    ("error", result.error.map FaultReport.toValue),
    ("startedAt", some (.text (Moment.ofClock result.startedAt))),
    ("durationMs", some (.number result.duration))])

end RunResult

end BrowserFlow
