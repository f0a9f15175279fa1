import BrowserFlow.Value.Normal
import BrowserFlow.Workflow.Place

/-!
Outcomes of steps and results of runs, and the objects that reports show of them.
-/

set_option autoImplicit false
set_option relaxedAutoImplicit false

namespace BrowserFlow

/-- How a step ended. -/
inductive StepEnding where
  /-- At the first attempt. -/
  | success
  /-- At a later attempt. -/
  | retried
  /-- Its guard did not hold. -/
  | skipped
  /-- With an error. -/
  | failed
  deriving DecidableEq

namespace StepEnding

/-- The name of a status. -/
def name : StepEnding → Text
  | .success => "success"
  | .retried => "retried"
  | .skipped => "skipped"
  | .failed => "failed"

end StepEnding

namespace FaultReport

/-- The object that reports show of an error. -/
def toValue (info : FaultReport) : Value :=
  .mapping [("kind", .text info.kind.name), ("message", .text info.message)]

end FaultReport

/-- What is recorded of one visit of a step. -/
structure Outcome where
  /-- The name of the step. -/
  step : Text
  /-- Its kind. -/
  kind : ActionKind
  /-- Where it is. -/
  place : Place
  /-- How it ended. -/
  status : StepEnding
  /-- How often it was tried. -/
  attempts : Nat
  /-- How long it took, in milliseconds. -/
  duration : Number
  /-- What went wrong. -/
  error : Option FaultReport
  /-- The name that its value is bound to. -/
  resultKey : Option Text

namespace Outcome

/-- The path of the step. -/
def path (outcome : Outcome) : Text := outcome.place.toText

/-- The entries that reports show of an outcome. -/
def entries (outcome : Outcome) : Entries Value :=
  Entries.present [
    ("step", some (.text outcome.step)),
    ("action", some (.text outcome.kind.name)),
    ("path", some (.text outcome.path)),
    ("status", some (.text outcome.status.name)),
    ("attempts", some (.number (Number.ofNat outcome.attempts))),
    ("durationMs", some (.number outcome.duration)),
    ("error", outcome.error.map FaultReport.toValue),
    ("resultKey", outcome.resultKey.map .text)]

/-- The object that reports show of an outcome. -/
def toValue (outcome : Outcome) : Value := .mapping outcome.entries

end Outcome

/-- How a run ended. -/
inductive RunEnding where
  | completed | failed | cancelled
  deriving DecidableEq

namespace RunEnding

/-- The name of a status. -/
def name : RunEnding → Text
  | .completed => "completed"
  | .failed => "failed"
  | .cancelled => "cancelled"

end RunEnding

/-- What a run leaves behind. -/
structure RunResult where
  /-- What the run is called. -/
  runId : Text
  /-- The name of the workflow. -/
  workflow : Text
  /-- The version of the workflow. -/
  version : Text
  /-- How the run ended. -/
  status : RunEnding
  /-- The variables at the end. -/
  bindings : Entries Value
  /-- The outcomes in their order. -/
  outcomes : List Outcome
  /-- What ended the run early. -/
  error : Option FaultReport
  /-- When the run began, in milliseconds. -/
  startedAt : Number
  /-- How long it took, in milliseconds. -/
  duration : Number

end BrowserFlow
