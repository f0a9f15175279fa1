import BrowserFlow.Document.Written
import BrowserFlow.Run.Walk
import BrowserFlow.Workflow.Checking

/-!
Runs of documents. A document is checked first; an invalid one is never run. The
variables of the document are bound, those of the caller over them, the steps
are walked, and the result tells how it went.
-/

set_option autoImplicit false
set_option relaxedAutoImplicit false

namespace BrowserFlow

/-- What a caller says about a run. -/
structure RunParameters where
  /-- What the run is called. -/
  runId : Text
  /-- Variables that go before those of the document. -/
  bindings : Entries (Option Value)
  /-- The variables that the result shows, if not all. -/
  exported : Option (List Text)
  /-- The plan of steps that are tried again without one of their own. -/
  retry : RetryPlan
  /-- How long steps wait for an element, in seconds. -/
  waitForTimeout : Number

namespace RunParameters

/-- Options that say nothing but the name of the run. -/
def standard (runId : Text) : RunParameters :=
  ⟨runId, [], none, .standard, Action.standardWaitForTimeout⟩

end RunParameters

namespace Workflow

variable {σ : Type}

/-- The variables at the start of a run. -/
def startingVariables (w : Workflow) (options : RunParameters) : Entries (Option Value) :=
  let own : Entries (Option Value) :=
    (w.bindings.getD []).map fun (name, value) ↦ (name, some value)
  own.override options.bindings

/-- What stays the same throughout a run of a workflow. -/
def setting (w : Workflow) (host : Host σ) (options : RunParameters) : Setting σ :=
  ⟨host, [("runId", .text options.runId), ("workflow", .text w.name)], options.retry,
    options.waitForTimeout⟩

/-- The walk at the start of a run. -/
def start (w : Workflow) (options : RunParameters) (live : Live σ) : Walk σ :=
  ⟨{ live with environment := .ofEntries (w.startingVariables options) },
    [.steps w.steps [] 0 none]⟩

/-- What a run says to the log before its first step. -/
def announce (v : Validated) (setting : Setting σ) (live : Live σ) : Live σ :=
  let warned := v.warnings.foldl (fun l warning ↦
    l.log setting.bindings .warn "Workflow warning" [("warning", .text warning)]) live
  warned.log setting.bindings .info "Run started"
    [("version", .text v.workflow.version),
      ("steps", .number (Number.ofNat v.workflow.steps.length))]

/-- What a run says to the log after its last step. -/
def conclude (ending : Ending) (startedAt : Number) (setting : Setting σ) (live : Live σ) :
    Live σ :=
  let status : Datum := .text ending.status.name
  let told := match ending.fault? with
    | some fault =>
      live.log setting.bindings .error "Run ended early"
        [("status", status), ("kind", .text fault.kind.name), ("error", .failure (.fault fault))]
    | none => live
  told.log setting.bindings .info "Run finished"
    [("status", status), ("durationMs", .number (live.time - startedAt)),
      ("outcomes", .number (Number.ofNat live.outcomes.length))]

/-- The result of a run. -/
def result (w : Workflow) (options : RunParameters) (startedAt : Number) (ending : Ending)
    (live : Live σ) : RunResult where
  runId := options.runId
  workflow := w.name
  version := w.version
  status := ending.status
  bindings := live.environment.snapshot options.exported
  outcomes := live.outcomes
  error := ending.fault?.map Fault.info
  startedAt := startedAt
  duration := live.time - startedAt

/-- A run before anything has happened. -/
def idle (now : Number) (signal : Signal) (host : σ) : Live σ :=
  ⟨.ofEntries [], now, id, signal, host, [], []⟩

/-- The run of a document in at most so many turns, from a run before anything has happened. -/
def run (host : Host σ) (options : RunParameters) (document : Datum) (turns : Nat) (live : Live σ) :
    Option (Except Failure RunResult × Live σ) :=
  match validate document with
  | .error fault => some (.error (.fault fault), live)
  | .ok validated =>
    let w := validated.workflow
    let setting := w.setting host options
    let walk := w.start options (announce validated setting live)
    match walk.advance setting turns with
    | none => none
    | some (.error failure, after) => some (.error failure, after)
    | some (.ok ending, after) =>
      let told := conclude ending live.time setting after
      some (.ok (w.result options live.time ending told), told)

end Workflow

end BrowserFlow
