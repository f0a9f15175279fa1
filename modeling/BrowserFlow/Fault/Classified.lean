import BrowserFlow.Text.Fold
import BrowserFlow.Value.Normal

/-!
Faults of collaborators. Whatever a collaborator throws becomes a fault: what is
a fault already stays as it is, what looks like a time-out becomes one, and
anything else is a failed execution. The message says where it happened.
-/

set_option autoImplicit false
set_option relaxedAutoImplicit false

namespace BrowserFlow

/-- Where something was thrown. -/
structure Whereabouts where
  /-- The name of the step. -/
  step : Option Text
  /-- The selector that the step worked on. -/
  selector : Option Text

namespace Whereabouts

/-- What a message says about the place; empty names say nothing. -/
def words (place : Whereabouts) : Text :=
  match place.step.filter (!·.isEmpty), place.selector.filter (!·.isEmpty) with
  | some step, some selector => "[" ++ step ++ " @ " ++ selector ++ "] "
  | some step, none => "[" ++ step ++ "] "
  | none, _ => Text.empty

end Whereabouts

namespace Fault

/-- The words of a message that tell of a time-out. -/
def timeoutWords : List Text := ["timeout", "timed out", "exceeded while waiting"]

/-- The names of errors that are time-outs. -/
def timeoutNames : List Text := ["TimeoutError", "AbortError"]

/-- Whether what was thrown is a time-out, by the name of the error or the words of its message. -/
def looksLikeTimeout (thrown : Datum) (message : Text) : Bool :=
  (match thrown with
    | .failure failure => timeoutNames.contains failure.name
    | _ => false)
  || timeoutWords.any fun words ↦ Text.contains message.fold words

/-- The message of what was thrown. -/
def thrownMessage : Datum → Except Failure Text
  | .failure failure => .ok failure.message
  | .text t => .ok t
  | other => other.spoken

/-- The fault for what a collaborator threw. There is none when it cannot even be named. -/
def classify (place : Whereabouts) (thrown : Datum) : Except Failure Fault :=
  match thrown with
  | .failure (.fault fault) => .ok fault
  | _ => do
    let message ← thrownMessage thrown
    let words := place.words ++ message
    .ok (if looksLikeTimeout thrown message then .timeout words thrown else .execution words thrown)

/-- The fault for what was thrown by something that is being classified for a second time: when it
could not be named, the fault is about that. -/
def ofThrown (place : Whereabouts) (thrown : Datum) : Failure :=
  match classify place thrown with
  | .ok fault => .fault fault
  | .error failure => failure

end Fault

namespace FaultReport

/-- What a report says about anything thrown. -/
def ofThrown : Datum → Except Failure FaultReport
  | .failure (.fault fault) => .ok fault.info
  | thrown => do .ok ⟨.execution, ← Fault.thrownMessage thrown⟩

end FaultReport

end BrowserFlow
