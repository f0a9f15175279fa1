import BrowserFlow.Workflow.Basic

/-!
Workflows written as documents, in the normal form that reading a document gives:
relations by their names, versions as text, and only the members that are there.
-/

set_option autoImplicit false
set_option relaxedAutoImplicit false

namespace BrowserFlow

namespace Comparison

/-- A comparison as a value. -/
def toValue (c : Comparison) : Value :=
  .ofFields [("operator", some (.text c.relation.name)), ("left", some c.left), ("right", c.right)]

end Comparison

namespace Condition

mutual

/-- A condition as a value. -/
def toValue : Condition → Value
  | .compare c => c.toValue
  | .all conditions => .mapping [("all", .sequence (toValues conditions))]
  | .any conditions => .mapping [("any", .sequence (toValues conditions))]
  | .not condition => .mapping [("not", toValue condition)]

/-- Conditions as values. -/
def toValues : List Condition → List Value
  | [] => []
  | condition :: rest => toValue condition :: toValues rest

end

end Condition

namespace Iteration

/-- A loop as a value. -/
def toValue : Iteration → Value
  | .whileHolds condition limit =>
    .ofFields [("type", some (.text "while")), ("condition", some condition.toValue),
      ("max_iterations", limit.map .number)]
  | .range counter start stop step =>
    .ofFields [("type", some (.text "for")), ("variable", some (.text counter)),
      ("start", some start.toValue), ("end", some stop.toValue), ("step", step.map Amount.toValue)]
  | .forEach counter items =>
    .ofFields [("type", some (.text "for_each")), ("variable", some (.text counter)),
      ("items", some items)]
  | .times count counter =>
    .ofFields [("type", some (.text "repeat")), ("times", some count.toValue),
      ("variable", counter.map .text)]

end Iteration

namespace RetryPlan

/-- A retry plan as a value. -/
def toValue (plan : RetryPlan) : Value :=
  .ofFields [("max_attempts", some (.number plan.maxAttempts)),
    ("delay_seconds", some (.number plan.delaySeconds))]

end RetryPlan

namespace Recovery

/-- The name of a policy in documents. -/
def name : Recovery → Text
  | .fail => "fail"
  | .retry => "retry"
  | .continue => "continue"

end Recovery

namespace Typed

/-- What is typed as a value. -/
def toValue : Typed → Value
  | .template source => .text source
  | .number x => .number x
  | .bool b => .bool b

end Typed

namespace Uploads

/-- Files to upload as a value. -/
def toValue : Uploads → Value
  | .single path => .text path
  | .several paths => .sequence (paths.map .text)

end Uploads

namespace Action

/-- The members of an action besides those that every step has. -/
def members : Action → List (Text × Option Value)
  | .navigate url => [("value", some (.text url))]
  | .click selector => [("selector", some (.text selector))]
  | .hover selector => [("selector", some (.text selector))]
  | .type selector input => [("selector", some (.text selector)), ("value", some input.toValue)]
  | .wait seconds => [("value", seconds.map Amount.toValue)]
  | .waitFor selector => [("selector", some (.text selector))]
  | .extract selector fields =>
    [("selector", some (.text selector)),
      ("value", fields.map fun all ↦ .mapping (all.map fun (name, spec) ↦ (name, .text spec)))]
  | .getText selector => [("selector", some (.text selector))]
  | .getAttribute selector attributeName =>
    [("selector", some (.text selector)), ("value", some (.text attributeName))]
  | .evaluate script => [("value", some (.text script))]
  | .executeScript script => [("value", some (.text script))]
  | .screenshot path => [("value", path.map .text)]
  | .save path data => [("value", some (.text path)), ("data", data)]
  | .load path => [("value", some (.text path))]
  | .setVariable target value append =>
    [("selector", some (.text target)), ("value", some value), ("append", append.map .bool)]
  | .setInputFiles selector files =>
    [("selector", some (.text selector)), ("value", some files.toValue)]
  | .stop reason => [("value", reason.map .text)]

end Action

namespace StepHeader

/-- The members that every step has. -/
def members (h : StepHeader) (kind : ActionKind) : List (Text × Option Value) :=
  [("name", some (.text h.name)), ("description", h.description.map .text),
    ("on_error", h.onError.map fun p ↦ .text p.name), ("retry", h.retry.map RetryPlan.toValue),
    ("timeout", h.timeout.map .number), ("condition", h.guard.map Condition.toValue),
    ("action", some (.text kind.name))]

end StepHeader

namespace Step

mutual

/-- A step as a value. -/
def toValue : Step → Value
  | .act header action => .ofFields (header.members action.kind ++ action.members)
  | .branch header condition steps otherwise =>
    let own : List (Text × Option Value) :=
      [("value", some condition.toValue), ("steps", some (.sequence (toValues steps))),
        ("else_steps", otherwiseToValue otherwise)]
    .ofFields (header.members .branch ++ own)
  | .loop header spec steps =>
    let own : List (Text × Option Value) :=
      [("value", some spec.toValue), ("steps", some (.sequence (toValues steps)))]
    .ofFields (header.members .loop ++ own)

/-- Steps as values. -/
def toValues : List Step → List Value
  | [] => []
  | step :: rest => toValue step :: toValues rest

/-- The second branch as a value, if it is there. -/
def otherwiseToValue : Option (List Step) → Option Value
  | none => none
  | some steps => some (.sequence (toValues steps))

end

end Step

namespace Workflow

/-- A workflow as a value. -/
def toValue (w : Workflow) : Value :=
  .ofFields [("name", some (.text w.name)), ("version", some (.text w.version)),
    ("description", w.description.map .text), ("variables", w.bindings.map .mapping),
    ("steps", some (.sequence (Step.toValues w.steps)))]

end Workflow

end BrowserFlow
