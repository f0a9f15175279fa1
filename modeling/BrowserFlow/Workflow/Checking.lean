import BrowserFlow.Document.Reading
import BrowserFlow.Workflow.Place
import BrowserFlow.Workflow.ResultKey

/-!
What a document has to satisfy besides its form. The steps are visited in the
order of the document, the steps of a body before those of the other branch.
Issues make a document invalid: templates that cannot be read, retries on steps
that control others, operands written out that no run could use. Warnings do
not: retry settings without effect, and result keys that stand for two things.
-/

set_option autoImplicit false
set_option relaxedAutoImplicit false

namespace BrowserFlow

/-! ### Operands -/

namespace Action

/-- The values of an action that may hold templates, in the order of their reading. -/
def operands : Action → List Value
  | .navigate url => [.text url]
  | .click selector => [.text selector]
  | .hover selector => [.text selector]
  | .type selector (.template source) => [.text selector, .text source]
  | .type selector (.number x) => [.text selector, .number x]
  | .type selector (.bool b) => [.text selector, .bool b]
  | .wait seconds => (seconds.map Amount.toValue).toList
  | .waitFor selector => [.text selector]
  | .extract selector fields =>
    .text selector :: (fields.getD []).map fun (_, spec) ↦ .text spec
  | .getText selector => [.text selector]
  | .getAttribute selector attributeName => [.text selector, .text attributeName]
  | .evaluate script => [.text script]
  | .executeScript script => [.text script]
  | .screenshot path => (path.map Value.text).toList
  | .save path data => .text path :: data.toList
  | .load path => [.text path]
  | .setVariable target value _ => [.text target, value]
  | .setInputFiles selector files => .text selector :: files.paths.map .text
  | .stop reason => (reason.map Value.text).toList

end Action

namespace Iteration

/-- The values of a loop that may hold templates. -/
def operands : Iteration → List Value
  | .whileHolds condition _ => condition.operands
  | .range _ start stop step =>
    start.toValue :: stop.toValue :: (step.map Amount.toValue).toList
  | .forEach _ items => [items]
  | .times count _ => [count.toValue]

end Iteration

namespace Step

/-- The values of a step that may hold templates, those of its guard first. -/
def operands (step : Step) : List Value :=
  ((step.header.guard.map Condition.operands).getD []) ++
    match step with
    | .act _ action => action.operands
    | .branch _ condition _ _ => condition.operands
    | .loop _ spec _ => spec.operands

/-- The templates of a step. -/
def templates (step : Step) : List Text := step.operands.flatMap Value.templates

end Step

namespace Amount

/-- The number that an amount without placeholders denotes; a text that denotes none counts as no
number. -/
def literal? : Amount → Option Number
  | .number x => some x
  | .template source =>
    if Template.hasPlaceholder source then none
    else if source.isBlank then some .nan
    else some ((Number.ofText? source).getD .nan)

end Amount

/-! ### Issues -/

/-- What makes a step invalid. -/
inductive StepFlaw where
  /-- A template that cannot be read. -/
  | template (fault : Fault)
  /-- Retries of a step that controls others. -/
  | retriedControl (kind : ActionKind)
  /-- An operand of a loop that is no finite number. -/
  | operandNotNumber (name : Text)
  /-- A loop that does not move. -/
  | zeroStep
  /-- A number of turns that is no natural number. -/
  | badTimes
  /-- A target that no variable can have as its name. -/
  | badTarget (target : Text)
  /-- A wait of less than no time. -/
  | negativeWait

namespace StepFlaw

/-- A flaw of a step at a path, as a line of a report. -/
def line (path : Text) : StepFlaw → Text
  | .template fault => path ++ ": " ++ fault.message
  | .retriedControl kind =>
    path ++ ": on_error \"retry\" is not allowed on " ++ kind.name ++ " steps"
  | .operandNotNumber name => path ++ ".value." ++ name ++ ": expected a number or template"
  | .zeroStep => path ++ ".value.step: for loop step must not be 0"
  | .badTimes => path ++ ".value.times: expected a non-negative integer"
  | .badTarget target => path ++ ".selector: \"" ++ target ++ "\" is not a valid variable name"
  | .negativeWait => path ++ ".value: wait duration must be a non-negative number"

end StepFlaw

namespace Step

/-- The flaws of the templates of a step. -/
def templateFlaws (step : Step) : List StepFlaw :=
  step.templates.filterMap fun source ↦
    match Template.read source with
    | .ok _ => none
    | .error fault => some (.template fault)

/-- The flaw of an operand that is written out and is no finite number. -/
def operandFlaws (name : Text) (amount : Amount) : List StepFlaw :=
  match amount.literal? with
  | some x => if x.isFinite then [] else [.operandNotNumber name]
  | none => []

/-- The flaws of a loop. -/
def loopFlaws : Iteration → List StepFlaw
  | .range _ start stop step =>
    operandFlaws "start" start ++ operandFlaws "end" stop
      ++ ((step.map (operandFlaws "step")).getD [])
      ++ if ((step.bind Amount.literal?).map Number.isZero).getD false then [.zeroStep] else []
  | .times count _ =>
    match count.literal? with
    | some x => if x.isInteger && Number.le 0 x then [] else [.badTimes]
    | none => []
  | _ => []

/-- The flaw of a retry policy on a step that controls others. -/
def controlFlaws (step : Step) : List StepFlaw :=
  if step.isControl && step.header.onError == some .retry then [.retriedControl step.kind] else []

/-- The flaws of a step by itself. -/
def flaws (step : Step) : List StepFlaw :=
  step.templateFlaws ++ step.controlFlaws ++
    match step with
    | .loop _ spec _ => loopFlaws spec
    | .act _ (.setVariable target _ _) =>
      if !Template.hasPlaceholder target && !target.isName then [.badTarget target] else []
    | .act _ (.wait (some amount)) =>
      match amount.literal? with
      | some x => if Number.le 0 x then [] else [.negativeWait]
      | none => []
    | _ => []

end Step

/-! ### Warnings -/

/-- What is remarkable about a step. -/
inductive StepWarning where
  /-- Retry settings without the policy. -/
  | idleRetry
  /-- A result key that an earlier step has too. -/
  | collision (key : Text) (previous : Place)
  /-- A result key that a declared variable has too. -/
  | shadowing (key : Text)

namespace StepWarning

/-- A warning about a step at a path, as a line of a report. -/
def line (path : Text) : StepWarning → Text
  | .idleRetry => path ++ ": retry settings have no effect without on_error \"retry\""
  | .collision key previous =>
    path ++ ": result key \"" ++ key ++ "\" is also bound by " ++ previous.toText
      ++ "; the later value wins"
  | .shadowing key =>
    path ++ ": result key \"" ++ key ++ "\" shadows workflow variable \"" ++ key ++ "\""

end StepWarning

namespace Step

/-- Whether a step writes the variable that its result key names. -/
def assignsOwnKey : Step → Bool
  | .act header (.setVariable target value append) =>
    target == (Step.act header (.setVariable target value append)).resultKey
  | _ => false

/-- The warning about retry settings. -/
def retryWarnings (step : Step) : List StepWarning :=
  if step.header.retry.isSome && step.header.onError != some .retry then [.idleRetry] else []

/-- The warnings about a result key, given the first step with each earlier key. -/
def keyWarnings (declared : List Text) (earlier : Entries Place) (step : Step) : List StepWarning :=
  if step.hasResult then
    let key := step.resultKey
    let collisions := match Entries.find? earlier key with
      | some previous => [.collision key previous]
      | none => []
    collisions ++ if declared.contains key && !step.assignsOwnKey then [.shadowing key] else []
  else []

/-- The first step with each key, one step further. -/
def noteKey (earlier : Entries Place) (place : Place) (step : Step) : Entries Place :=
  if step.hasResult && (Entries.find? earlier step.resultKey).isNone then
    earlier ++ [(step.resultKey, place)]
  else earlier

end Step

namespace Workflow

/-- The lines of the issues of steps in their places. -/
def issueLines (steps : List (Place × Step)) : List Text :=
  steps.flatMap fun (place, step) ↦ step.flaws.map (StepFlaw.line place.toText)

/-- The lines of the warnings about steps in their places, given the first step with each earlier
key. -/
def warningLines (declared : List Text) (earlier : Entries Place) : List (Place × Step) → List Text
  | [] => []
  | (place, step) :: rest =>
    (step.retryWarnings ++ step.keyWarnings declared earlier).map (StepWarning.line place.toText)
      ++ warningLines declared (step.noteKey earlier place) rest

/-- The names of the declared variables. -/
def declared (w : Workflow) : List Text := Entries.keys (w.bindings.getD [])

/-- A workflow that can be run, and what is remarkable about it. -/
structure Validated where
  /-- The workflow. -/
  workflow : Workflow
  /-- The warnings. -/
  warnings : List Text

/-- The workflow of a document. All issues of form, or else all issues of steps, are reported. -/
def validate (document : Datum) : Except Fault Validated :=
  let read := Document.workflow document
  match read.value?, read.issues with
  | some w, [] =>
    let steps := w.located
    match issueLines steps with
    | [] => .ok ⟨w, warningLines w.declared [] steps⟩
    | issues => .error (.validation issues)
  | _, issues => .error (.validation (issues.map Issue.line))

end Workflow

end BrowserFlow
