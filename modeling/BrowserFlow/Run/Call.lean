import BrowserFlow.Template.Basic
import BrowserFlow.Value.Normal
import BrowserFlow.Workflow.Basic

/-!
Requests to collaborators. An action becomes a task by resolving its templates,
once and before any attempt: a request to the browser or to storage, an
assignment, or the end of the run. What a request is answered with becomes the
value of the step; answers with content are normalised, those of storage are
taken as they are.
-/

set_option autoImplicit false
set_option relaxedAutoImplicit false

namespace BrowserFlow

/-- A request to the browser or to storage. -/
inductive Call where
  /-- Goes to an address. -/
  | navigate (url : Text)
  /-- Clicks an element. -/
  | click (selector : Text)
  /-- Points at an element. -/
  | hover (selector : Text)
  /-- Types into a field. -/
  | type (selector input : Text)
  /-- Waits for some seconds. -/
  | wait (seconds : Number)
  /-- Waits for an element, at most so many seconds. -/
  | waitFor (selector : Text) (seconds : Number)
  /-- Reads records from elements. -/
  | extract (selector : Text) (fields : Option (Entries Text))
  /-- Reads the text of an element. -/
  | getText (selector : Text)
  /-- Reads an attribute of an element. -/
  | getAttribute (selector attributeName : Text)
  /-- Evaluates a script. -/
  | evaluate (script : Text)
  /-- Runs a script as the body of a function. -/
  | executeScript (script : Text)
  /-- Takes a picture of the page. -/
  | screenshot (path : Text)
  /-- Chooses files to upload. -/
  | setInputFiles (selector : Text) (paths : List Text)
  /-- Stores a value. -/
  | save (path : Text) (data : Value)
  /-- Loads a stored value. -/
  | load (path : Text)

namespace Call

/-- The name of the request. -/
def name : Call → Text
  | .navigate _ => "navigate"
  | .click _ => "click"
  | .hover _ => "hover"
  | .type _ _ => "type"
  | .wait _ => "wait"
  | .waitFor _ _ => "waitFor"
  | .extract _ _ => "extract"
  | .getText _ => "getText"
  | .getAttribute _ _ => "getAttribute"
  | .evaluate _ => "evaluate"
  | .executeScript _ => "executeScript"
  | .screenshot _ => "screenshot"
  | .setInputFiles _ _ => "setInputFiles"
  | .save _ _ => "save"
  | .load _ => "load"

/-- The kind of action that makes the request. -/
def kind : Call → ActionKind
  | .navigate _ => .navigate
  | .click _ => .click
  | .hover _ => .hover
  | .type _ _ => .type
  | .wait _ => .wait
  | .waitFor _ _ => .waitFor
  | .extract _ _ => .extract
  | .getText _ => .getText
  | .getAttribute _ _ => .getAttribute
  | .evaluate _ => .evaluate
  | .executeScript _ => .executeScript
  | .screenshot _ => .screenshot
  | .setInputFiles _ _ => .setInputFiles
  | .save _ _ => .save
  | .load _ => .load

/-- Texts as a mapping. -/
def fieldsValue (fields : Entries Text) : Value :=
  .mapping (fields.map fun (key, spec) ↦ (key, .text spec))

/-- The operands of the request, named and in their order. -/
def operands : Call → List (Text × Value)
  | .navigate url => [("url", .text url)]
  | .click selector => [("selector", .text selector)]
  | .hover selector => [("selector", .text selector)]
  | .type selector input => [("selector", .text selector), ("text", .text input)]
  | .wait seconds => [("seconds", .number seconds)]
  | .waitFor selector seconds =>
    [("selector", .text selector), ("timeoutSeconds", .number seconds)]
  | .extract selector fields =>
    Entries.present [("selector", some (.text selector)), ("fields", fields.map fieldsValue)]
  | .getText selector => [("selector", .text selector)]
  | .getAttribute selector attributeName =>
    [("selector", .text selector), ("attribute", .text attributeName)]
  | .evaluate script => [("script", .text script)]
  | .executeScript script => [("script", .text script)]
  | .screenshot path => [("path", .text path)]
  | .setInputFiles selector paths =>
    [("selector", .text selector), ("paths", .sequence (paths.map .text))]
  | .save path data => [("path", .text path), ("data", data)]
  | .load path => [("path", .text path)]

/-- The requests with one text as their operand. -/
def textRequests : List (Text → Call) :=
  [.navigate, .click, .hover, fun selector ↦ .extract selector none, .getText, .evaluate,
    .executeScript, .screenshot, .load]

/-- The requests with a selector and a text as their operands. -/
def inputRequests : List (Text → Text → Call) := [.type, .getAttribute]

/-- The texts of values that are texts. -/
def textsOf (values : List Value) : List Text :=
  values.filterMap fun | .text t => some t | _ => none

/-- The texts of entries that are texts. -/
def fieldsOf (entries : List (Text × Value)) : Entries Text :=
  entries.filterMap fun | (key, .text spec) => some (key, spec) | _ => none

/-- The request with a name and operands. -/
def ofOperands? (name : Text) (operands : List Value) : Option Call :=
  if name = "save" then
    match operands with
    | [.text path, data] => some (.save path data)
    | _ => none
  else
    let found : List Call := match operands with
      | [.text operand] => textRequests.map fun make ↦ make operand
      | [.number seconds] => [.wait seconds]
      | [.text selector, .text input] => inputRequests.map fun make ↦ make selector input
      | [.text selector, .number seconds] => [.waitFor selector seconds]
      | [.text selector, .mapping fields] => [.extract selector (some (fieldsOf fields))]
      | [.text selector, .sequence paths] => [.setInputFiles selector (textsOf paths)]
      | _ => []
    found.find? fun call ↦ call.name == name

/-- The selector that the request works on. -/
def selector? (call : Call) : Option Text :=
  match Entries.find? call.operands "selector" with
  | some (.text selector) => some selector
  | _ => none

theorem textsOf_map (texts : List Text) : textsOf (texts.map .text) = texts := by
  induction texts with
  | nil => rfl
  | cons t rest ih => exact congrArg (t :: ·) ih

theorem fieldsOf_map (fields : Entries Text) :
    fieldsOf (fields.map fun (key, spec) ↦ (key, .text spec)) = fields := by
  induction fields with
  | nil => rfl
  | cons field rest ih => exact congrArg (field :: ·) ih

/-- A request is known by its name and its operands. -/
theorem ofOperands?_operands (call : Call) :
    ofOperands? call.name (call.operands.map Prod.snd) = some call := by
  cases call with
  | extract selector fields =>
    cases fields with
    | none => rfl
    | some fields =>
      simp only [ofOperands?, operands, Entries.present, fieldsValue, fieldsOf_map, Option.map_some,
        List.filterMap_cons, List.filterMap_nil, List.map_cons, List.map_nil]
      rfl
  | setInputFiles selector paths =>
    simp only [ofOperands?, operands, textsOf_map, List.map_cons, List.map_nil]
    rfl
  | _ => rfl

end Call

namespace Datum

mutual

/-- A datum taken as a value as it is; what is no value becomes null. -/
def asValue : Datum → Value
  | .bool b => .bool b
  | .number x => .number x
  | .text t => .text t
  | .integer n => .number (Number.ofInt n)
  | .date (some m) => .text m.toText
  | .sequence items => .sequence (itemsAsValues items)
  | .object own _ => .mapping (entriesAsValues own)
  | _ => .null

/-- Items taken as values. -/
def itemsAsValues : List Datum → List Value
  | [] => []
  | item :: rest => asValue item :: itemsAsValues rest

/-- Entries taken as values. -/
def entriesAsValues : List (Text × Datum) → Entries Value
  | [] => []
  | (key, datum) :: rest => (key, asValue datum) :: entriesAsValues rest

end

/-- A stored datum as it is; nothing at all stays nothing. -/
def stored : Datum → Option Value
  | .absent => none
  | other => some other.asValue

end Datum

namespace Call

/-- The value of a step whose request was answered. -/
def result (call : Call) (answer : Datum) : Except Failure (Option Value) :=
  let content : Except Failure (Option Value) := do .ok (some (← answer.normal))
  match call with
  | .navigate url => .ok (some (.text url))
  | .click _ => .ok (some (.bool true))
  | .hover _ => .ok (some (.bool true))
  | .type _ input => .ok (some (.text input))
  | .wait seconds => .ok (some (.number seconds))
  | .waitFor _ _ => .ok (some (.bool true))
  | .extract _ _ => content
  | .getText _ => content
  | .getAttribute _ _ => content
  | .evaluate _ => content
  | .executeScript _ => content
  | .screenshot path => .ok (some (.text path))
  | .setInputFiles _ _ => .ok (some (.bool true))
  | .save path _ => .ok (some (.text path))
  | .load _ => .ok answer.stored

end Call

/-- An action with its templates resolved. -/
inductive Task where
  /-- A request to a collaborator. -/
  | request (call : Call)
  /-- A value for a variable, or one more item of its sequence. -/
  | assign (name : Text) (value : Value) (append : Bool)
  /-- The end of the run. -/
  | halt (reason : Option Text)

namespace Task

/-- The selector that a task works on. -/
def selector? : Task → Option Text
  | .request call => call.selector?
  | _ => none

end Task

namespace Action

/-- The fields of an extraction with their templates filled in, in order. -/
def resolvedFields (scope : Scope) (done : Entries Text) :
    List (Text × Text) → Except Fault (Entries Text)
  | [] => .ok done
  | (key, spec) :: rest => do
    let resolved ← Template.interpolate scope spec
    resolvedFields scope (done.assign key resolved) rest

/-- Templates filled in, in order. -/
def interpolateAll (scope : Scope) : List Text → Except Fault (List Text)
  | [] => .ok []
  | source :: rest => do
    let first ← Template.interpolate scope source
    .ok (first :: (← interpolateAll scope rest))

/-- How long a wait lasts that does not say so, in seconds. -/
def standardWait : Amount := .number 1

/-- Where a picture goes that does not say so. -/
def standardScreenshot : Text := "screenshot.png"

/-- How long a step waits for an element unless told otherwise, in seconds. -/
def standardWaitForTimeout : Number := 30

/-- The task of an action. A time-out is that of the step or of the program; the recorded outcomes
are what is saved when nothing else is. -/
def task (scope : Scope) (timeout : Number) (recorded : Value) : Action → Except Fault Task
  | .navigate url => do .ok (.request (.navigate (← Template.interpolate scope url)))
  | .click selector => do .ok (.request (.click (← Template.interpolate scope selector)))
  | .hover selector => do .ok (.request (.hover (← Template.interpolate scope selector)))
  | .getText selector => do .ok (.request (.getText (← Template.interpolate scope selector)))
  | .type selector input => do
    let field ← Template.interpolate scope selector
    let words ← match input with
      | .template source => Template.interpolate scope source
      | .number x => .ok x.toText
      | .bool b => .ok (Value.toText (.bool b))
    .ok (.request (.type field words))
  | .wait seconds => do
    let length ← (seconds.getD standardWait).resolve scope "wait duration"
    if Number.lt length 0 then .error (.mismatch (.negativeWait length))
    else .ok (.request (.wait length))
  | .waitFor selector => do
    .ok (.request (.waitFor (← Template.interpolate scope selector) timeout))
  | .extract selector fields => do
    let element ← Template.interpolate scope selector
    match fields with
    | none => .ok (.request (.extract element none))
    | some specs => .ok (.request (.extract element (some (← resolvedFields scope [] specs))))
  | .getAttribute selector attributeName => do
    let element ← Template.interpolate scope selector
    .ok (.request (.getAttribute element (← Template.interpolate scope attributeName)))
  | .evaluate script => do .ok (.request (.evaluate (← Template.interpolate scope script)))
  | .executeScript script => do
    .ok (.request (.executeScript (← Template.interpolate scope script)))
  | .screenshot path => do
    .ok (.request (.screenshot (← Template.interpolate scope (path.getD standardScreenshot))))
  | .save path data => do
    let target ← Template.interpolate scope path
    match data with
    | none => .ok (.request (.save target recorded))
    | some value => .ok (.request (.save target (← value.resolve scope)))
  | .load path => do .ok (.request (.load (← Template.interpolate scope path)))
  | .setVariable target value append => do
    let name ← Template.interpolate scope target
    if name.isName then .ok (.assign name (← value.resolve scope) (append.getD false))
    else .error (.mismatch (.variableName name))
  | .setInputFiles selector files => do
    let element ← Template.interpolate scope selector
    .ok (.request (.setInputFiles element (← interpolateAll scope files.paths)))
  | .stop reason => do
    match reason with
    | none => .ok (.halt none)
    | some source => .ok (.halt (some (← Template.interpolate scope source)))

end Action

end BrowserFlow
