import BrowserFlow.Condition.Basic
import BrowserFlow.Template.Basic

/-!
Workflows: a name, a version, variables, and steps. A step is an action on the
page, on storage or on a variable, or it controls other steps: it takes one of
two branches or repeats its body.
-/

set_option autoImplicit false
set_option relaxedAutoImplicit false

namespace BrowserFlow

/-- What happens when a step fails. -/
inductive Recovery where
  /-- The run ends. -/
  | fail
  /-- The step is tried again, and then the run ends. -/
  | retry
  /-- The run goes on. -/
  | continue
  deriving DecidableEq

/-- How often and after which pauses a step is tried. -/
structure RetryPlan where
  /-- The greatest number of attempts. -/
  maxAttempts : Number
  /-- The pause between attempts, in seconds. -/
  delaySeconds : Number

namespace RetryPlan

/-- The plan of a step that asks for retries without one of its own. -/
def standard : RetryPlan := ⟨3, 1⟩

end RetryPlan

/-- How a loop repeats its body. -/
inductive Iteration where
  /-- As long as a condition holds, possibly not more often than a limit. -/
  | whileHolds (condition : Condition) (maxIterations : Option Number)
  /-- For numbers from one to another. -/
  | range (counter : Text) (start stop : Amount) (step : Option Amount)
  /-- For each item of a value. -/
  | forEach (counter : Text) (items : Value)
  /-- A number of times. -/
  | times (count : Amount) (counter : Option Text)

/-- What is typed into a field: a template or a scalar. -/
inductive Typed where
  /-- A template. -/
  | template (source : Text)
  /-- A number. -/
  | number (x : Number)
  /-- A truth value. -/
  | bool (b : Bool)

/-- Files to upload: one or several. -/
inductive Uploads where
  /-- One path. -/
  | single (path : Text)
  /-- Several paths. -/
  | several (paths : List Text)

namespace Uploads

/-- The paths. -/
def paths : Uploads → List Text
  | .single path => [path]
  | .several paths => paths

end Uploads

/-- An action. Its texts are templates. -/
inductive Action where
  /-- Goes to an address. -/
  | navigate (url : Text)
  /-- Clicks an element. -/
  | click (selector : Text)
  /-- Points at an element. -/
  | hover (selector : Text)
  /-- Types into a field. -/
  | type (selector : Text) (input : Typed)
  /-- Waits for some seconds. -/
  | wait (seconds : Option Amount)
  /-- Waits for an element. -/
  | waitFor (selector : Text)
  /-- Reads records from elements. -/
  | extract (selector : Text) (fields : Option (List (Text × Text)))
  /-- Reads the text of an element. -/
  | getText (selector : Text)
  /-- Reads an attribute of an element. -/
  | getAttribute (selector attributeName : Text)
  /-- Evaluates a script. -/
  | evaluate (script : Text)
  /-- Runs a script as the body of a function. -/
  | executeScript (script : Text)
  /-- Takes a picture of the page. -/
  | screenshot (path : Option Text)
  /-- Stores a value, or the outcomes so far. -/
  | save (path : Text) (data : Option Value)
  /-- Loads a stored value. -/
  | load (path : Text)
  /-- Writes a variable, or appends to the sequence it holds. -/
  | setVariable (target : Text) (value : Value) (append : Option Bool)
  /-- Chooses files to upload. -/
  | setInputFiles (selector : Text) (files : Uploads)
  /-- Ends the run. -/
  | stop (reason : Option Text)

/-- The kinds of steps. -/
inductive ActionKind where
  | navigate | click | hover | type | wait | waitFor | extract | getText | getAttribute | evaluate
  | executeScript | screenshot | save | load | setVariable | setInputFiles | stop | branch | loop
  deriving DecidableEq

namespace ActionKind

/-- The kinds, in the order in which documents list them. -/
def all : List ActionKind :=
  [.navigate, .click, .hover, .type, .wait, .waitFor, .extract, .getText, .getAttribute, .evaluate,
    .executeScript, .screenshot, .save, .load, .setVariable, .setInputFiles, .stop, .branch, .loop]

/-- The name of a kind in documents. -/
def name : ActionKind → Text
  | .navigate => "navigate"
  | .click => "click"
  | .hover => "hover"
  | .type => "type"
  | .wait => "wait"
  | .waitFor => "wait_for"
  | .extract => "extract"
  | .getText => "get_text"
  | .getAttribute => "get_attribute"
  | .evaluate => "evaluate"
  | .executeScript => "execute_script"
  | .screenshot => "screenshot"
  | .save => "save"
  | .load => "load"
  | .setVariable => "set_variable"
  | .setInputFiles => "set_input_files"
  | .stop => "stop"
  | .branch => "if"
  | .loop => "loop"

/-- The kind of a name. -/
def ofName? (t : Text) : Option ActionKind := all.find? (·.name == t)

end ActionKind

namespace Action

/-- The kind of an action. -/
def kind : Action → ActionKind
  | .navigate _ => .navigate
  | .click _ => .click
  | .hover _ => .hover
  | .type _ _ => .type
  | .wait _ => .wait
  | .waitFor _ => .waitFor
  | .extract _ _ => .extract
  | .getText _ => .getText
  | .getAttribute _ _ => .getAttribute
  | .evaluate _ => .evaluate
  | .executeScript _ => .executeScript
  | .screenshot _ => .screenshot
  | .save _ _ => .save
  | .load _ => .load
  | .setVariable _ _ _ => .setVariable
  | .setInputFiles _ _ => .setInputFiles
  | .stop _ => .stop

/-- Whether an action ends the run. -/
def isStop : Action → Bool
  | .stop _ => true
  | _ => false

/-- The selector of an action as the document has it. -/
def selector? : Action → Option Text
  | .click selector => some selector
  | .hover selector => some selector
  | .type selector _ => some selector
  | .waitFor selector => some selector
  | .extract selector _ => some selector
  | .getText selector => some selector
  | .getAttribute selector _ => some selector
  | .setVariable target _ _ => some target
  | .setInputFiles selector _ => some selector
  | _ => none

end Action

/-- What every step has. -/
structure StepHeader where
  /-- The name. -/
  name : Text
  /-- A description. -/
  description : Option Text
  /-- What happens when the step fails. -/
  onError : Option Recovery
  /-- How often the step is tried. -/
  retry : Option RetryPlan
  /-- How many seconds a collaborator may take. -/
  timeout : Option Number
  /-- The guard: the step is skipped when it does not hold. -/
  guard : Option Condition

/-- A step. -/
inductive Step where
  /-- An action. -/
  | act (header : StepHeader) (action : Action)
  /-- A choice between two lists of steps, of which the second may be absent. -/
  | branch (header : StepHeader) (condition : Condition) (steps : List Step)
    (otherwise : Option (List Step))
  /-- A loop over a list of steps. -/
  | loop (header : StepHeader) (spec : Iteration) (steps : List Step)

namespace Step

/-- What every step has. -/
def header : Step → StepHeader
  | .act header _ => header
  | .branch header _ _ _ => header
  | .loop header _ _ => header

/-- The name of a step. -/
def name (step : Step) : Text := step.header.name

/-- The kind of a step. -/
def kind : Step → ActionKind
  | .act _ action => action.kind
  | .branch _ _ _ _ => .branch
  | .loop _ _ _ => .loop

/-- Whether a step controls other steps. -/
def isControl : Step → Bool
  | .act _ _ => false
  | _ => true

/-- Whether the value of a step is bound under its result key. -/
def hasResult : Step → Bool
  | .act _ action => !action.isStop
  | _ => false

/-- The selector of a step as the document has it. -/
def selector? : Step → Option Text
  | .act _ action => action.selector?
  | _ => none

end Step

/-- A workflow. -/
structure Workflow where
  /-- The name. -/
  name : Text
  /-- The version. -/
  version : Text
  /-- A description. -/
  description : Option Text
  /-- The variables and their first values. -/
  bindings : Option (Entries Value)
  /-- The steps. -/
  steps : List Step

end BrowserFlow
