import BrowserFlow.Document.Checked
import BrowserFlow.Log.Basic
import BrowserFlow.Number.Numeral
import BrowserFlow.Workflow.Basic

/-!
The configuration of the program, read from environment variables. White space
around a value does not count, and a blank value counts as none. All refused
values are reported together.
-/

set_option autoImplicit false
set_option relaxedAutoImplicit false

namespace BrowserFlow

/-- The configuration of the program. -/
structure Configuration where
  /-- Which log entries are shown. -/
  logLevel : Level
  /-- Whether the browser has no window. -/
  headless : Bool
  /-- Where values are stored, and pictures. -/
  storageDir : Text
  /-- Where the directories of runs are made. -/
  runDir : Option Text
  /-- How long steps wait for an element, in seconds. -/
  waitForTimeout : Number
  /-- How long the browser may take to go to an address, in seconds. -/
  navigationTimeout : Number
  /-- The plan of steps that are tried again without one of their own. -/
  retry : RetryPlan

namespace Configuration

open Checked

/-- The words for truth values. -/
def truthWords : List (Text × Bool) :=
  [("true", true), ("false", false), ("1", true), ("0", false), ("yes", true), ("no", false)]

/-- The levels by their names. -/
def levelWords : List (Text × Level) := Level.all.map fun level ↦ (level.name, level)

/-- The variables that say something, without white space around their values. -/
def present (environment : Entries (Option Text)) : Entries Text :=
  environment.filterMap fun (name, value?) ↦
    (value?.map Text.trim).bind fun value ↦ if value.isEmpty then none else some (name, value)

/-- The setting of a variable, or the usual one. -/
def setting {α : Type} (environment : Entries Text) (name : Text) (usual : α)
    (read : Text → Checked α) : Checked α :=
  match Entries.find? environment name with
  | some value => (read value).within (.key name)
  | none => ok usual

/-- A number that a text denotes. -/
def numeral (value : Text) : Checked Number :=
  Checked.number (.number ((Number.ofText? value).getD .nan))

/-- A number above zero. -/
def positive (value : Text) : Checked Number :=
  require (Number.lt 0) (.notAbove 0) (numeral value)

/-- A whole number of attempts. -/
def attempts (value : Text) : Checked Number :=
  require (Number.le 1) (.below 1) (require Number.isInteger .notInteger (numeral value))

/-- A number of seconds. -/
def delay (value : Text) : Checked Number := require (Number.le 0) (.below 0) (numeral value)

/-- The configuration of variables that say something. -/
def checked (environment : Entries Text) : Checked Configuration :=
  (fun logLevel headless storageDir runDir waitForTimeout navigationTimeout maxAttempts pause ↦
      ⟨logLevel, headless, storageDir, runDir, waitForTimeout, navigationTimeout,
        ⟨maxAttempts, pause⟩⟩)
    <$> setting environment "LOG_LEVEL" .info (fun t ↦ word levelWords (.text t))
    <*> setting environment "STEPWISE_HEADLESS" true (fun t ↦ word truthWords (.text t))
    <*> setting environment "STEPWISE_STORAGE_DIR" ("./data" : Text) ok
    <*> setting environment "STEPWISE_RUN_DIR" none (fun t ↦ ok (some t))
    <*> setting environment "STEPWISE_WAIT_FOR_TIMEOUT" 30 positive
    <*> setting environment "STEPWISE_NAVIGATION_TIMEOUT" 30 positive
    <*> setting environment "STEPWISE_RETRY_ATTEMPTS" 3 attempts
    <*> setting environment "STEPWISE_RETRY_DELAY" 1 delay

/-- The configuration of environment variables. -/
def read (environment : Entries (Option Text)) : Except Failure Configuration :=
  let found := checked (present environment)
  match found.value?, found.issues with
  | some configuration, [] => .ok configuration
  | _, issues => .error (.configuration (issues.map Issue.line))

end Configuration

end BrowserFlow
