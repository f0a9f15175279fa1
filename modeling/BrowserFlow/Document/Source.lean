import BrowserFlow.Json.Reading
import BrowserFlow.Storage.Disk
import BrowserFlow.Value.Normal
import BrowserFlow.Workflow.Checking
import BrowserFlow.Yaml.Reading

/-!
Documents as text. A document is written in JSON or in YAML, which the name of
its file tells, and a text that cannot be read is a document that is not valid.
-/

set_option autoImplicit false
set_option relaxedAutoImplicit false

namespace BrowserFlow

/-- What a document can be written in. -/
inductive DocumentLanguage where
  | json | yaml
  deriving DecidableEq

namespace DocumentLanguage

/-- The name of a format. -/
def name : DocumentLanguage → Text
  | .json => "JSON"
  | .yaml => "YAML"

/-- The format of a file by the extension of its path, in letters of either case. -/
def ofPath (path : Text) : DocumentLanguage :=
  let extension := (FilePath.extension path).fold
  if extension = ".yaml" ∨ extension = ".yml" then .yaml else .json

/-- A text that is not written in a format. -/
def refusal (format : DocumentLanguage) (source detail : Text) : Failure :=
  .fault (.validation [source ++ ": cannot parse " ++ format.name ++ ": " ++ detail])

/-- The document that a text is. A node that contains itself cannot be worked with. -/
def read (format : DocumentLanguage) (source t : Text) : Except Failure Datum :=
  match format with
  | .json =>
    match Json.read? t with
    | some value => .ok (Datum.ofValue value)
    | none => .error (format.refusal source "unexpected token or end of the text")
  | .yaml =>
    match Yaml.read t with
    | .ok datum => .ok datum
    | .error .endless => .error (.runtime .outOfRange "Maximum call stack size exceeded")
    | .error flaw => .error (format.refusal source flaw.message)

end DocumentLanguage

namespace Workflow

/-- What a document without a file is called. -/
def anonymousSource : Text := "workflow"

/-- The workflow that a text is. -/
def ofText (format : DocumentLanguage) (source t : Text) : Except Failure Validated := do
  (validate (← format.read source t)).mapError .fault

/-- The workflow in a file. -/
def load (path : Text) (disk : Disk) : Except Failure Validated := do
  ofText (.ofPath path) path (← disk.read path)

end Workflow

end BrowserFlow
