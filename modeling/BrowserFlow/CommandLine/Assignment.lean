import BrowserFlow.Storage.JsonFiles
import BrowserFlow.Text.Blank
import BrowserFlow.Workflow.Basic

/-!
Variables on the command line: assignments of JSON or plain text to names, and
lists of names between commas.
-/

set_option autoImplicit false
set_option relaxedAutoImplicit false

namespace BrowserFlow

/-- Why an assignment is refused. -/
inductive AssignmentFlaw where
  /-- Nothing stands before an equals sign. -/
  | nameless (assignment : Text)
  /-- What stands before the equals sign is no name. -/
  | badName (name : Text)
  deriving DecidableEq

namespace AssignmentFlaw

/-- The words for a flaw. -/
def message : AssignmentFlaw → Text
  | .nameless assignment => "Expected name=value, got \"" ++ assignment ++ "\""
  | .badName name => "\"" ++ name ++ "\" is not a valid variable name"

end AssignmentFlaw

namespace Assignment

/-- The value of a text: that of the JSON it holds, or the text itself. -/
def value (written : Text) : Value := (Json.readNormal? written).getD (.text written)

/-- An assignment added to variables. -/
def add (bindings : Entries Value) (assignment : Text) : Except AssignmentFlaw (Entries Value) :=
  match Text.breakOn? ['='] assignment.units with
  | none => .error (.nameless assignment)
  | some ([], _) => .error (.nameless assignment)
  | some (before, after) =>
    let name := Text.trim ⟨before⟩
    if name.isName then .ok (bindings.put name (value ⟨after⟩)) else .error (.badName name)

/-- Assignments added one after the other. -/
def addAll (bindings : Entries Value) : List Text → Except AssignmentFlaw (Entries Value)
  | [] => .ok bindings
  | assignment :: rest => do
    let next ← add bindings assignment
    addAll next rest

/-- The names of a list. -/
def nameList (list : Text) : List Text := ((list.splitOn ',').map Text.trim).filter (!·.isEmpty)

end Assignment

end BrowserFlow
