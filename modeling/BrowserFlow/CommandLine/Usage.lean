import BrowserFlow.CommandLine.Suggestion

/-!
The commands of the program, their switches, and the help about them. Help is
laid out in two columns: what is written, and what it does, broken into lines
between words.
-/

set_option autoImplicit false
set_option relaxedAutoImplicit false

namespace BrowserFlow

/-- A switch of a command. -/
structure Switch where
  /-- Its short form. -/
  short : Option Text
  /-- Its long form. -/
  long : Text
  /-- What its operand is called, if it has one. -/
  operand : Option Text
  /-- What it does. -/
  description : Text
  deriving DecidableEq

namespace Switch

/-- How a switch is written. -/
def term (switch : Switch) : Text :=
  let names := match switch.short with
    | some short => short ++ ", " ++ switch.long
    | none => switch.long
  match switch.operand with
  | some operand => names ++ " <" ++ operand ++ ">"
  | none => names

/-- Whether a word is a switch. -/
def isNamed (switch : Switch) (word : Text) : Bool :=
  switch.long == word || switch.short == some word

/-- Asks for help. -/
def help : Switch := ⟨some "-h", "--help", none, "display help for command"⟩

/-- Asks for the version. -/
def version : Switch := ⟨some "-V", "--version", none, "output the version number"⟩

/-- Sets a variable. -/
def assign : Switch := ⟨none, "--var", some "name=value",
  "override a workflow variable (repeatable; JSON values are parsed)"⟩

/-- Chooses the variables of the result. -/
def exported : Switch := ⟨none, "--export", some "names",
  "comma-separated variables to include in the result"⟩

/-- Sets the directory of storage. -/
def storageDir : Switch := ⟨none, "--storage-dir", some "dir",
  "directory for save/load and screenshots"⟩

/-- Sets the directory of runs. -/
def runDir : Switch := ⟨none, "--run-dir", some "dir",
  "write outcomes.jsonl, result.json and summary.md under this directory"⟩

/-- Asks for a window. -/
def headed : Switch := ⟨none, "--headed", none, "show the browser window"⟩

end Switch

/-- What the program can do. -/
inductive Command where
  /-- Check a document. -/
  | validate
  /-- Run a document. -/
  | run
  deriving DecidableEq

namespace Program

/-- The name of the program. -/
def name : Text := "stepwise"

/-- The version of the program. -/
def version : Text := "0.1.0"

/-- What the program is for. -/
def description : Text := "Run declarative browser workflows"

/-- The word that asks for help. -/
def helpName : Text := "help"

end Program

namespace Command

/-- All commands. -/
def all : List Command := [.validate, .run]

/-- The name of a command. -/
def name : Command → Text
  | .validate => "validate"
  | .run => "run"

/-- The command with a name. -/
def ofName? (word : Text) : Option Command := all.find? fun command ↦ command.name == word

/-- What a command does. -/
def description : Command → Text
  | .validate => "Check a workflow document without running it"
  | .run => "Execute a workflow and stream step events as JSON lines"

/-- What the operand of a command is called. -/
def operandName : Text := "file"

/-- What the operand of a command is. -/
def operandDescription : Text := "workflow document (.json, .yaml or .yml)"

/-- The switches of a command besides that for help. -/
def switches : Command → List Switch
  | .validate => []
  | .run => [.assign, .exported, .storageDir, .runDir, .headed]

/-- How a command is written. -/
def term (command : Command) : Text :=
  command.name ++ (if command.switches.isEmpty then ("" : Text) else " [options]")
    ++ " <" ++ operandName ++ ">"

end Command

/-! ### Help -/

namespace Help

/-- A row: what is written, and what it does. -/
abbrev Row := Text × Text

/-- The columns of a line. -/
def lineLength : Nat := 80

/-- Words put into lines of at most so many columns, behind a line that has begun. -/
def fill (width : Nat) (line : Text) : List Text → List Text
  | [] => [line]
  | word :: rest =>
    if line.length + 1 + word.length ≤ width then fill width (line ++ " " ++ word) rest
    else line :: fill width word rest

/-- The lines of a description. -/
def wrapped (width : Nat) (description : Text) : List Text :=
  match description.splitOn ' ' with
  | [] => []
  | word :: rest => fill width word rest

/-- A row laid out; the first column with the space behind it is so wide. -/
def layRow (indent : Nat) (row : Row) : Text :=
  let margin : Text := Text.repeated (indent + 2) " "
  let lines := wrapped (lineLength - 3 - indent) row.2
  "  " ++ row.1.padEnd indent ' ' ++ Text.join ("\n" ++ margin) lines

/-- A titled list of rows, if there are any. -/
def listing (indent : Nat) (title : Text) (rows : List Row) : List Text :=
  if rows.isEmpty then []
  else [Text.join "\n" ((title ++ ":") :: rows.map (layRow indent))]

/-- Help from its parts, with an empty line between them. -/
def layOut (usage description : Text) (sections : List (Text × List Row)) : Text :=
  let indent := (sections.flatMap fun (_, rows) ↦ rows.map fun row ↦ row.1.length).foldl max 0 + 2
  Text.join "\n\n" (("Usage: " ++ usage) :: description
    :: sections.flatMap fun (title, rows) ↦ listing indent title rows)

/-- The row of a switch. -/
def switchRow (switch : Switch) : Row := (switch.term, switch.description)

/-- Help about the program. -/
def ofProgram : Text :=
  layOut (Program.name ++ " [options] [command]") Program.description [
    ("Options", [switchRow .version, switchRow .help]),
    ("Commands", Command.all.map (fun command ↦ (command.term, command.description))
      ++ [(Program.helpName ++ " [command]", Switch.help.description)])]

/-- Help about a command. -/
def ofCommand (command : Command) : Text :=
  layOut (Program.name ++ " " ++ command.name ++ " [options] <" ++ Command.operandName ++ ">")
    command.description [
      ("Arguments", [(Command.operandName, Command.operandDescription)]),
      ("Options", (command.switches ++ [Switch.help]).map switchRow)]

end Help

end BrowserFlow
