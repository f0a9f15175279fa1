import BrowserFlow.CommandLine.Program

/-!
The program on a real terminal. Its environment variables and the document that
the command line names are read first; what it shows is worked out by `Program`,
and is written at the end. There is no browser here: a run goes as far as
launching one, and says that there is none.
-/

set_option autoImplicit false
set_option relaxedAutoImplicit false

namespace BrowserFlow.Main

/-- The names of the environment variables that the program reads. -/
def variableNames : List String :=
  ["LOG_LEVEL", "STEPWISE_HEADLESS", "STEPWISE_STORAGE_DIR", "STEPWISE_RUN_DIR",
    "STEPWISE_WAIT_FOR_TIMEOUT", "STEPWISE_NAVIGATION_TIMEOUT", "STEPWISE_RETRY_ATTEMPTS",
    "STEPWISE_RETRY_DELAY"]

/-- What launching a browser fails with. -/
def noBrowser : Datum := .failure (.plain none "There is no browser to run the workflow in")

/-- The path of the document that the words of a command line name. -/
def documentOf (words : List Text) : Option Text :=
  match Request.ofWords words with
  | .ok (.validate file) => some file
  | .ok (.run file _) => some file
  | .error _ => none

/-- The text of some bytes, or U+FFFD if they are not well-formed. -/
def textOf (bytes : ByteArray) : Text := (String.fromUTF8? bytes).getD "\ufffd"

/-- The terminal of a program in a directory without a browser. -/
def terminal (home : FilePlace) (environment : Entries (Option Text)) (files : List (Text × Text)) :
    Terminal Unit where
  environment := environment
  disk := .ofFiles home files
  browser := ⟨some noBrowser, none, none⟩
  company := fun _ ↦ .error noBrowser
  runId := "run"

/-- The environment variables that the program reads. -/
def readVariables : IO (Entries (Option Text)) :=
  variableNames.mapM fun name ↦ do
    let value ← IO.getEnv name
    return (Text.ofString name, value.map Text.ofString)

/-- A document under its path, if it can be read. -/
def readDocument (path : Text) : IO (List (Text × Text)) := do
  match ← (IO.FS.readBinFile path.toString).toBaseIO with
  | .ok bytes => return [(path, textOf bytes)]
  | .error _ => return []

end BrowserFlow.Main

open BrowserFlow in
/-- The program. -/
def main (words : List String) : IO UInt32 := do
  let words := words.map Text.ofString
  let directory ← IO.currentDir
  let home := FilePath.resolve [] directory.toString
  let files ← match Main.documentOf words with
    | some path => Main.readDocument path
    | none => pure []
  let terminal := Main.terminal home (← Main.readVariables) files
  match Program.perform terminal words 1 (Workflow.idle 0 .quiet ()) with
  | some performance =>
    IO.print performance.outputText.toString
    IO.eprint performance.complaintText.toString
    return UInt32.ofNat performance.finalCode
  | none => return 1
