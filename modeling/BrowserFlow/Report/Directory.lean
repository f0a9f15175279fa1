import BrowserFlow.Report.Summary
import BrowserFlow.Storage.Disk

/-!
The directory of a run: a file with a line of JSON for every outcome, a file with
the result, and one with the summary. The directory is made before the first
file is written.
-/

set_option autoImplicit false
set_option relaxedAutoImplicit false

namespace BrowserFlow

/-- The directory of a run. -/
structure RunDirectory where
  /-- Its path. -/
  path : Text

namespace RunDirectory

/-- The path of a file in the directory. -/
def file (directory : RunDirectory) (name : Text) : Text := FilePath.join directory.path name

/-- The line about an outcome that is reported at a time. -/
def outcomeLine (now : Number) (outcome : Entries Value) : Text :=
  let stamped : Entries Value := [("timestamp", .text (Moment.ofClock now))]
  Json.write (.mapping (stamped.override outcome)) ++ "\n"

/-- The directory made, with all that lead to it. -/
def ensure (directory : RunDirectory) : Writing Unit := Writing.makeDirectory directory.path

/-- An outcome added to the file of outcomes. -/
def addOutcome (directory : RunDirectory) (now : Number) (outcome : Entries Value) :
    Writing Unit := do
  directory.ensure
  Writing.change fun disk ↦
    disk.append (directory.file "outcomes.jsonl") (outcomeLine now outcome)

/-- Outcomes added one after the other. -/
def addOutcomes (directory : RunDirectory) (now : Number) (outcomes : List (Entries Value)) :
    Writing Unit :=
  outcomes.forM (directory.addOutcome now)

/-- The result written. -/
def addResult (directory : RunDirectory) (result : Value) : Writing Unit := do
  directory.ensure
  Writing.change fun disk ↦
    disk.write (directory.file "result.json") (Json.writeIndented result ++ "\n")

/-- The summary written. -/
def saveSummary (directory : RunDirectory) (summary : Summary) : Writing Unit :=
  Writing.change fun disk ↦ disk.write (directory.file "summary.md") summary.toText

/-- All files of a run written. -/
def saveRun (directory : RunDirectory) (now : Number) (result : RunResult) : Writing Unit := do
  directory.addOutcomes now (result.outcomes.map Outcome.entries)
  directory.addResult result.toValue
  directory.saveSummary result.summary

end RunDirectory

end BrowserFlow
