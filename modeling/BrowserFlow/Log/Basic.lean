import BrowserFlow.Value.Normal

/-!
Log entries and their lines. A line is one JSON object: the time, the level and
the message, with the logger's own entries and then those of the call written
over them. Errors of a call are shown by their names and messages.
-/

set_option autoImplicit false
set_option relaxedAutoImplicit false

namespace BrowserFlow

/-- How much an entry matters. -/
inductive Level where
  | debug | info | warn | error
  deriving DecidableEq

namespace Level

/-- The levels in ascending order. -/
def all : List Level := [.debug, .info, .warn, .error]

/-- The name of a level. -/
def name : Level → Text
  | .debug => "debug"
  | .info => "info"
  | .warn => "warn"
  | .error => "error"

/-- The level of a name. -/
def ofName? (t : Text) : Option Level := all.find? (·.name == t)

/-- The place of a level in the order. -/
def rank : Level → Nat
  | .debug => 0
  | .info => 1
  | .warn => 2
  | .error => 3

/-- Whether entries of a level are shown where a level is asked for. -/
def isShown (asked level : Level) : Bool := asked.rank ≤ level.rank

end Level

namespace Moment

/-- The written moment of a clock that counts milliseconds. -/
def ofClock (now : Number) : Text := (Moment.mk (now.floorInt?.getD 0)).toText

end Moment

/-- An entry of a log. -/
structure LogEntry where
  /-- The time, in milliseconds. -/
  time : Number
  /-- The level. -/
  level : Level
  /-- The message. -/
  message : Text
  /-- What the logger says on all of its entries. -/
  bindings : Entries Datum
  /-- What is said on this entry. -/
  details : Entries Datum

namespace LogEntry

/-- A detail with an error shown by its name and message. -/
def flattened : Datum → Datum
  | .failure failure =>
    .object [("name", .text failure.name), ("message", .text failure.message)] []
  | other => other

/-- The details with their errors shown. -/
def shownDetails (details : Entries Datum) : Entries Datum :=
  details.foldl (fun done (key, detail) ↦ Entries.assign done key (flattened detail)) []

/-- The object that a line shows. -/
def payload (entry : LogEntry) : Datum :=
  let base : Entries Datum := [("timestamp", .text (Moment.ofClock entry.time)),
    ("level", .text entry.level.name), ("message", .text entry.message)]
  .object ((base.override entry.bindings).override (shownDetails entry.details)) []

/-- The line of an entry. -/
def line (entry : LogEntry) : Text := Json.write entry.payload.shown

/-- The line of an entry, if its level is shown. -/
def line? (asked : Level) (entry : LogEntry) : Option Text :=
  if asked.isShown entry.level then some entry.line else none

end LogEntry

end BrowserFlow
