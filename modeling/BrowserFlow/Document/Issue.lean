import BrowserFlow.Condition.Basic

/-!
Issues: what is wrong in a document, by cause, and where. The place is the path
of keys and indexes from the root of the document.
-/

set_option autoImplicit false
set_option relaxedAutoImplicit false

namespace BrowserFlow

/-- One step of the path to a place in a document. -/
inductive PathStep where
  /-- A member by its key. -/
  | key (key : Text)
  /-- An item by its index. -/
  | index (n : Nat)
  deriving DecidableEq

/-- What is wrong at a place. -/
inductive Flaw where
  /-- A value of another type; the types are named. -/
  | wrongType (expected received : Text)
  /-- A number with a fraction. -/
  | notInteger
  /-- Another text in the place of one of several. -/
  | notListed (options : List Text) (received : Text)
  /-- No alternative fits. -/
  | noAlternative
  /-- The member that decides between forms names none of them. -/
  | unknownForm (options : List Text)
  /-- Members that the form does not have. -/
  | unknownKeys (keys : List Text)
  /-- An empty text. -/
  | emptyText
  /-- An empty list. -/
  | emptyList
  /-- A number that is not above a bound. -/
  | notAbove (bound : Number)
  /-- A number below a bound. -/
  | below (bound : Number)
  /-- A number above a bound. -/
  | above (bound : Number)
  /-- A comparison of one operand that needs two. -/
  | missingRight (relation : Relation)

namespace Flaw

/-- Texts in single quotes with bars between them. -/
def quotedChoice (options : List Text) : Text :=
  Text.join " | " (options.map fun t ↦ "'" ++ t ++ "'")

/-- The code of a flaw. -/
def code : Flaw → Text
  | .wrongType _ _ => "invalid_type"
  | .notInteger => "invalid_type"
  | .notListed _ _ => "invalid_enum_value"
  | .noAlternative => "invalid_union"
  | .unknownForm _ => "invalid_union_discriminator"
  | .unknownKeys _ => "unrecognized_keys"
  | .emptyText => "too_small"
  | .emptyList => "too_small"
  | .notAbove _ => "too_small"
  | .below _ => "too_small"
  | .above _ => "too_big"
  | .missingRight _ => "custom"

/-- A flaw in words. -/
def message : Flaw → Text
  | .wrongType expected received =>
    if received == "undefined" then "Required"
    else "Expected " ++ expected ++ ", received " ++ received
  | .notInteger => "Expected integer, received float"
  | .notListed options received =>
    "Invalid enum value. Expected " ++ quotedChoice options ++ ", received '" ++ received ++ "'"
  | .noAlternative => "Invalid input"
  | .unknownForm options => "Invalid discriminator value. Expected " ++ quotedChoice options
  | .unknownKeys keys =>
    "Unrecognized key(s) in object: " ++ Text.join ", " (keys.map fun t ↦ "'" ++ t ++ "'")
  | .emptyText => "String must contain at least 1 character(s)"
  | .emptyList => "Array must contain at least 1 element(s)"
  | .notAbove bound => "Number must be greater than " ++ bound.toText
  | .below bound => "Number must be greater than or equal to " ++ bound.toText
  | .above bound => "Number must be less than or equal to " ++ bound.toText
  | .missingRight relation => "Operator \"" ++ relation.name ++ "\" requires a right operand"

end Flaw

/-- A flaw in its place. -/
structure Issue where
  /-- The path to the place. -/
  path : List PathStep
  /-- What is wrong there. -/
  flaw : Flaw

namespace Issue

/-- A path as text: keys behind points, indexes in brackets. -/
def pathText (path : List PathStep) : Text :=
  let written := path.foldl (fun out step ↦
    match step with
    | .index n => out ++ "[" ++ Text.ofNat n ++ "]"
    | .key key => if out.isEmpty then key else out ++ "." ++ key) Text.empty
  if written.isEmpty then "(root)" else written

/-- An issue as a line of a report. -/
def line (issue : Issue) : Text := pathText issue.path ++ ": " ++ issue.flaw.message

end Issue

end BrowserFlow
