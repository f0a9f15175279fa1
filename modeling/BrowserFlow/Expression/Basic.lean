import BrowserFlow.Fault.Basic

/-!
Expressions: what stands in the placeholder of a template. A literal, a path
from a variable into its value, a negation, or one of five operators between two
expressions. A scope says which variables are bound and to what.
-/

set_option autoImplicit false
set_option relaxedAutoImplicit false

namespace BrowserFlow

/-- What variables are bound to. -/
structure Scope where
  /-- The value of a variable, if it is bound. -/
  find? : Text → Option Value

/-- The scope of a list of entries. -/
def Scope.ofEntries (entries : Entries Value) : Scope := ⟨entries.find?⟩

/-- An arithmetic operator. -/
inductive Operator where
  | plus | minus | times | over | modulo
  deriving DecidableEq

namespace Operator

/-- The mark of an operator. -/
def mark : Operator → CodeUnit
  | .plus => '+'
  | .minus => '-'
  | .times => '*'
  | .over => '/'
  | .modulo => '%'

/-- An operator applied to two numbers. -/
def apply : Operator → Number → Number → Number
  | .plus => Number.add
  | .minus => Number.sub
  | .times => Number.mul
  | .over => Number.div
  | .modulo => Number.rem

end Operator

/-- One step of a path. -/
inductive Segment where
  /-- A member by its name. -/
  | name (key : Text)
  /-- An item by its index, or a member by the digits of a number. -/
  | index (x : Number)
  deriving DecidableEq

namespace Segment

/-- A step as the key of a mapping. -/
def key : Segment → Text
  | .name key => key
  | .index x => x.toText

end Segment

/-- An expression. -/
inductive Expression where
  /-- A value that is written out. -/
  | literal (value : Value)
  /-- A variable and the steps into its value. -/
  | path (root : Text) (segments : List Segment)
  /-- The number with the other sign. -/
  | negate (operand : Expression)
  /-- An operator between two expressions. -/
  | binary (operator : Operator) (left right : Expression)
  deriving Inhabited

end BrowserFlow
