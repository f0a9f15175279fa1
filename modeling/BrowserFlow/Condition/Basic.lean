import BrowserFlow.Value.Basic

/-!
Conditions: comparisons of values, joined by all, any and not.
-/

set_option autoImplicit false
set_option relaxedAutoImplicit false

namespace BrowserFlow

/-- How a comparison compares. -/
inductive Relation where
  | equals | notEquals
  | lessThan | lessThanOrEquals | greaterThan | greaterThanOrEquals
  | contains | notContains | startsWith | endsWith | matchesPattern
  | exists | notExists
  deriving DecidableEq

namespace Relation

/-- The relations, in the order in which documents list them. -/
def all : List Relation :=
  [.equals, .notEquals, .lessThan, .lessThanOrEquals, .greaterThan, .greaterThanOrEquals,
    .contains, .notContains, .startsWith, .endsWith, .matchesPattern, .exists, .notExists]

/-- The name of a relation in documents. -/
def name : Relation → Text
  | .equals => "equals"
  | .notEquals => "not_equals"
  | .lessThan => "less_than"
  | .lessThanOrEquals => "less_than_or_equals"
  | .greaterThan => "greater_than"
  | .greaterThanOrEquals => "greater_than_or_equals"
  | .contains => "contains"
  | .notContains => "not_contains"
  | .startsWith => "starts_with"
  | .endsWith => "ends_with"
  | .matchesPattern => "matches"
  | .exists => "exists"
  | .notExists => "not_exists"

/-- The relation of a name. -/
def ofName? (t : Text) : Option Relation := all.find? (·.name == t)

/-- Whether a relation is a property of one operand. -/
def isUnary (r : Relation) : Bool := r == .exists || r == .notExists

end Relation

/-- A comparison. The right operand may be absent. -/
structure Comparison where
  /-- How to compare. -/
  relation : Relation
  /-- The left operand. -/
  left : Value
  /-- The right operand. -/
  right : Option Value

/-- A condition. -/
inductive Condition where
  /-- A comparison. -/
  | compare (comparison : Comparison)
  /-- Every one of some conditions. -/
  | all (conditions : List Condition)
  /-- At least one of some conditions. -/
  | any (conditions : List Condition)
  /-- Not a condition. -/
  | not (condition : Condition)

instance : Inhabited Condition := ⟨.all []⟩

namespace Condition

mutual

/-- The operands of a condition, from left to right. -/
def operands : Condition → List Value
  | .compare c =>
    match c.right with
    | none => [c.left]
    | some right => [c.left, right]
  | .all conditions => operandsOfList conditions
  | .any conditions => operandsOfList conditions
  | .not condition => operands condition

/-- The operands of several conditions. -/
def operandsOfList : List Condition → List Value
  | [] => []
  | condition :: rest => operands condition ++ operandsOfList rest

end

end Condition

end BrowserFlow
