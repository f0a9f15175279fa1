import BrowserFlow.Condition.Basic
import BrowserFlow.Pattern.Matching
import BrowserFlow.Template.Basic
import BrowserFlow.Value.Equality

/-!
Whether a condition holds in a scope. The operands of a comparison are resolved
from left to right before they are compared. Numbers and texts that denote
numbers compare as numbers, other scalars as text; where operands cannot be
compared there is a fault. All and any stop at the first part that decides.
-/

set_option autoImplicit false
set_option relaxedAutoImplicit false

namespace BrowserFlow

namespace Comparison

/-- A scalar that has an order: its text, and its number if it denotes one. -/
structure Scalar where
  /-- The number, for a number and for a text that denotes a finite one. -/
  number? : Option Number
  /-- The text. -/
  text : Text

/-- A number or a text as an ordered scalar. -/
def scalar? : Value → Option Scalar
  | .number x => some ⟨some x, x.toText⟩
  | .text t => some ⟨Amount.numeral? t, t⟩
  | _ => none

/-- The fault of operands that a relation is not for. -/
def mismatch (relation : Relation) (left right : Value) : Fault :=
  .mismatch (.comparison relation.name left.kind right.kind)

/-- Whether two scalars are equal, as numbers when both are numbers, otherwise as texts. -/
def equalScalars (left right : Scalar) : Bool :=
  match left.number?, right.number? with
  | some x, some y => x.equal y
  | _, _ => left.text == right.text

/-- Whether two values are equal. Null and truth values equal only themselves; sequences compare
with sequences and mappings with mappings. -/
def equal (left right : Value) : Except Fault Bool :=
  match left, right with
  | .bool a, .bool b => .ok (a == b)
  | .null, .null => .ok true
  | .bool _, _ => .ok false
  | _, .bool _ => .ok false
  | .null, _ => .ok false
  | _, .null => .ok false
  | .sequence xs, .sequence ys => .ok (Value.same (.sequence xs) (.sequence ys))
  | .mapping xs, .mapping ys => .ok (Value.same (.mapping xs) (.mapping ys))
  | left, right =>
    match scalar? left, scalar? right with
    | some l, some r => .ok (equalScalars l r)
    | _, _ => .error (mismatch .equals left right)

/-- How two scalars stand to each other: by the difference of their numbers when both are numbers,
which may not have a sign, otherwise by their texts. -/
def orderScalars (left right : Scalar) : Option Ordering :=
  match left.number?, right.number? with
  | some x, some y => Number.compare? (x - y) 0
  | _, _ => some (compare left.text right.text)

/-- How two values stand to each other. -/
def order (relation : Relation) (left right : Value) : Except Fault (Option Ordering) :=
  match scalar? left, scalar? right with
  | some l, some r => .ok (orderScalars l r)
  | _, _ => .error (mismatch relation left right)

/-- Whether a value is in another: a part of a text, an item of a sequence, a key of a mapping. -/
def holds (left right : Value) : Except Fault Bool :=
  match left with
  | .text t =>
    match right with
    | .null => .error (mismatch .contains left right)
    | .sequence _ => .error (mismatch .contains left right)
    | .mapping _ => .error (mismatch .contains left right)
    | scalar => .ok (t.contains scalar.toText)
  | .sequence items => .ok (items.any fun item ↦ item.same right)
  | .mapping entries =>
    match right with
    | .text key => .ok (Entries.has entries key)
    | _ => .error (mismatch .contains left right)
  | _ => .error (mismatch .contains left right)

/-- The texts of two operands that are numbers or texts. -/
def texts (relation : Relation) (left right : Value) : Except Fault (Text × Text) :=
  match scalar? left, scalar? right with
  | some l, some r => .ok (l.text, r.text)
  | _, _ => .error (mismatch relation left right)

/-- Whether a text matches a pattern. -/
def matchesText (left right : Value) : Except Fault Bool := do
  let (subject, source) ← texts .matchesPattern left right
  match Pattern.read? source with
  | some (pattern, _) => .ok (pattern.occursIn subject)
  | none => .error (.mismatch (.pattern source))

/-- Whether a value is there: it can be resolved and is not null. -/
def isThere (scope : Scope) (operand : Value) : Except Fault Bool :=
  match operand.resolve scope with
  | .ok value => .ok !value.isNull
  | .error (.unresolved _) => .ok false
  | .error fault => .error fault

/-- Two resolved values compared. -/
def decide (relation : Relation) (left right : Value) : Except Fault Bool :=
  match relation with
  | .equals => equal left right
  | .notEquals => do .ok !(← equal left right)
  | .lessThan => do .ok ((← order relation left right) == some .lt)
  | .lessThanOrEquals => do
    let o ← order relation left right
    .ok (o == some .lt || o == some .eq)
  | .greaterThan => do .ok ((← order relation left right) == some .gt)
  | .greaterThanOrEquals => do
    let o ← order relation left right
    .ok (o == some .gt || o == some .eq)
  | .contains => holds left right
  | .notContains => do .ok !(← holds left right)
  | .startsWith => do
    let (subject, start) ← texts relation left right
    .ok (subject.startsWith start)
  | .endsWith => do
    let (subject, ending) ← texts relation left right
    .ok (subject.endsWith ending)
  | .matchesPattern => matchesText left right
  | .exists => .ok !left.isNull
  | .notExists => .ok left.isNull

/-- Whether a comparison holds in a scope. -/
def evaluate (scope : Scope) (c : Comparison) : Except Fault Bool :=
  match c.relation with
  | .exists => isThere scope c.left
  | .notExists => do .ok !(← isThere scope c.left)
  | relation => do
    let left ← c.left.resolve scope
    let right ← (c.right.getD .null).resolve scope
    decide relation left right

end Comparison

namespace Condition

mutual

/-- Whether a condition holds in a scope. -/
def evaluate (scope : Scope) : Condition → Except Fault Bool
  | .compare c => c.evaluate scope
  | .all conditions => evaluateAll scope conditions
  | .any conditions => evaluateAny scope conditions
  | .not condition => do .ok !(← evaluate scope condition)

/-- Whether every condition holds; the first that does not decides. -/
def evaluateAll (scope : Scope) : List Condition → Except Fault Bool
  | [] => .ok true
  | condition :: rest => do
    if ← evaluate scope condition then evaluateAll scope rest else .ok false

/-- Whether some condition holds; the first that does decides. -/
def evaluateAny (scope : Scope) : List Condition → Except Fault Bool
  | [] => .ok false
  | condition :: rest => do
    if ← evaluate scope condition then .ok true else evaluateAny scope rest

end

end Condition

end BrowserFlow
