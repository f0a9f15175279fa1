import BrowserFlow.Expression.Token

/-!
The value of an expression in a scope. Operands are evaluated from left to right
and the first fault counts. A path is followed step by step; the fault of a step
that cannot be taken names the path up to and including that step.
-/

set_option autoImplicit false
set_option relaxedAutoImplicit false

namespace BrowserFlow

namespace Segment

/-- A step as it is written behind a path: names behind a point, the rest in brackets. -/
def written : Segment → Text
  | .index x => "[" ++ x.toText ++ "]"
  | .name key => if key.isName then "." ++ key else "[" ++ Json.quote key ++ "]"

/-- The length that a step asks for, if it asks for one. -/
def asksLength : Segment → Bool
  | .name key => key == "length"
  | .index _ => false

/-- The place in a sequence that a step asks for. -/
def place? : Segment → Option Nat
  | .name _ => none
  | .index x =>
    match x.toInt? with
    | some n => if 0 ≤ n then some n.toNat else none
    | none => none

/-- What a step reads of a value; the fault names the path with the step. -/
def read (target : Value) (segment : Segment) (reference : Text) : Except Fault Value :=
  match target with
  | .null => .error (.unresolved reference)
  | .sequence items =>
    if segment.asksLength then .ok (.number (Number.ofCount items.length))
    else
      match segment.place?.bind (items[·]?) with
      | some item => .ok item
      | none => .error (.unresolved reference)
  | .mapping entries =>
    match Entries.find? entries segment.key with
    | some value => .ok value
    | none => .error (.unresolved reference)
  | .text t =>
    if segment.asksLength then .ok (.number (Number.ofCount t.length))
    else .error (.mismatch (.unreadable segment.key target.kind reference))
  | _ => .error (.mismatch (.unreadable segment.key target.kind reference))

end Segment

namespace Expression

/-- The value at the end of a path, the written path so far being known. -/
def follow (target : Value) (reference : Text) : List Segment → Except Fault Value
  | [] => .ok target
  | segment :: rest =>
    let longer := reference ++ segment.written
    match segment.read target longer with
    | .error fault => .error fault
    | .ok next => follow next longer rest

/-- The text that a value adds to another text: texts and numbers do. -/
def joinable? : Value → Option Text
  | .text t => some t
  | .number x => some x.toText
  | _ => none

/-- The text of two operands put together, when one is a text and both can be joined. -/
def joined? (left right : Value) : Option Text :=
  match left, right with
  | .text _, _ => do some ((← joinable? left) ++ (← joinable? right))
  | _, .text _ => do some ((← joinable? left) ++ (← joinable? right))
  | _, _ => none

/-- An operator between two numbers; the result is finite. -/
def calculate (operator : Operator) (left right : Number) : Except Fault Value :=
  if (operator = .over ∨ operator = .modulo) ∧ right.isZero then .error (.mismatch .divisionByZero)
  else
    let result := operator.apply left right
    if result.isFinite then .ok (.number result)
    else .error (.mismatch (.notFinite left ⟨[operator.mark]⟩ right))

/-- An operator between two values. -/
def combine (operator : Operator) (left right : Value) : Except Fault Value :=
  match if operator = .plus then joined? left right else none with
  | some t => .ok (.text t)
  | none =>
    match left, right with
    | .number x, .number y => calculate operator x y
    | _, _ => .error (.mismatch (.operands ⟨[operator.mark]⟩ left.kind right.kind))

/-- The value of an expression. -/
def evaluate (scope : Scope) : Expression → Except Fault Value
  | .literal value => .ok value
  | .path root segments =>
    match scope.find? root with
    | some value => follow value root segments
    | none => .error (.unresolved root)
  | .negate operand => do
    match ← evaluate scope operand with
    | .number x => .ok (.number x.neg)
    | other => .error (.mismatch (.negation other.kind))
  | .binary operator left right => do
    let l ← evaluate scope left
    let r ← evaluate scope right
    combine operator l r

end Expression

end BrowserFlow
