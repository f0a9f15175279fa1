import BrowserFlow.Condition.Evaluation
import BrowserFlow.Run.Environment
import BrowserFlow.Workflow.Basic

/-!
Cursors drive loops: asked before every turn, a cursor binds the loop's variable
and tells whether there is a turn. The operands of a counted loop are resolved
when its cursor is opened and never again; only the condition of a conditional
loop is evaluated for every turn.
-/

set_option autoImplicit false
set_option relaxedAutoImplicit false

namespace BrowserFlow

/-- What is left to do of a loop. -/
inductive Course where
  /-- Turns as long as a condition holds. -/
  | whileHolds (condition : Condition) (limit : Option Number)
  /-- Turns for numbers from the next one up or down to the last one. -/
  | range (counter : Option Text) (next stop step : Number)
  /-- Turns for the items that are left. -/
  | sequence (counter : Text) (rest : List Value)

/-- A loop in progress. -/
structure Cursor where
  /-- What is left. -/
  course : Course
  /-- The turns so far. -/
  iterations : Nat

/-- What a cursor answers when it is asked for a turn. -/
structure Turn where
  /-- Whether there is a turn. -/
  goesOn : Bool
  /-- What is bound for the turn. -/
  binding : Option (Text × Value)
  /-- The limit that has ended the loop. -/
  limit : Option Number
  /-- The cursor afterwards. -/
  cursor : Cursor

namespace Turn

/-- An environment with what is bound for a turn. -/
def bind (turn : Turn) (env : Environment) : Environment :=
  match turn.binding with
  | some (name, value) => env.set name (some value)
  | none => env

end Turn

namespace Cursor

/-- The answer that there is no turn. -/
def ended (cursor : Cursor) : Turn := ⟨false, none, none, cursor⟩

/-- The answer that there is a turn, with what is left behind it. -/
def turn (cursor : Cursor) (binding : Option (Text × Value)) (rest : Course) : Turn :=
  ⟨true, binding, none, ⟨rest, cursor.iterations + 1⟩⟩

/-- Whether a limit of turns is reached. -/
def atLimit (cursor : Cursor) (limit : Number) : Bool :=
  Number.le limit (Number.ofNat cursor.iterations)

/-- Whether a number is not past the end, in the direction of the step. -/
def isWithin (next stop step : Number) : Bool :=
  if Number.lt 0 step then Number.le next stop else Number.le stop next

/-- Asks for the next turn. The limit of a conditional loop counts before its condition. -/
def next (cursor : Cursor) (scope : Scope) : Except Fault Turn :=
  match cursor.course with
  | .whileHolds condition limit =>
    match limit.filter cursor.atLimit with
    | some reached => .ok ⟨false, none, some reached, cursor⟩
    | none =>
      match condition.evaluate scope with
      | .error fault => .error fault
      | .ok true => .ok (cursor.turn none cursor.course)
      | .ok false => .ok cursor.ended
  | .range counter next stop step =>
    if isWithin next stop step then
      .ok (cursor.turn (counter.map fun name ↦ (name, .number next))
        (.range counter (next + step) stop step))
    else .ok cursor.ended
  | .sequence counter rest =>
    match rest with
    | [] => .ok cursor.ended
    | item :: others => .ok (cursor.turn (some (counter, item)) (.sequence counter others))

end Cursor

namespace Iteration

/-- What is to do of a loop, its operands resolved from left to right. -/
def course (scope : Scope) : Iteration → Except Fault Course
  | .whileHolds condition limit => .ok (.whileHolds condition limit)
  | .range counter start stop step => do
    let first ← start.resolve scope "for loop start"
    let last ← stop.resolve scope "for loop end"
    let pace ← match step with
      | none => .ok 1
      | some amount => amount.resolve scope "for loop step"
    if pace.isZero then .error (.mismatch .zeroStep) else .ok (.range counter first last pace)
  | .forEach counter items => do
    match ← items.resolve scope with
    | .sequence resolved => .ok (.sequence counter resolved)
    | other => .error (.mismatch (.notASequence other.kind))
  | .times count counter => do
    let turns ← count.resolve scope "repeat times"
    if turns.isInteger && Number.le 0 turns then .ok (.range counter 1 turns 1)
    else .error (.mismatch (.badTimes turns))

/-- The cursor of a loop that has not had a turn. -/
def beginLoop (spec : Iteration) (scope : Scope) : Except Fault Cursor :=
  match spec.course scope with
  | .ok course => .ok ⟨course, 0⟩
  | .error fault => .error fault

end Iteration

end BrowserFlow
