import BrowserFlow.Proofs.Run.Frame

/-!
Loops that are asked for a turn again and again, with anything done to the variables in between.

A counted loop, which is every loop without a condition, resolves its operands when it is begun.
What its cursor answers then depends on the cursor alone, and the cursor behind a turn is one of a
counted loop again (`Cursor.exists_turn`). So however the variables are written between the
questions, the answers are the same, with what is bound for each turn (`Cursor.ask_of_isCounted`,
`Iteration.ask_undisturbed`).
-/

set_option autoImplicit false
set_option relaxedAutoImplicit false

namespace BrowserFlow

namespace Cursor

/-- What a cursor has answered, with the cursor and the environment behind the last answer. -/
structure Answers where
  /-- The answers in order. -/
  turns : List Turn
  /-- The cursor afterwards. -/
  cursor : Cursor
  /-- The environment afterwards. -/
  env : Environment

/-- A cursor asked for a turn once behind each of some writes to the environment. What it binds for
a turn is bound before the next write. -/
def ask : Cursor → Environment → List (Environment → Environment) → Except Fault Answers
  | cursor, env, [] => .ok ⟨[], cursor, env⟩
  | cursor, env, write :: writes =>
    match cursor.next (write env).scope with
    | .error fault => .error fault
    | .ok turn =>
      match ask turn.cursor (turn.bind (write env)) writes with
      | .error fault => .error fault
      | .ok answers => .ok { answers with turns := turn :: answers.turns }

variable {cursor last : Cursor} {env final : Environment} {turn : Turn} {turns : List Turn}
  {write : Environment → Environment} {writes others : List (Environment → Environment)}

theorem ask_cons (hnext : cursor.next (write env).scope = .ok turn)
    (hask : turn.cursor.ask (turn.bind (write env)) writes = .ok ⟨turns, last, final⟩) :
    cursor.ask env (write :: writes) = .ok ⟨turn :: turns, last, final⟩ := by
  rw [ask, hnext]
  dsimp only
  rw [hask]

end Cursor

namespace Course

/-- Whether the turns of a course are settled beforehand: it has no condition. -/
def isCounted : Course → Bool
  | .whileHolds _ _ => false
  | .range _ _ _ _ => true
  | .sequence _ _ => true

end Course

namespace Cursor

variable {cursor : Cursor}

theorem next_of_isWithin {counter : Option Text} {next stop step : Number} {iterations : Nat}
    (h : isWithin next stop step = true) (scope : Scope) :
    Cursor.next ⟨.range counter next stop step, iterations⟩ scope =
      .ok (Cursor.turn ⟨.range counter next stop step, iterations⟩
        (counter.map fun name ↦ (name, .number next))
        (.range counter (next + step) stop step)) := by
  rw [Cursor.next]
  dsimp only
  rw [if_pos h]

theorem next_of_not_isWithin {counter : Option Text} {next stop step : Number} {iterations : Nat}
    (h : ¬isWithin next stop step = true) (scope : Scope) :
    Cursor.next ⟨.range counter next stop step, iterations⟩ scope =
      .ok (ended ⟨.range counter next stop step, iterations⟩) := by
  rw [Cursor.next]
  dsimp only
  rw [if_neg h]

/-- The cursor of a counted loop has one answer, whatever the names are bound to, and it is behind
this answer the cursor of a counted loop. -/
theorem exists_turn (h : cursor.course.isCounted = true) :
    ∃ turn : Turn, (∀ scope, cursor.next scope = .ok turn) ∧
      turn.cursor.course.isCounted = true := by
  obtain ⟨course, iterations⟩ := cursor
  cases course with
  | whileHolds => cases h
  | range counter next stop step =>
    by_cases hwithin : isWithin next stop step = true
    · exact ⟨_, next_of_isWithin hwithin, rfl⟩
    · exact ⟨_, next_of_not_isWithin hwithin, rfl⟩
  | sequence counter rest =>
    cases rest with
    | nil => exact ⟨_, fun scope ↦ rfl, rfl⟩
    | cons item others => exact ⟨_, fun scope ↦ rfl, rfl⟩

/-- The cursor of a counted loop has the same answers to as many questions, in whichever
environments and behind whichever writes it is asked. -/
theorem ask_of_isCounted {writes others : List (Environment → Environment)}
    (hlength : writes.length = others.length) :
    ∀ {cursor : Cursor}, cursor.course.isCounted = true → ∀ first second : Environment,
      ∃ turns last after behind, cursor.ask first writes = .ok ⟨turns, last, after⟩ ∧
        cursor.ask second others = .ok ⟨turns, last, behind⟩ := by
  induction writes generalizing others with
  | nil =>
    intro cursor _ first second
    obtain rfl := List.length_eq_zero_iff.mp hlength.symm
    exact ⟨[], cursor, first, second, rfl, rfl⟩
  | cons write writes ih =>
    intro cursor hcounted first second
    cases others with
    | nil => cases hlength
    | cons other others =>
      obtain ⟨turn, hnext, hbehind⟩ := exists_turn hcounted
      obtain ⟨turns, last, after, behind, hfirst, hsecond⟩ := ih (Nat.succ.inj hlength) hbehind
        (turn.bind (write first)) (turn.bind (other second))
      exact ⟨turn :: turns, last, after, behind, ask_cons (hnext _) hfirst,
        ask_cons (hnext _) hsecond⟩

end Cursor

namespace Iteration

variable {spec : Iteration} {env : Environment} {cursor : Cursor}

/-- Whether a loop is counted: through numbers, through items, or a number of times. -/
def isCounted : Iteration → Bool
  | .whileHolds _ _ => false
  | .range _ _ _ _ => true
  | .forEach _ _ => true
  | .times _ _ => true

theorem isCounted_of_beginLoop {scope : Scope} (h : spec.beginLoop scope = .ok cursor) :
    cursor.course.isCounted = spec.isCounted := by
  rcases course_cases (course_of_beginLoop h) with ⟨_, _, rfl, hcourse⟩ |
    ⟨_, _, _, _, _, _, _, rfl, -, -, -, -, hcourse⟩ | ⟨_, _, _, rfl, -, hcourse⟩ |
    ⟨_, _, _, rfl, -, -, -, hcourse⟩ <;> rw [hcourse] <;> rfl

/-- A counted loop that has begun is not disturbed by its body. Whatever is written to the
environment before the questions, to its variable, to what its operands were resolved from or to
anything else, it has the same turns with the same bindings as when nothing is written. -/
theorem ask_undisturbed (hcounted : spec.isCounted = true)
    (hbegin : spec.beginLoop env.scope = .ok cursor)
    (writes : List (Environment → Environment)) :
    ∃ turns last after undisturbed, cursor.ask env writes = .ok ⟨turns, last, after⟩ ∧
      cursor.ask env (List.replicate writes.length id) = .ok ⟨turns, last, undisturbed⟩ :=
  Cursor.ask_of_isCounted List.length_replicate.symm
    ((isCounted_of_beginLoop hbegin).trans hcounted) env env

/-- An environment with two rows. -/
def twoRows : Environment := .ofValues [("rows", .sequence [.text "a", .text "b"])]

/-- Another row added to those there are. -/
def addRow (env : Environment) : Environment :=
  match env.append "rows" (.text "c") with
  | .ok (_, next) => next
  | .error _ => env

/-- A loop through rows to which its body adds others, and whose body takes its variable away. -/
theorem ask_undisturbed_growingRows :
    isCounted (.forEach "row" (.text "{{rows}}")) = true ∧
    ∃ cursor, beginLoop (.forEach "row" (.text "{{rows}}")) twoRows.scope = .ok cursor ∧
      ∃ turns last after undisturbed,
        cursor.ask twoRows [id, addRow, fun env ↦ addRow (env.set "row" none)] =
          .ok ⟨turns, last, after⟩ ∧
        cursor.ask twoRows [id, id, id] = .ok ⟨turns, last, undisturbed⟩ := by
  have hbegins : (beginLoop (.forEach "row" (.text "{{rows}}")) twoRows.scope).isOk = true := by
    decide +kernel
  obtain ⟨cursor, hbegin⟩ := Except.eq_ok_of_isOk hbegins
  exact ⟨rfl, cursor, hbegin, ask_undisturbed rfl hbegin _⟩

end Iteration

end BrowserFlow
