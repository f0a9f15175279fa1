import BrowserFlow.Condition.Evaluation
import BrowserFlow.Proofs.Fault.Thrown

/-!
Conditions are evaluated from left to right, and no further than needed.

All of some conditions have the outcome of the first that is not true, and any of some conditions
that of the first that is not false, be it an answer or a fault (`Condition.evaluate_joined`). So
what stands behind a part that decides makes no difference (`Condition.evaluate_joined_behind`), and
conditions that are joined and denied are denied and joined the other way
(`Condition.evaluate_not_joined`). Neither depends on where the conditions stand: a part of a
condition may be replaced by any other with the same outcome, however deep it is
(`Condition.evaluate_fill`).
-/

set_option autoImplicit false
set_option relaxedAutoImplicit false

namespace BrowserFlow

namespace Condition

variable {scope : Scope} {answer : Bool} {first second part : Condition}

/-! ### The outcome that decides -/

/-- The first of some outcomes that is not an answer; this answer if there is none. -/
def firstApart (answer : Bool) : List (Except Fault Bool) → Except Fault Bool
  | [] => .ok answer
  | .ok b :: rest => if b = answer then firstApart answer rest else .ok b
  | .error fault :: _ => .error fault

/-- The outcome of a condition that is denied. -/
def denied (outcome : Except Fault Bool) : Except Fault Bool := outcome.map (!·)

/-- Nothing behind an outcome that is not the answer makes a difference. -/
theorem firstApart_append {outcome : Except Fault Bool} (h : outcome ≠ .ok answer)
    (before after others : List (Except Fault Bool)) :
    firstApart answer (before ++ outcome :: after) =
      firstApart answer (before ++ outcome :: others) := by
  induction before with
  | nil =>
    cases outcome with
    | error fault => rfl
    | ok b =>
      have hb : b ≠ answer := fun heq ↦ h (heq ▸ rfl)
      rw [List.nil_append, List.nil_append, firstApart, firstApart, if_neg hb, if_neg hb]
  | cons head before ih =>
    cases head with
    | error fault => rfl
    | ok b => rw [List.cons_append, List.cons_append, firstApart, firstApart, ih]

theorem firstApart_denied (answer : Bool) (outcomes : List (Except Fault Bool)) :
    firstApart (!answer) (outcomes.map denied) = denied (firstApart answer outcomes) := by
  induction outcomes with
  | nil => rfl
  | cons outcome rest ih =>
    cases outcome with
    | error fault => rfl
    | ok b =>
      rw [List.map_cons, firstApart]
      by_cases hb : b = answer
      · rw [if_pos hb, ← ih, hb]
        exact if_pos rfl
      · rw [if_neg hb]
        exact if_neg fun heq ↦ hb (Bool.not_inj heq)

/-! ### The outcome of joined conditions -/

/-- Conditions joined so that they go on as long as they have an answer: all of them when it is
true, any of them when it is false. -/
def joined (answer : Bool) (conditions : List Condition) : Condition :=
  if answer then .all conditions else .any conditions

/-- Joined conditions have the first outcome that is not the answer with which they go on. -/
theorem evaluate_joined (scope : Scope) (answer : Bool) (conditions : List Condition) :
    evaluate scope (joined answer conditions) =
      firstApart answer (conditions.map (evaluate scope)) := by
  induction conditions with
  | nil => cases answer <;> rfl
  | cons condition rest ih =>
    rw [List.map_cons]
    cases answer with
    | true =>
      change evaluateAll scope rest = _ at ih
      change evaluateAll scope (condition :: rest) = _
      rw [evaluateAll, ih]
      rcases evaluate scope condition with fault | _ | _ <;> rfl
    | false =>
      change evaluateAny scope rest = _ at ih
      change evaluateAny scope (condition :: rest) = _
      rw [evaluateAny, ih]
      rcases evaluate scope condition with fault | _ | _ <;> rfl

theorem evaluate_not (scope : Scope) (condition : Condition) :
    evaluate scope (.not condition) = denied (evaluate scope condition) := by
  rw [evaluate]
  cases evaluate scope condition <;> rfl

/-- Behind a part that does not have the answer, joined conditions make no difference. -/
theorem evaluate_joined_behind (h : evaluate scope part ≠ .ok answer)
    (before after others : List Condition) :
    evaluate scope (joined answer (before ++ part :: after)) =
      evaluate scope (joined answer (before ++ part :: others)) := by
  rw [evaluate_joined, evaluate_joined, List.map_append, List.map_append, List.map_cons,
    List.map_cons]
  exact firstApart_append h _ _ _

/-- Joined conditions that are denied are denied conditions joined the other way. -/
theorem evaluate_not_joined (scope : Scope) (answer : Bool) (conditions : List Condition) :
    evaluate scope (.not (joined answer conditions)) =
      evaluate scope (joined (!answer) (conditions.map .not)) := by
  have hdenied : (conditions.map .not).map (evaluate scope) =
      (conditions.map (evaluate scope)).map denied := by
    rw [List.map_map, List.map_map]
    exact List.map_congr_left fun condition _ ↦ evaluate_not scope condition
  rw [evaluate_not, evaluate_joined, evaluate_joined, hdenied, firstApart_denied]

/-! ### Conditions in other conditions -/

/-- A condition with a place for another one in it. -/
inductive Surroundings where
  /-- The place itself. -/
  | here
  /-- Among conditions that all have to hold. -/
  | all (before : List Condition) (inner : Surroundings) (after : List Condition)
  /-- Among conditions of which one has to hold. -/
  | any (before : List Condition) (inner : Surroundings) (after : List Condition)
  /-- In a condition that is denied. -/
  | not (inner : Surroundings)

/-- The condition with another one in its place. -/
def Surroundings.fill (part : Condition) : Surroundings → Condition
  | .here => part
  | .all before inner after => .all (before ++ inner.fill part :: after)
  | .any before inner after => .any (before ++ inner.fill part :: after)
  | .not inner => .not (inner.fill part)

theorem evaluate_joined_replaced (answer : Bool) (h : evaluate scope first = evaluate scope second)
    (before after : List Condition) :
    evaluate scope (joined answer (before ++ first :: after)) =
      evaluate scope (joined answer (before ++ second :: after)) := by
  rw [evaluate_joined, evaluate_joined, List.map_append, List.map_append, List.map_cons,
    List.map_cons, h]

/-- Conditions with the same outcome can stand for each other. -/
theorem evaluate_fill (surroundings : Surroundings)
    (h : evaluate scope first = evaluate scope second) :
    evaluate scope (surroundings.fill first) = evaluate scope (surroundings.fill second) := by
  induction surroundings with
  | here => exact h
  | all before inner after ih => exact evaluate_joined_replaced true ih before after
  | any before inner after ih => exact evaluate_joined_replaced false ih before after
  | not inner ih => rw [Surroundings.fill, Surroundings.fill, evaluate_not, evaluate_not, ih]

/-- Whether an outcome is an answer or a fault. -/
def IsOrFails (outcome : Except Fault Bool) (answer : Bool) : Prop :=
  outcome = .ok answer ∨ ∃ fault, outcome = .error fault

theorem IsOrFails.ne {outcome : Except Fault Bool} (h : IsOrFails outcome (!answer)) :
    outcome ≠ .ok answer := by
  rintro rfl
  rcases h with h | ⟨fault, h⟩
  · exact (Bool.eq_not_self answer).mp (Except.ok.inj h)
  · cases h

/-- Conditions are evaluated from left to right and no further than needed, wherever they stand.
All conditions have the first outcome that is not true, and any conditions the first that is not
false. So when a part of all conditions is false or fails, or a part of any conditions is true or
fails, the whole of it and of what is around it has the same answer or fault whatever stands behind
this part. All conditions denied stand for any of the denied ones, and any conditions denied for
all of them. -/
theorem evaluate_shortCircuit (scope : Scope) (surroundings : Surroundings)
    (before : List Condition) (part : Condition) (after others conditions : List Condition) :
    evaluate scope (.all conditions) = firstApart true (conditions.map (evaluate scope)) ∧
    evaluate scope (.any conditions) = firstApart false (conditions.map (evaluate scope)) ∧
    (IsOrFails (evaluate scope part) false →
      evaluate scope (surroundings.fill (.all (before ++ part :: after))) =
        evaluate scope (surroundings.fill (.all (before ++ part :: others)))) ∧
    (IsOrFails (evaluate scope part) true →
      evaluate scope (surroundings.fill (.any (before ++ part :: after))) =
        evaluate scope (surroundings.fill (.any (before ++ part :: others)))) ∧
    evaluate scope (surroundings.fill (.not (.all conditions))) =
      evaluate scope (surroundings.fill (.any (conditions.map .not))) ∧
    evaluate scope (surroundings.fill (.not (.any conditions))) =
      evaluate scope (surroundings.fill (.all (conditions.map .not))) := by
  refine ⟨evaluate_joined scope true conditions, evaluate_joined scope false conditions, fun h ↦ ?_,
    fun h ↦ ?_, ?_, ?_⟩
  · have hdecides : evaluate scope part ≠ .ok true := h.ne
    exact evaluate_fill surroundings (evaluate_joined_behind hdecides before after others)
  · have hdecides : evaluate scope part ≠ .ok false := h.ne
    exact evaluate_fill surroundings (evaluate_joined_behind hdecides before after others)
  · exact evaluate_fill surroundings (evaluate_not_joined scope true conditions)
  · exact evaluate_fill surroundings (evaluate_not_joined scope false conditions)

/-- Guards that look at a variable only where it is there: without it, the comparison behind the
first part makes no difference, though it would fail, and neither does it in the denied guards. -/
theorem evaluate_shortCircuit_missing :
    IsOrFails (evaluate (.ofEntries []) (.compare ⟨.exists, .text "{{age}}", none⟩)) false ∧
    evaluate (.ofEntries []) (.not (.all [.compare ⟨.exists, .text "{{age}}", none⟩,
      .compare ⟨.lessThan, .text "{{age}}", some (.number 18)⟩])) =
    evaluate (.ofEntries []) (.not (.all [.compare ⟨.exists, .text "{{age}}", none⟩])) ∧
    IsOrFails (evaluate (.ofEntries []) (.compare ⟨.notExists, .text "{{age}}", none⟩)) true ∧
    evaluate (.ofEntries []) (.not (.any [.compare ⟨.notExists, .text "{{age}}", none⟩,
      .compare ⟨.lessThan, .text "{{age}}", some (.number 18)⟩])) =
    evaluate (.ofEntries []) (.not (.any [.compare ⟨.notExists, .text "{{age}}", none⟩])) := by
  have hthere : IsOrFails (evaluate (.ofEntries [])
      (.compare ⟨.exists, .text "{{age}}", none⟩)) false :=
    .inl (Except.eq_ok_of_toOption (by decide +kernel))
  have hmissing : IsOrFails (evaluate (.ofEntries [])
      (.compare ⟨.notExists, .text "{{age}}", none⟩)) true :=
    .inl (Except.eq_ok_of_toOption (by decide +kernel))
  obtain ⟨-, -, hall, -⟩ := evaluate_shortCircuit (.ofEntries []) (.not .here) [] _
    [.compare ⟨.lessThan, .text "{{age}}", some (.number 18)⟩] [] []
  obtain ⟨-, -, -, hany, -⟩ := evaluate_shortCircuit (.ofEntries []) (.not .here) [] _
    [.compare ⟨.lessThan, .text "{{age}}", some (.number 18)⟩] [] []
  exact ⟨hthere, hall hthere, hmissing, hany hmissing⟩

end Condition

end BrowserFlow
