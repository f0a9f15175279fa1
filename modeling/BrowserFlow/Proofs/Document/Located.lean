import BrowserFlow.Proofs.Document.Parts
import BrowserFlow.Workflow.Place

/-!
The parts that the steps of an accepted document were read from. The lists of a
step that was read were read with it (`Document.exists_step_of_list?`), so by
induction on the way down to it every step at a place of an accepted document
was read (`Workflow.exists_step_of_stepAt?`). How a loop repeats its body was
read too (`Workflow.exists_iteration_of_stepAt?`), so that a limit of its turns
is a positive integer (`Workflow.limit_of_stepAt?`); and so is the number of
attempts in a plan (`Workflow.plan_of_stepAt?`).
-/

set_option autoImplicit false
set_option relaxedAutoImplicit false

namespace BrowserFlow

namespace Document

open Checked

variable {d : Datum} {s : Step}

theorem exists_of_sequence {α : Type} {read : Datum → Checked α} {as : List α}
    (h : sequence read d = ok as) : ∀ a ∈ as, ∃ e, read e = ok a := by
  obtain ⟨ds, -, hds⟩ := sequence_eq_ok.mp h
  intro a ha
  have hmem : ok a ∈ ds.map read := hds ▸ List.mem_map_of_mem ha
  obtain ⟨e, -, he⟩ := List.mem_map.mp hmem
  exact ⟨e, he⟩

/-! ### Steps in the lists of a step -/

/-- What a step was read from: an action, a branch with its lists, or a loop with its body. -/
theorem step_cases (h : step d = ok s) :
    (∃ header action, s = .act header action) ∨
    (∃ header condition steps otherwise, s = .branch header condition steps otherwise ∧
      sequence step (d.member "steps") = ok steps ∧
      optional (sequence step) (d.member "else_steps") = ok otherwise) ∨
    (∃ header spec steps, s = .loop header spec steps ∧ iteration (d.member "value") = ok spec ∧
      sequence step (d.member "steps") = ok steps) := by
  cases step_parts h with
  | act => exact .inl ⟨_, _, rfl⟩
  | branch _ _ _ _ hsteps _ hotherwise => exact .inr (.inl ⟨_, _, _, _, rfl, hsteps, hotherwise⟩)
  | loop _ _ _ hspec hsteps => exact .inr (.inr ⟨_, _, _, rfl, hspec, hsteps⟩)

/-- The steps in the lists of a step that was read were read. -/
theorem exists_step_of_list? (h : step d = ok s) {side : Side} {steps : List Step}
    (hlist : s.list? side = some steps) : ∀ inner ∈ steps, ∃ e, step e = ok inner := by
  rcases step_cases h with ⟨_, _, rfl⟩ | ⟨_, _, body, otherwise, rfl, hbody, hotherwise⟩ |
    ⟨_, _, body, rfl, -, hbody⟩
  · cases hlist
  · cases side with
    | body =>
      obtain rfl := Option.some.inj hlist
      exact exists_of_sequence hbody
    | otherwise =>
      rcases optional_eq_ok.mp hotherwise with ⟨-, rfl⟩ | ⟨-, others, hothers, rfl⟩
      · cases hlist
      · obtain rfl := Option.some.inj hlist
        exact exists_of_sequence hothers
  · cases side with
    | body =>
      obtain rfl := Option.some.inj hlist
      exact exists_of_sequence hbody
    | otherwise => cases hlist

/-- All steps below a list of steps that were read were read. -/
theorem exists_step_of_listAt? {steps : List Step} (hsteps : ∀ s ∈ steps, ∃ e, step e = ok s)
    {site : Site} {found : List Step} (hfound : Step.listAt? steps site = some found) :
    ∀ s ∈ found, ∃ e, step e = ok s := by
  induction site generalizing found with
  | nil =>
    obtain rfl := Option.some.inj hfound
    exact hsteps
  | cons way above ih =>
    obtain ⟨owners, howners, hbelow⟩ := Option.bind_eq_some_iff.mp hfound
    obtain ⟨owner, howner, hlist⟩ := Option.bind_eq_some_iff.mp hbelow
    obtain ⟨e, he⟩ := ih howners owner (List.mem_of_getElem? howner)
    exact exists_step_of_list? he hlist

/-! ### Loops -/

/-- What a loop was read from. -/
theorem iteration_cases {spec : Iteration} (h : iteration d = ok spec) :
    (∃ condition limit, spec = .whileHolds condition limit ∧
      optional positiveInteger (d.member "max_iterations") = ok limit) ∨
    (∃ counter start stop pace, spec = .range counter start stop pace ∧
      someText (d.member "variable") = ok counter) ∨
    (∃ counter items, spec = .forEach counter items ∧
      someText (d.member "variable") = ok counter) ∨
    (∃ count counter, spec = .times count counter ∧
      optional someText (d.member "variable") = ok counter) := by
  cases iteration_parts h with
  | whileHolds _ _ _ hlimit => exact .inl ⟨_, _, rfl, hlimit⟩
  | range _ _ hcounter => exact .inr (.inl ⟨_, _, _, _, rfl, hcounter⟩)
  | forEach _ _ hcounter => exact .inr (.inr (.inl ⟨_, _, rfl, hcounter⟩))
  | times _ _ _ hcounter => exact .inr (.inr (.inr ⟨_, _, rfl, hcounter⟩))

theorem ne_nil_of_someText {t : Text} (h : someText d = ok t) : t.isEmpty = false := by
  obtain ⟨-, -, -, hnonempty⟩ := text_eq_ok.mp h
  simpa using hnonempty

end Document

namespace Workflow

variable {document : Datum} {validated : Validated} {place : Place}

/-- Every step of an accepted document was read. -/
theorem exists_step_of_stepAt? (hvalid : validate document = .ok validated) {step : Step}
    (hstep : Step.stepAt? validated.workflow.steps place = some step) :
    ∃ d, Document.step d = .ok step := by
  obtain ⟨hread, -, -⟩ := validate_eq_ok.mp hvalid
  obtain ⟨-, hsteps⟩ := Document.workflow_parts hread
  obtain ⟨found, hfound, hindex⟩ := Option.bind_eq_some_iff.mp hstep
  exact Document.exists_step_of_listAt? (Document.exists_of_sequence hsteps) hfound step
    (List.mem_of_getElem? hindex)

/-- How a loop of an accepted document repeats its body was read. -/
theorem exists_iteration_of_stepAt? (hvalid : validate document = .ok validated)
    {header : StepHeader} {spec : Iteration} {body : List Step}
    (hstep : Step.stepAt? validated.workflow.steps place = some (.loop header spec body)) :
    ∃ d, Document.iteration d = .ok spec := by
  obtain ⟨d, hread⟩ := exists_step_of_stepAt? hvalid hstep
  rcases Document.step_cases hread with ⟨_, _, heq⟩ | ⟨_, _, _, _, heq, -, -⟩ |
    ⟨_, _, _, heq, hspec, -⟩
  · cases heq
  · cases heq
  · obtain ⟨-, rfl, -⟩ := Step.loop.inj heq
    exact ⟨_, hspec⟩

/-- The plan of a step of an accepted document names a positive integer. -/
theorem plan_of_stepAt? (hvalid : validate document = .ok validated) {place : Place} {step : Step}
    (hstep : Step.stepAt? validated.workflow.steps place = some step) {plan : RetryPlan}
    (hplan : step.header.retry = some plan) :
    plan.maxAttempts.isInteger = true ∧ Number.le 1 plan.maxAttempts = true := by
  obtain ⟨d, hread⟩ := exists_step_of_stepAt? hvalid hstep
  have hretry := (Document.header_parts (Document.step_parts hread).header).2
  rw [hplan] at hretry
  rcases Checked.optional_eq_ok.mp hretry with ⟨-, hnone⟩ | ⟨-, found, hfound, hsome⟩
  · cases hnone
  · obtain rfl := Option.some.inj hsome
    simp only [Document.retryPlan, Checked.form_eq_ok, Checked.seq_eq_ok, Checked.map_eq_ok,
      Checked.field_eq_ok] at hfound
    obtain ⟨-, -, _, _, ⟨most, hmost, rfl⟩, -, rfl⟩ := hfound
    obtain ⟨hinteger, hbound⟩ := Checked.require_eq_ok.mp hmost
    exact ⟨(Checked.require_eq_ok.mp hinteger).2, hbound⟩

end Workflow

end BrowserFlow
