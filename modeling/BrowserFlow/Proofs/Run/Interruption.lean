import BrowserFlow.Proofs.Document.Parts
import BrowserFlow.Proofs.Run.Cancellation
import BrowserFlow.Proofs.Run.Failure
import Mathlib.Data.List.Forall2
import Mathlib.Data.List.TakeWhile

/-!
Runs that are cancelled while they carry out an action. What is still to do then
is the stack of frames behind the action: frames of which nothing is left
(`Frame.isSpent`), and others. If the action has failed and its policy is not to
continue, the run is over and every open step is closed with the error of the
cancellation. If the action has ended the run, it is completed. In every other
case the walk goes on, but only to close what is done: the spent frames on top
are left as usual, and at the first frame with something left the run ends as
cancelled; without such a frame it is completed
(`Walk.exists_ends_of_cancelled`). The frames are those of the steps around the
action, the innermost first (`Walk.Reaches.nested`). Main statement: so ends
every run that is cancelled within an action, and after the outcome of the
action nothing happens but that open steps are closed
(`Workflow.run_interrupted`).
-/

set_option autoImplicit false
set_option relaxedAutoImplicit false

namespace BrowserFlow

variable {σ : Type} {setting : Setting σ}

/-! ### Frames around an action -/

namespace Frame

/-- Whether nothing is left to do of a frame. A loop has to be asked first. -/
def isSpent : Frame → Bool
  | .steps rest _ _ _ => rest.isEmpty
  | .loop _ _ _ => false

/-- The open steps of some frames. -/
def openSteps (stack : List Frame) : List Opened := stack.filterMap owner?

/-- The frames around a list of steps at a site. -/
inductive Nested : Site → List Frame → Prop
  /-- The steps of the workflow are in no other step. -/
  | all {rest : List Step} {index : Nat} : Nested [] [.steps rest [] index none]
  /-- The steps of a branch. -/
  | branch {rest : List Step} {index : Nat} {owner : Opened} {side : Side} {below : List Frame}
      (hbelow : Nested owner.place.site below) :
      Nested (owner.place.list side)
        (.steps rest (owner.place.list side) index (some owner) :: below)
  /-- A loop between two turns of its body. -/
  | loop {owner : Opened} {body : List Step} {cursor : Cursor} {below : List Frame}
      (hbelow : Nested owner.place.site below) :
      Nested (owner.place.list .body) (.loop owner body cursor :: below)
  /-- The steps of the body of a loop. -/
  | turn {rest : List Step} {index : Nat} {owner : Opened} {body : List Step} {cursor : Cursor}
      {below : List Frame}
      (hloop : Nested (owner.place.list .body) (.loop owner body cursor :: below)) :
      Nested (owner.place.list .body)
        (.steps rest (owner.place.list .body) index none :: .loop owner body cursor :: below)

/-- The open steps of nested frames are the steps around their site. -/
theorem Nested.owners {site : Site} {stack : List Frame} (h : Nested site stack) :
    (openSteps stack).map Opened.place = Site.owners site := by
  induction h with
  | all => rfl
  | branch _ ih => exact congrArg _ ih
  | loop _ ih => exact congrArg _ ih
  | turn _ ih => exact ih

section Nested

variable {site found : Site} {rest others : List Step} {index next : Nat} {owner : Option Opened}
  {opened : Opened} {body : List Step} {cursor : Cursor} {below : List Frame}

theorem Nested.site_eq (h : Nested found (.steps rest site index owner :: below)) :
    found = site := by
  cases h <;> rfl

/-- Nested frames stay nested when steps of the topmost list are done. -/
theorem Nested.advance (h : Nested site (.steps rest site index owner :: below)) :
    Nested site (.steps others site next owner :: below) := by
  cases h with
  | all => exact .all
  | branch hbelow => exact .branch hbelow
  | turn hloop => exact .turn hloop

/-- What is behind a list of steps is nothing or nested. -/
theorem Nested.left (h : Nested found (.steps rest site index owner :: below)) :
    below = [] ∨ ∃ outer, Nested outer below := by
  cases h with
  | all => exact .inl rfl
  | branch hbelow => exact .inr ⟨_, hbelow⟩
  | turn hloop => exact .inr ⟨_, hloop⟩

/-- What is behind a loop is nested. -/
theorem Nested.finished (h : Nested found (.loop opened body cursor :: below)) :
    Nested opened.place.site below := by
  cases h with
  | loop hbelow => exact hbelow

end Nested

end Frame

namespace Walk

/-- A walk over nested frames, or at its end. -/
def Nested (walk : Walk σ) : Prop := walk.stack = [] ∨ ∃ site, Frame.Nested site walk.stack

/-- What is still to do stays nested. -/
theorem Restacks.nested {scope : Scope} {before behind : List Frame} {found : Site}
    (h : Restacks scope before behind) (hnested : Frame.Nested found before) :
    behind = [] ∨ ∃ site, Frame.Nested site behind := by
  cases h with
  | @popped frame below =>
    cases frame with
    | steps rest site index owner => exact hnested.left
    | loop owner body cursor => exact .inr ⟨_, hnested.finished⟩
  | passed =>
    obtain rfl := hnested.site_eq
    exact .inr ⟨_, hnested.advance⟩
  | @branched step rest site index owner below side chosen startedAt _ =>
    obtain rfl := hnested.site_eq
    have hbelow : Frame.Nested (Opened.mk step ⟨found, index⟩ startedAt).place.site
        (.steps rest found (index + 1) owner :: below) := hnested.advance
    exact .inr ⟨_, .branch hbelow⟩
  | @looped step rest site index owner below body cursor startedAt _ =>
    obtain rfl := hnested.site_eq
    have hbelow : Frame.Nested (Opened.mk step ⟨found, index⟩ startedAt).place.site
        (.steps rest found (index + 1) owner :: below) := hnested.advance
    exact .inr ⟨_, .loop hbelow⟩
  | turned _ => exact .inr ⟨_, .turn (.loop hnested.finished)⟩

/-- A turn keeps frames nested. -/
theorem Nested.turn {walk next : Walk σ} (hnested : walk.Nested)
    (hturn : walk.turn setting = .going next) : next.Nested := by
  have hrestacks := (moves_turn walk).restacks hturn
  rcases hnested with hempty | ⟨found, hnested⟩
  · rw [hempty] at hrestacks
    cases hrestacks
  · exact hrestacks.nested hnested

theorem Reaches.nested {first walk : Walk σ} (hreaches : Reaches setting first walk)
    (hfirst : first.Nested) : walk.Nested := by
  induction hreaches with
  | start => exact hfirst
  | turn _ hturn ih => exact ih.turn hturn

end Walk

/-! ### Open steps closed -/

/-- The outcome of an open step that is closed. -/
structure Outcome.Closes (status : StepEnding) (error : Option FaultReport) (owner : Opened)
    (outcome : Outcome) : Prop where
  isOf : outcome.IsOf owner.step owner.place
  status : outcome.status = status
  error : outcome.error = error

namespace Live

variable {live middle after : Live σ} {outcome : Outcome} {closed others : List Outcome}

/-- A run in which open steps were closed, and nothing but the aftermath has happened. -/
structure Closes (closed : List Outcome) (live after : Live σ) : Prop where
  outcomes : after.outcomes = live.outcomes ++ closed
  events : ∃ later, after.events = live.events ++ later ∧
    later.filterMap Event.mark? = closed.map .recorded ∧
    ∀ event ∈ later, event.isAftermath = true
  cancelled : live.isCancelled = true → after.isCancelled = true

theorem Closes.trans (hfirst : Closes closed live middle) (hlast : Closes others middle after) :
    Closes (closed ++ others) live after := by
  obtain ⟨first, hfirstEvents, hfirstMarks, hfirstKind⟩ := hfirst.events
  obtain ⟨last, hlastEvents, hlastMarks, hlastKind⟩ := hlast.events
  refine ⟨?_, ⟨first ++ last, ?_, ?_, ?_⟩, hlast.cancelled ∘ hfirst.cancelled⟩
  · rw [hlast.outcomes, hfirst.outcomes, List.append_assoc]
  · rw [hlastEvents, hfirstEvents, List.append_assoc]
  · rw [List.filterMap_append, hfirstMarks, hlastMarks, List.map_append]
  · exact List.forall_mem_append.mpr ⟨hfirstKind, hlastKind⟩

theorem Grows.closes (h : Grows Event.Remark live after) : Closes [] live after := by
  obtain ⟨news, hevents, hremarks⟩ := h.events
  exact ⟨by simp [h.outcomes],
    ⟨news, hevents, filterMap_mark?_of_unmarked fun event hevent ↦ (hremarks event hevent).unmarked,
      fun event hevent ↦ (hremarks event hevent).aftermath⟩, h.cancelled⟩

theorem Records.closes (h : Records Event.Remark outcome live after) :
    Closes [outcome] live after := by
  obtain ⟨before, time, later, hevents, hbefore, hlater⟩ := h.events
  have hmark : Event.mark? (.recorded time outcome) = some (.recorded outcome) := rfl
  refine ⟨h.outcomes, ⟨_, hevents, ?_, ?_⟩, h.cancelled⟩
  · rw [List.filterMap_append, List.filterMap_cons_some hmark,
      filterMap_mark?_of_unmarked fun event hevent ↦ (hbefore event hevent).unmarked,
      filterMap_mark?_of_unmarked fun event hevent ↦ (hlater event hevent).unmarked]
    rfl
  · exact List.forall_mem_append.mpr ⟨fun event h ↦ (hbefore event h).aftermath,
      List.forall_mem_cons.mpr ⟨rfl, fun event h ↦ (hlater event h).aftermath⟩⟩

theorem close_closes (setting : Setting σ) (status : StepEnding) (fault : Option Fault)
    (owner : Opened) (live : Live σ) :
    ∃ outcome, outcome.Closes status (fault.map Fault.info) owner ∧
      Closes [outcome] live (live.close setting status fault owner) :=
  ⟨_, ⟨⟨rfl, rfl, rfl⟩, rfl, rfl⟩, (close_records status fault owner live).closes⟩

/-- All open steps of a stack are closed alike, one after the other. -/
theorem closeAll_closes (setting : Setting σ) (status : StepEnding) (fault : Option Fault)
    (stack : List Frame) (live : Live σ) :
    ∃ closed, List.Forall₂ (Outcome.Closes status (fault.map Fault.info)) (Frame.openSteps stack)
        closed ∧
      Closes closed live (live.closeAll setting status fault stack) := by
  unfold closeAll Frame.openSteps
  generalize stack.filterMap Frame.owner? = owners
  induction owners generalizing live with
  | nil => exact ⟨[], .nil, (Grows.refl live).closes⟩
  | cons owner rest ih =>
    obtain ⟨outcome, hcloses, hclose⟩ := close_closes setting status fault owner live
    obtain ⟨closed, hclosed, hrest⟩ := ih (live.close setting status fault owner)
    exact ⟨outcome :: closed, .cons hcloses hclosed, hclose.trans hrest⟩

/-- An open step that is closed where nothing has gone wrong, if there is one. -/
theorem release_closes (setting : Setting σ) (frame : Frame) (live : Live σ) :
    ∃ closed, List.Forall₂ (Outcome.Closes .success none) (Frame.openSteps [frame]) closed ∧
      Closes closed live (live.release setting frame.owner? .through) := by
  unfold Frame.openSteps
  cases howner : frame.owner? with
  | none => exact ⟨[], by simp [howner], (Grows.refl live).closes⟩
  | some owner =>
    obtain ⟨outcome, hcloses, hclose⟩ := close_closes setting .success none owner live
    exact ⟨[outcome], by simpa [howner] using hcloses, hclose⟩

end Live

/-! ### The way out of a cancelled run -/

/-- How a cancelled run ends with the frames of a stack: the open steps of some are closed as
finished, and those of the others with the fault of the cancellation. -/
structure Division (stack done left : List Frame) (finished dropped : List Outcome)
    (ending : Ending) : Prop where
  frames : done ++ left = stack
  finished : List.Forall₂ (Outcome.Closes .success none) (Frame.openSteps done) finished
  dropped : List.Forall₂ (Outcome.Closes .failed (ending.fault?.map Fault.info))
    (Frame.openSteps left) dropped
  ending : ending = .completed ∧ left = [] ∨ ∃ reason, ending = .cancelled (.cancelled reason)

/-- One more frame is done. -/
theorem Division.cons {frame : Frame} {stack done left : List Frame}
    {closed finished dropped : List Outcome} {ending : Ending}
    (hclosed : List.Forall₂ (Outcome.Closes .success none) (Frame.openSteps [frame]) closed)
    (h : Division stack done left finished dropped ending) :
    Division (frame :: stack) (frame :: done) left (closed ++ finished) dropped ending := by
  have happend : Frame.openSteps (frame :: done) =
      Frame.openSteps [frame] ++ Frame.openSteps done := List.filterMap_append (l := [frame])
  refine ⟨congrArg _ h.frames, ?_, h.dropped, h.ending⟩
  rw [happend]
  exact List.rel_append hclosed h.finished

namespace Walk

/-- A walk that is ended closes all its open steps. -/
theorem progress_closes (setting : Setting σ) (ending : Ending) (walk : Walk σ) :
    ∃ closed after,
      (Passage.atEnd ending).progress setting walk = .ended ending after ∧
      Live.Closes closed walk.live after ∧
      List.Forall₂ (Outcome.Closes (Passage.atEnd ending).stepEnding
        (ending.fault?.map Fault.info)) (Frame.openSteps walk.stack) closed := by
  obtain ⟨closed, hclosed, hcloses⟩ := Live.closeAll_closes setting
    (Passage.atEnd ending).stepEnding ending.fault? walk.stack walk.live
  exact ⟨closed, _, rfl, hcloses, hclosed⟩

theorem ends_of_turn {walk : Walk σ} {ending : Ending} {after : Live σ}
    (h : walk.turn setting = .ended ending after) :
    (Progress.going walk).Ends setting (.ok ending, after) :=
  (ends_iff_turn walk _).mpr ⟨0, by rw [h]; rfl⟩

/-- A cancelled walk ends at the first frame with something left. -/
theorem turn_of_not_isSpent (setting : Setting σ) {live : Live σ} {frame : Frame}
    (hcancelled : live.isCancelled = true) (hleft : frame.isSpent = false) (below : List Frame) :
    ∃ closed after,
      (⟨live, frame :: below⟩ : Walk σ).turn setting = .ended live.cancellation after ∧
      Live.Closes closed live after ∧
      List.Forall₂ (Outcome.Closes .failed (live.cancellation.fault?.map Fault.info))
        (Frame.openSteps (frame :: below)) closed := by
  cases frame with
  | loop owner body cursor =>
    obtain ⟨closed, after, hended, hcloses, hclosed⟩ :=
      progress_closes setting live.cancellation ⟨live, .loop owner body cursor :: below⟩
    refine ⟨closed, after, ?_, hcloses, hclosed⟩
    rw [← hended, ← cancel_eq]
    exact if_pos hcancelled
  | steps rest site index owner =>
    cases rest with
    | nil => cases hleft
    | cons step others =>
      obtain ⟨closed, after, hended, hcloses, hclosed⟩ :=
        progress_closes setting live.cancellation
          ⟨live, .steps others site (index + 1) owner :: below⟩
      refine ⟨closed, after, ?_, hcloses, hclosed⟩
      rw [turn_cons, arrive_of_cancelled hcancelled, hended]

/-- A cancelled walk leaves the spent frames on top as usual. At the first frame with something left
it ends as cancelled, and without such a frame it is completed. -/
theorem exists_ends_of_cancelled (setting : Setting σ) (stack : List Frame) {live : Live σ}
    (hcancelled : live.isCancelled = true) :
    ∃ ending finished dropped after,
      (Progress.going ⟨live, stack⟩).Ends setting (.ok ending, after) ∧
      Live.Closes (finished ++ dropped) live after ∧
      Division stack (stack.takeWhile Frame.isSpent) (stack.dropWhile Frame.isSpent) finished
        dropped ending ∧
      (ending.status = .cancelled ↔ stack.dropWhile Frame.isSpent ≠ []) := by
  induction stack generalizing live with
  | nil =>
    exact ⟨.completed, [], [], live, ends_of_turn rfl, (Live.Grows.refl live).closes,
      ⟨rfl, .nil, .nil, .inl ⟨rfl, rfl⟩⟩, by simp [Ending.status]⟩
  | cons frame below ih =>
    cases hspent : frame.isSpent with
    | false =>
      obtain ⟨closed, after, hturn, hcloses, hclosed⟩ :=
        turn_of_not_isSpent setting hcancelled hspent below
      rw [List.takeWhile_cons_of_neg (by simp [hspent]),
        List.dropWhile_cons_of_neg (by simp [hspent])]
      exact ⟨live.cancellation, [], closed, after, ends_of_turn hturn, hcloses,
        ⟨rfl, .nil, hclosed, .inr ⟨_, rfl⟩⟩, by simp [Live.cancellation, Ending.status]⟩
    | true =>
      obtain ⟨closed, hclosed, hcloses⟩ := live.release_closes setting frame
      obtain ⟨ending, finished, dropped, after, hends, hrest, hdivision, hstatus⟩ :=
        ih (hcloses.cancelled hcancelled)
      rw [List.takeWhile_cons_of_pos hspent, List.dropWhile_cons_of_pos hspent]
      refine ⟨ending, closed ++ finished, dropped, after, (ends_iff_turn _ _).mpr ?_, ?_,
        hdivision.cons hclosed, hstatus⟩
      · cases frame with
        | loop owner body cursor => cases hspent
        | steps rest site index owner =>
          obtain rfl := List.isEmpty_iff.mp hspent
          rw [turn_nil]
          exact hends
      · rw [List.append_assoc]
        exact hcloses.trans hrest

/-- What is left of a cancelled walk behind an action, by how the action has left it. -/
theorem exists_ends_of_passage (setting : Setting σ) (stack : List Frame) (ended : ActionEnd)
    {live : Live σ} (hcancelled : live.isCancelled = true) :
    ∃ ending done left finished dropped after,
      ((ended.passage live).progress setting ⟨live, stack⟩).Ends setting (.ok ending, after) ∧
      Live.Closes (finished ++ dropped) live after ∧
      Division stack done left finished dropped ending ∧
      match ended with
      | .goesOn => done = stack.takeWhile Frame.isSpent ∧
          (ending.status = .cancelled ↔ ∃ frame ∈ stack, frame.isSpent = false)
      | .stops => ending.status = .completed
      | .fails _ => done = [] ∧ ending.status = .cancelled := by
  cases ended with
  | goesOn =>
    obtain ⟨ending, finished, dropped, after, hends, hcloses, hdivision, hstatus⟩ :=
      exists_ends_of_cancelled setting stack hcancelled
    have hleft : stack.dropWhile Frame.isSpent ≠ [] ↔ ∃ frame ∈ stack, frame.isSpent = false := by
      simp [List.dropWhile_eq_nil_iff]
    exact ⟨ending, _, _, finished, dropped, after, hends, hcloses, hdivision, rfl,
      hstatus.trans hleft⟩
  | stops =>
    obtain ⟨finished, after, hended, hcloses, hfinished⟩ :=
      progress_closes setting .completed ⟨live, stack⟩
    exact ⟨.completed, stack, [], finished, [], after, ⟨0, by rw [ActionEnd.passage, hended]; rfl⟩,
      by simpa using hcloses, ⟨List.append_nil stack, hfinished, .nil, .inl ⟨rfl, rfl⟩⟩, rfl⟩
  | fails fault =>
    obtain ⟨dropped, after, hended, hcloses, hdropped⟩ :=
      progress_closes setting live.cancellation ⟨live, stack⟩
    refine ⟨live.cancellation, [], stack, [], dropped, after, ⟨0, ?_⟩, hcloses,
      ⟨rfl, .nil, hdropped, .inr ⟨_, rfl⟩⟩, rfl, rfl⟩
    rw [ActionEnd.passage, if_pos hcancelled, hended]
    rfl

end Walk

/-! ### Runs that are cancelled within an action -/

namespace Live

variable {header : StepHeader} {action : Action} {place : Place} {live before after : Live σ}
  {own : Outcome}

/-- An action behind which the run goes on has failed, or it is not one that ends the run. -/
theorem conclude_goesOn {step : Step} {startedAt : Number} {attempted : Attempted (Option Value)}
    (hgoesOn : (live.conclude setting step place startedAt attempted).1 = .goesOn)
    {earlier : List Outcome}
    (houtcomes : (live.conclude setting step place startedAt attempted).2.outcomes =
      earlier ++ [own]) : own.status = .failed ∨ step.hasResult = true := by
  cases attempted with
  | failed count fault ends =>
    cases ends with
    | true => cases hgoesOn
    | false =>
      have hkept : Records Event.Unmarked _ _
          (live.conclude setting step place startedAt (.failed count fault false)).2 :=
        record_records setting _ (live.bindResult step (some .null)).2
      have hlast := List.append_inj_right' (houtcomes.symm.trans hkept.outcomes) rfl
      obtain rfl := List.singleton_inj.mp hlast
      exact .inl rfl
  | done count value =>
    refine .inr ?_
    by_contra hresult
    unfold conclude at hgoesOn
    dsimp only at hgoesOn
    rw [if_neg hresult] at hgoesOn
    cases hgoesOn

theorem conclude_stops {step : Step} {startedAt : Number} {attempted : Attempted (Option Value)}
    (hstops : (live.conclude setting step place startedAt attempted).1 = .stops) :
    step.hasResult = false := by
  cases attempted with
  | failed count fault ends => cases ends <;> cases hstops
  | done count value =>
    by_contra hresult
    unfold conclude at hstops
    dsimp only at hstops
    rw [if_pos (by simpa using hresult)] at hstops
    cases hstops

/-- A visit of an action in which the run is cancelled: it comes to the action before, and when the
action is carried out it is cancelled. -/
structure Interrupts (setting : Setting σ) (header : StepHeader) (action : Action) (place : Place)
    (before after : Live σ) : Prop where
  goes : before.isCancelled = false
  found : (Step.act header action).approach before.scope = .act header action
  performed : ∃ ended, (before.enter place).perform setting header action place
    (before.opened (.act header action) place).startedAt = some (.ok ended, after)
  cancelled : after.isCancelled = true

/-- Whether a run is cancelled in an action that it comes to. -/
def isInterrupted (setting : Setting σ) (header : StepHeader) (action : Action) (place : Place)
    (live : Live σ) : Bool :=
  match live.isCancelled, (Step.act header action).approach live.scope,
    (live.enter place).perform setting header action place
      (live.opened (.act header action) place).startedAt with
  | false, .act _ _, some (.ok _, after) => after.isCancelled
  | _, _, _ => false

theorem exists_interrupts (h : live.isInterrupted setting header action place = true) :
    ∃ after, Interrupts setting header action place live after := by
  unfold isInterrupted at h
  split at h
  · next hgoes hfound hperform =>
    obtain ⟨rfl, rfl⟩ := Step.act.inj (Step.eq_act_of_approach hfound)
    exact ⟨_, hgoes, hfound, ⟨_, hperform⟩, h⟩
  · cases h

/-- What an action leaves to a walk in which the run is cancelled: its outcome, which tells how the
walk goes on. -/
theorem Interrupts.reports (h : Interrupts setting header action place before after) :
    ∃ ended own, (before.enter place).perform setting header action place
        (before.opened (.act header action) place).startedAt = some (.ok ended, after) ∧
      Records Event.Unmarked own (before.enter place) after ∧
      own.IsOf (.act header action) place ∧
      (ended.passage after).Accords header.policy own ∧
      (ended = .stops → action.isStop = true) ∧
      (ended = .goesOn → own.status ≠ .failed → action.isStop = false) := by
  obtain ⟨ended, hperform⟩ := h.performed
  obtain ⟨own, hrecords, hof, haccords, attempted, middle, hcarried, -⟩ := perform_reports hperform
  obtain ⟨attempted', middle', hcarried', hended, hafter⟩ := perform_cases hperform
  obtain ⟨hattempted, rfl⟩ := Prod.mk.inj (Option.some.inj (hcarried.symm.trans hcarried'))
  obtain rfl := Except.ok.inj hattempted
  obtain rfl := Except.ok.inj hended
  refine ⟨_, own, hperform, hrecords, hof, haccords, ?_, ?_⟩
  · intro hstops
    simpa [Step.hasResult] using conclude_stops hstops
  · intro hgoesOn hstatus
    have hresult := (conclude_goesOn hgoesOn (hafter ▸ hrecords.outcomes)).resolve_left hstatus
    simpa [Step.hasResult] using hresult

end Live

namespace Walk

/-- Whether a walk comes to an action next in which the run is cancelled. -/
def isInterrupted (setting : Setting σ) (walk : Walk σ) : Bool :=
  match walk.stack with
  | .steps (.act header action :: _) site index _ :: _ =>
    walk.live.isInterrupted setting header action ⟨site, index⟩
  | _ => false

theorem exists_interrupts {walk : Walk σ} (h : walk.isInterrupted setting = true) :
    ∃ header action rest site index owner below after,
      walk = ⟨walk.live, .steps (.act header action :: rest) site index owner :: below⟩ ∧
      Live.Interrupts setting header action ⟨site, index⟩ walk.live after := by
  obtain ⟨live, stack⟩ := walk
  unfold isInterrupted at h
  split at h
  · next header action rest site index owner below hstack =>
    obtain ⟨after, hinterrupts⟩ := Live.exists_interrupts h
    exact ⟨header, action, rest, site, index, owner, below, after, congrArg _ hstack, hinterrupts⟩
  · cases h

end Walk

/-- The end of a run that was cancelled within an action. Behind the outcome of the action the steps
of some frames were left as usual, and those of the others were broken off. -/
structure Interruption (header : StepHeader) (action : Action) (place : Place)
    (stack : List Frame) (earlier : List Outcome) (result : RunResult) (after : Live σ)
    (own : Outcome) (done left : List Frame) (finished dropped : List Outcome) : Prop where
  isOf : own.IsOf (.act header action) place
  outcomes : result.outcomes = earlier ++ own :: (finished ++ dropped)
  /-- Nothing happens any more but that open steps are closed: no step is visited, no loop is
  asked, no name is bound and no request is made. -/
  events : ∃ before time later, after.events = before ++ .recorded time own :: later ∧
    later.filterMap Event.mark? = (finished ++ dropped).map .recorded ∧
    ∀ event ∈ later, event.isAftermath = true
  frames : done ++ left = stack
  around : (Frame.openSteps stack).map Opened.place = Site.owners place.site
  finished : List.Forall₂ (Outcome.Closes .success none) (Frame.openSteps done) finished
  dropped : List.Forall₂ (Outcome.Closes .failed result.error) (Frame.openSteps left) dropped
  ending : (result.status = .completed ∧ result.error = none ∧ left = []) ∨
    (result.status = .cancelled ∧ ∃ error, result.error = some error ∧ error.kind = .cancelled)

namespace Workflow

variable {host : Host σ} {options : RunParameters} {document : Datum} {validated : Validated}
  {live before middle after : Live σ} {ending : Ending}

/-- A run ends as its walk does. -/
theorem run_of_ends (hvalid : validate document = .ok validated)
    (hends : (Progress.going (firstWalk validated host options live)).Ends
      (validated.workflow.setting host options) (.ok ending, after)) :
    ∃ turns, run host options document turns live =
      some (closing validated host options live (.atEnd ending) after) := by
  obtain ⟨turns, hadvance⟩ := hends
  have hwalk : (firstWalk validated host options live).advance
      (validated.workflow.setting host options) turns = some (.ok ending, after) := hadvance
  refine ⟨turns, ?_⟩
  rw [run_of_validate hvalid, hwalk]
  rfl

theorem exists_run_of_ends (hvalid : validate document = .ok validated)
    (hends : (Progress.going (firstWalk validated host options live)).Ends
      (validated.workflow.setting host options) (.ok ending, after)) :
    ∃ turns told, run host options document turns live =
        some (.ok (validated.workflow.result options live.time ending told), told) ∧
      Live.Grows Event.Remark after told := by
  obtain ⟨turns, hrun⟩ := run_of_ends hvalid hends
  exact ⟨turns, _, hrun, conclude_grows ending live.time
    (validated.workflow.setting host options) after⟩

/-- What is closed behind the outcome of an action ends the run with it. -/
theorem interruption_of_ends {header : StepHeader} {action : Action} {place : Place}
    {stack done left : List Frame} {own : Outcome} {finished dropped : List Outcome}
    (hvalid : validate document = .ok validated)
    (hends : (Progress.going (firstWalk validated host options live)).Ends
      (validated.workflow.setting host options) (.ok ending, after))
    (hof : own.IsOf (.act header action) place)
    (hrecords : Live.Records Event.Unmarked own (before.enter place) middle)
    (hcloses : Live.Closes (finished ++ dropped) middle after)
    (hdivision : Division stack done left finished dropped ending)
    (haround : (Frame.openSteps stack).map Opened.place = Site.owners place.site) :
    ∃ turns result told, run host options document turns live = some (.ok result, told) ∧
      result.status = ending.status ∧
      Interruption header action place stack before.outcomes result told own done left finished
        dropped := by
  obtain ⟨turns, told, hrun, htold⟩ := exists_run_of_ends hvalid hends
  have hall := hcloses.trans htold.closes
  rw [List.append_nil] at hall
  refine ⟨turns, _, told, hrun, rfl, ⟨hof, ?_, ?_, hdivision.frames, haround, hdivision.finished,
    hdivision.dropped, ?_⟩⟩
  · change told.outcomes = _
    rw [hall.outcomes, hrecords.outcomes, List.append_assoc]
    rfl
  · obtain ⟨first, time, remarks, hown, -, hremarks⟩ := hrecords.events
    obtain ⟨later, hlater, hmarks, haftermath⟩ := hall.events
    refine ⟨(before.enter place).events ++ first, time, remarks ++ later, ?_, ?_, ?_⟩
    · simp [hlater, hown]
    · rw [List.filterMap_append, hmarks, Live.filterMap_mark?_of_unmarked fun event hevent ↦
        (hremarks event hevent).unmarked, List.nil_append]
    · exact List.forall_mem_append.mpr
        ⟨fun event hremark ↦ (hremarks event hremark).aftermath, haftermath⟩
  · rcases hdivision.ending with ⟨rfl, hleft⟩ | ⟨reason, rfl⟩
    · exact .inl ⟨rfl, rfl, hleft⟩
    · exact .inr ⟨rfl, _, rfl, rfl⟩

/-- A run that is cancelled within an action comes to an end. If the action has failed and its
policy is not to continue, all open steps are closed with the error of the cancellation; if it has
ended the run, they are closed as finished. In every other case the spent frames on top are left as
usual, and the run is cancelled exactly when a loop is still open or a list has a step left. -/
theorem run_interrupted {header : StepHeader} {action : Action} {rest : List Step} {site : Site}
    {index : Nat} {owner : Option Opened} {below : List Frame}
    (hvalid : validate document = .ok validated)
    (hreaches : Walk.Reaches (validated.workflow.setting host options)
      (firstWalk validated host options live)
      ⟨before, .steps (.act header action :: rest) site index owner :: below⟩)
    (hinterrupts : Live.Interrupts (validated.workflow.setting host options) header action
      ⟨site, index⟩ before middle) :
    ∃ turns result after own done left finished dropped,
      run host options document turns live = some (.ok result, after) ∧
      Interruption header action ⟨site, index⟩ (.steps rest site (index + 1) owner :: below)
        before.outcomes result after own done left finished dropped ∧
      (own.status = .failed → header.onError ≠ some .continue →
        done = [] ∧ result.status = .cancelled) ∧
      (own.status ≠ .failed → action.isStop = true → result.status = .completed) ∧
      ((own.status = .failed → header.onError = some .continue) →
        (own.status ≠ .failed → action.isStop = false) →
        done = (.steps rest site (index + 1) owner :: below).takeWhile Frame.isSpent ∧
        (result.status = .cancelled ↔
          ∃ frame ∈ .steps rest site (index + 1) owner :: below, frame.isSpent = false)) := by
  obtain ⟨ended, own, hperform, hrecords, hof, haccords, hstops, hgoesOn⟩ := hinterrupts.reports
  have hnested : Walk.Nested
      (⟨before, .steps (.act header action :: rest) site index owner :: below⟩ : Walk σ) :=
    hreaches.nested (.inr ⟨[], .all⟩)
  obtain ⟨found, hframes⟩ := hnested.resolve_left (by simp)
  obtain rfl := hframes.site_eq
  have hbehind : Frame.Nested found (.steps rest found (index + 1) owner :: below) :=
    hframes.advance
  have hturn : (⟨before, .steps (.act header action :: rest) found index owner :: below⟩ :
      Walk σ).turn (validated.workflow.setting host options) =
      (ended.passage middle).progress (validated.workflow.setting host options)
        ⟨middle, .steps rest found (index + 1) owner :: below⟩ := by
    rw [Walk.turn_cons, Walk.arrive_eq hinterrupts.goes, hinterrupts.found, Walk.found, hperform]
  obtain ⟨ending, done, left, finished, dropped, last, hway, hcloses, hdivision, hcase⟩ :=
    Walk.exists_ends_of_passage (validated.workflow.setting host options)
      (.steps rest found (index + 1) owner :: below) ended hinterrupts.cancelled
  have hends := (hreaches.ends_iff _).mpr ((Walk.ends_iff_turn _ _).mpr (hturn ▸ hway))
  obtain ⟨turns, result, after, hrun, hstatus, hinterruption⟩ :=
    interruption_of_ends hvalid hends hof hrecords hcloses hdivision hbehind.owners
  refine ⟨turns, result, after, own, done, left, finished, dropped, hrun, hinterruption, ?_⟩
  rw [hstatus]
  -- The outcome of the action and the policy of its step tell how the action has left the walk.
  have hpolicy := header.policy_eq_continue_iff
  cases ended with
  | goesOn =>
    refine ⟨fun hfailed hends ↦ absurd (hpolicy.mp (haccords hfailed)) hends,
      fun hsucceeded hstop ↦ ?_, fun _ _ ↦ hcase⟩
    simp [hgoesOn rfl hsucceeded] at hstop
  | stops =>
    refine ⟨fun hfailed ↦ absurd hfailed haccords, fun _ _ ↦ hcase, fun _ hgoes ↦ ?_⟩
    simp [hstops rfl] at hgoes
    exact absurd hgoes haccords
  | fails fault =>
    rw [ActionEnd.passage, if_pos hinterrupts.cancelled] at haccords
    exact ⟨fun _ _ ↦ hcase, fun hsucceeded ↦ absurd haccords.1 hsucceeded,
      fun hcontinues ↦ absurd (hpolicy.mpr (hcontinues haccords.1)) haccords.2⟩

/-- A document with a click in a branch in a loop. -/
def branchedClick : Datum :=
  .object [("name", .text "clicks"), ("version", .text "1"), ("steps", .sequence [
    .object [("name", .text "again"), ("action", .text "loop"),
      ("value", .object [("type", .text "repeat"), ("times", .number 2)] []),
      ("steps", .sequence [
        .object [("name", .text "check"), ("action", .text "if"),
          ("value", .object [("left", .number 1), ("operator", .text "equals"),
            ("right", .number 1)] []),
          ("steps", .sequence [
            .object [("name", .text "go"), ("action", .text "click"),
              ("selector", .text "#a")] []])] []])] []])] []

/-- A host that cancels the run at every request. -/
def interrupting : Host Unit where
  reply := fun _ _ _ ↦ (⟨some (.text "stop"), [], some 0, .ok .absent⟩, ())
  rest := fun _ _ ↦ (none, ())
  notice := fun _ _ ↦ (none, ())

/-- The click is cancelled in the first turn of the loop, and the run comes to its end. -/
theorem run_interrupted_branchedClick :
    ∃ turns result after header action place stack earlier own done left finished dropped,
      run interrupting (.standard "clicks") branchedClick turns (idle 0 .quiet ()) =
        some (.ok result, after) ∧
      Interruption header action place stack earlier result after own done left finished
        dropped := by
  have hreached : ((validate branchedClick).toOption.any fun validated ↦
      ((firstWalk validated interrupting (.standard "clicks") (idle 0 .quiet ())).ahead
        (validated.workflow.setting interrupting (.standard "clicks")) 3).any
        (Walk.isInterrupted (validated.workflow.setting interrupting (.standard "clicks")))) =
      true := by decide +kernel
  obtain ⟨validated, hvalid, hwalk⟩ := (Option.any_eq_true _ _).mp hreached
  obtain ⟨walk, hahead, hinterrupted⟩ := (Option.any_eq_true _ _).mp hwalk
  obtain ⟨header, action, rest, site, index, owner, below, middle, hwalk, hinterrupts⟩ :=
    Walk.exists_interrupts hinterrupted
  rw [hwalk] at hahead
  obtain ⟨turns, result, after, own, done, left, finished, dropped, hrun, hinterruption, -⟩ :=
    run_interrupted (validate_of_toOption hvalid) (Walk.reaches_of_ahead hahead) hinterrupts
  exact ⟨turns, result, after, _, _, _, _, _, own, done, left, finished, dropped, hrun,
    hinterruption⟩

/-- A branch that is done is closed as finished, even where the loop around it is broken off: not
every step that is open when a run is cancelled fails with it. -/
theorem run_cancelled_branchedClick :
    ∃ result after earlier call reason later,
      run interrupting (.standard "clicks") branchedClick 9 (idle 0 .quiet ()) =
        some (.ok result, after) ∧
      after.events = earlier ++ .called call :: .aborted reason :: later ∧
      result.status = .cancelled ∧
      result.outcomes.map (fun outcome ↦ (outcome.kind, outcome.status)) =
        [(.click, .success), (.branch, .success), (.loop, .failed)] := by
  have hreturned : (returned? (run interrupting (.standard "clicks") branchedClick 9
      (idle 0 .quiet ()))).map (fun found ↦
        ((found.2.events[5]?.map Event.isCall, found.2.events[6]?.map Event.isAbortion),
          found.1.status, found.1.outcomes.map fun outcome ↦ (outcome.kind, outcome.status))) =
      some ((some true, some true), .cancelled,
        [(.click, .success), (.branch, .success), (.loop, .failed)]) := by decide +kernel
  obtain ⟨⟨result, after⟩, hfound, hshape⟩ := Option.map_eq_some_iff.mp hreturned
  obtain ⟨hevents, hresult⟩ := Prod.mk.inj hshape
  obtain ⟨hfifth, hsixth⟩ := Prod.mk.inj hevents
  obtain ⟨hstatus, houtcomes⟩ := Prod.mk.inj hresult
  obtain ⟨fifth, hfifth, hcall⟩ := Option.map_eq_some_iff.mp hfifth
  obtain ⟨sixth, hsixth, habortion⟩ := Option.map_eq_some_iff.mp hsixth
  obtain ⟨call, rfl⟩ := Event.eq_called_of_isCall hcall
  obtain ⟨reason, rfl⟩ := Event.eq_aborted_of_isAbortion habortion
  obtain ⟨earlier, later, hevents⟩ := Event.exists_eq_append_of_getElem? hfifth hsixth
  exact ⟨result, after, earlier, call, reason, later, eq_some_of_returned? hfound, hevents,
    hstatus, houtcomes⟩

end Workflow

end BrowserFlow
