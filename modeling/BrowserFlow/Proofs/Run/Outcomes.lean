import BrowserFlow.Proofs.Document.Located
import BrowserFlow.Proofs.Run.Courses
import BrowserFlow.Proofs.Run.Reporting
import BrowserFlow.Proofs.Run.Stopping
import BrowserFlow.Proofs.Workflow.Paths

/-!
Outcomes are well formed. An outcome is recorded for a step that is passed over, that
stumbles, that is carried out, or that is closed behind its body, and in each of these
cases it fits the step (`Outcome.Fits`): its status, the number of its attempts, its
error and its result key belong together. The steps of a checked document are without
flaws, so an action fails before its first attempt only by its guard or by what a
template of its own stands for (`Step.Raises.failsUntried`). Main statement: in every
run, whether or not it ever ends, each outcome fits the step that the document has at
its path (`Workflow.run_outcomes`).
-/

set_option autoImplicit false
set_option relaxedAutoImplicit false

namespace BrowserFlow

variable {σ : Type} {setting : Setting σ}

/-! ### Failures before the first attempt -/

/-- A text without placeholders stands for the finite number that it denotes. -/
theorem Amount.numeral?_of_resolve {scope : Scope} {label source : Text} {y : Number}
    (hplain : ¬Template.hasPlaceholder source = true)
    (hresolve : resolve scope label (.template source) = .ok y) : numeral? source = some y := by
  have hread : Template.resolve scope source = .ok (.text source) := if_neg hplain
  rw [resolve, hread] at hresolve
  simp only [bind, Except.bind] at hresolve
  split at hresolve
  · next hfound =>
    rw [hfound, Except.ok.inj hresolve]
  · cases hresolve

/-- An amount without placeholders stands for the number that checking finds in it. -/
theorem Amount.eq_of_literal? {scope : Scope} {label : Text} {amount : Amount} {x y : Number}
    (hliteral : amount.literal? = some x) (hresolve : amount.resolve scope label = .ok y) :
    y = x := by
  cases amount with
  | number z => exact (Except.ok.inj hresolve).symm.trans (Option.some.inj hliteral)
  | template source =>
    rw [literal?] at hliteral
    split at hliteral
    · cases hliteral
    · next hplain =>
      have hdenotes := numeral?_of_resolve hplain hresolve
      unfold numeral? at hdenotes
      split at hliteral
      · next hblank => simp [hblank] at hdenotes
      · next hfilled =>
        rw [if_neg hfilled] at hdenotes
        obtain ⟨hfound, -⟩ := Option.filter_eq_some_iff.mp hdenotes
        rw [hfound] at hliteral
        exact Option.some.inj hliteral

theorem Amount.exists_literal? {source : Text} (hplain : ¬Template.hasPlaceholder source = true) :
    ∃ x, (template source).literal? = some x := by
  rw [literal?, if_neg hplain]
  split <;> exact ⟨_, rfl⟩

namespace Action

/-- How the templates of an action fail when it is prepared. -/
inductive TemplateFails (scope : Scope) : Action → Fault → Prop
  /-- A template cannot be resolved. -/
  | unresolved {action : Action} {source : Text} {fault : Fault}
      (hsource : source ∈ action.operands.flatMap Value.templates)
      (hfault : Template.resolve scope source = .error fault) : TemplateFails scope action fault
  /-- The template for the length of a wait stands for no number. -/
  | length {source : Text} {fault : Fault}
      (hfault : Amount.resolve scope "wait duration" (.template source) = .error fault) :
      TemplateFails scope (.wait (some (.template source))) fault
  /-- The template for the length of a wait stands for less than no time. -/
  | negative {source : Text} {length : Number} (hsource : Template.hasPlaceholder source = true)
      (hlength : Amount.resolve scope "wait duration" (.template source) = .ok length)
      (hnegative : Number.lt length 0 = true) :
      TemplateFails scope (.wait (some (.template source))) (.mismatch (.negativeWait length))
  /-- The template for the target of an assignment stands for no name. -/
  | name {target name : Text} {value : Value} {append : Option Bool}
      (htarget : Template.hasPlaceholder target = true)
      (hname : Template.interpolate scope target = .ok name) (hother : name.isName = false) :
      TemplateFails scope (.setVariable target value append) (.mismatch (.variableName name))

section

variable {header : StepHeader} {action : Action} {scope : Scope} {timeout : Number}
  {recorded : Value}

theorem task_wait {seconds : Option Amount} {x : Number}
    (hlength : seconds.getD standardWait = .number x) (hle : Number.lt x 0 = false) :
    (wait seconds).task scope timeout recorded = .ok (.request (.wait x)) := by
  rw [task, hlength]
  change (if Number.lt x 0 = true then _ else _) = _
  rw [hle]
  rfl

/-- A wait without flaws does not last less than no time where its length is written out. -/
theorem lt_zero_of_literal? {amount : Amount} {x length : Number}
    (hflaws : (Step.act header (.wait (some amount))).flaws = [])
    (hliteral : amount.literal? = some x)
    (hlength : amount.resolve scope "wait duration" = .ok length) :
    Number.lt length 0 = false := by
  obtain rfl := Amount.eq_of_literal? hliteral hlength
  have hlast := (List.append_eq_nil_iff.mp hflaws).2
  simp only [hliteral] at hlast
  by_cases hle : Number.le 0 length = true
  · exact Number.lt_eq_false_of_le hle
  · simp [hle] at hlast

/-- A wait without flaws is refused only for what its template stands for. -/
theorem wait_throwsOnly {seconds : Option Amount}
    (hflaws : (Step.act header (.wait seconds)).flaws = []) :
    ThrowsOnly ((wait seconds).TemplateFails scope)
      ((wait seconds).task scope timeout recorded) := by
  cases seconds with
  | none =>
    have hone := (Number.le_iff_of_toInt? Number.toInt?_zero Number.toInt?_one).mpr (by decide)
    rw [task_wait rfl (Number.lt_eq_false_of_le hone)]
    exact .ok _
  | some amount =>
    cases amount with
    | number x =>
      have hlength : (Amount.number x).resolve scope "wait duration" = .ok x := rfl
      rw [task_wait rfl (lt_zero_of_literal? hflaws rfl hlength)]
      exact .ok _
    | template source =>
      refine .bind_of_ok (fun fault hfault ↦ .length hfault) fun length hlength ↦ ?_
      split
      · next hnegative =>
        refine .error (.negative ?_ hlength hnegative)
        by_contra hplain
        obtain ⟨x, hliteral⟩ := Amount.exists_literal? hplain
        rw [lt_zero_of_literal? hflaws hliteral hlength] at hnegative
        cases hnegative
      · exact .ok _

/-- An action without flaws fails to be prepared only by one of its templates. -/
theorem task_templateFails (hflaws : (Step.act header action).flaws = []) :
    ThrowsOnly (action.TemplateFails scope) (action.task scope timeout recorded) := by
  refine task_throwsOnly (fun source hsource fault hfault ↦ .unresolved hsource hfault) ?_ ?_
  · rintro seconds rfl
    exact wait_throwsOnly hflaws
  · rintro target value append name rfl hname hother
    refine .name ?_ hname hother
    by_contra hplain
    have hlast := (List.append_eq_nil_iff.mp hflaws).2
    rw [Template.interpolate, Template.resolve, if_neg hplain] at hname
    obtain rfl : target = name := Except.ok.inj hname
    simp [hplain, hother] at hlast

end

end Action

namespace Step

/-- A failure of a step before its first attempt: of its guard, of its condition, of the operands of
its loop, or of a template of its action. -/
structure FailsUntried (step : Step) (scope : Scope) (fault : Fault) : Prop where
  /-- The step raises the fault by itself. -/
  raises : step.Raises scope fault
  /-- An action raises it by its guard or by one of its templates. -/
  action : ∀ header action, step = .act header action →
    (∃ guard, header.guard = some guard ∧ guard.evaluate scope = .error fault) ∨
      action.TemplateFails scope fault

theorem Raises.failsUntried {step : Step} {scope : Scope} {fault : Fault}
    (h : step.Raises scope fault) (hflaws : step.flaws = []) : step.FailsUntried scope fault := by
  refine ⟨h, ?_⟩
  rintro header action rfl
  cases h with
  | guard hguard hfault => exact .inl ⟨_, hguard, hfault⟩
  | preparing hfault => exact .inr (Action.task_templateFails hflaws _ hfault)

end Step

/-! ### How often a step is attempted -/

namespace RetryPlan

/-- Whether a plan allows so many attempts: no more than it gives, and where it names an integer, no
more than this. -/
def Allows (plan : RetryPlan) (count : Nat) : Prop :=
  count ≤ plan.attempts ∧
    ∀ most : Int, plan.maxAttempts.toInt? = some most → (count : Int) ≤ most

/-- There is one attempt under every plan; the others are those that it names. -/
theorem allows_of_le {plan : RetryPlan} {count : Nat} (htwo : 2 ≤ count)
    (hle : count ≤ plan.attempts) : plan.Allows count := by
  refine ⟨hle, fun most hmost ↦ ?_⟩
  rw [attempts, Number.ceilingInt?_of_toInt? hmost] at hle
  dsimp only at hle
  omega

end RetryPlan

theorem StepHeader.allows_of_turns {header : StepHeader} {standard : RetryPlan} {count : Nat}
    (htwo : 2 ≤ count) (hle : count ≤ header.turns standard) :
    header.onError = some .retry ∧ (header.plan standard).Allows count := by
  have hpolicy : header.policy = .retry := by
    have hmore : header.turns standard - 1 ≠ 0 := by omega
    exact Policy.policy_of_turns hmore
  rw [turns, if_pos hpolicy] at hle
  refine ⟨?_, RetryPlan.allows_of_le htwo hle⟩
  unfold policy at hpolicy
  cases herror : header.onError with
  | none => simp [herror] at hpolicy
  | some policy => simpa [herror] using hpolicy

/-! ### Outcomes that fit -/

/-- An outcome that fits a step, which was recorded in a turn in which the names had the values of
the scope, and behind which the run went on or not. -/
structure Outcome.Fits (standard : RetryPlan) (scope : Scope) (goesOn : Prop) (step : Step)
    (outcome : Outcome) : Prop where
  /-- It has the name and the kind of the step. -/
  isOf : outcome.IsOf step outcome.place
  /-- There is an error exactly when the step has failed. -/
  error : outcome.error.isSome = true ↔ outcome.status = .failed
  /-- What is passed over is not attempted. -/
  skipped : outcome.status = .skipped → outcome.attempts = 0
  /-- What succeeds does so at its only attempt. -/
  success : outcome.status = .success → outcome.attempts = 1
  /-- Only an action whose policy is to retry is attempted again, as often as its plan allows. -/
  retried : outcome.status = .retried →
    step.isControl = false ∧ step.header.onError = some .retry ∧ 2 ≤ outcome.attempts ∧
      (step.header.plan standard).Allows outcome.attempts
  /-- What fails without an attempt has failed at its guard, its condition, its operands or one of
  its templates. -/
  untried : outcome.status = .failed → outcome.attempts = 0 →
    ∃ fault, outcome.error = some fault.info ∧ step.FailsUntried scope fault
  /-- The name of its value is that of the step, if the step has one, is not passed over, and does
  not end the run. -/
  resultKey : ∀ key, outcome.resultKey = some key ↔
    key = step.resultKey ∧ step.hasResult = true ∧ outcome.status ≠ .skipped ∧ goesOn

section Fits

variable {standard : RetryPlan} {scope : Scope} {goesOn : Prop} {step : Step} {place : Place}
  {header : StepHeader} {action : Action} {outcome : Outcome}

theorem Outcome.fits_passedOver (step : Step) (place : Place) :
    (step.passedOver place).Fits standard scope goesOn step where
  isOf := ⟨rfl, rfl, rfl⟩
  error := by simp [Step.passedOver]
  skipped := fun _ ↦ rfl
  success := by simp [Step.passedOver]
  retried := by simp [Step.passedOver]
  untried := by simp [Step.passedOver]
  resultKey := by simp [Step.passedOver]

/-- An open step that is closed succeeds, or fails with an error. -/
theorem Outcome.fits_closed {status : StepEnding} {fault : Option Fault} {owner : Opened}
    (hcontrol : owner.step.isControl = true)
    (hstatus : status = .success ∧ fault = none ∨ status = .failed ∧ fault.isSome = true)
    (live : Live σ) :
    (live.outcome owner.step owner.place owner.startedAt status 1 fault none).Fits standard scope
      goesOn owner.step where
  isOf := ⟨rfl, rfl, rfl⟩
  error := by rcases hstatus with ⟨rfl, rfl⟩ | ⟨rfl, hfault⟩ <;> simp [Live.outcome, *]
  skipped := by rcases hstatus with ⟨rfl, rfl⟩ | ⟨rfl, hfault⟩ <;> simp [Live.outcome]
  success := fun _ ↦ rfl
  retried := by rcases hstatus with ⟨rfl, rfl⟩ | ⟨rfl, hfault⟩ <;> simp [Live.outcome]
  untried := by simp [Live.outcome]
  resultKey := by
    have hresult : owner.step.hasResult = false := by
      cases hstep : owner.step with
      | act _ _ => simp [hstep, Step.isControl] at hcontrol
      | _ => rfl
    simp [Live.outcome, hresult]

/-- What came of carrying out an action fits its step: it could not be prepared, or it was attempted
no more often than it has turns. -/
theorem Outcome.fits_of_attempted {attempted : Attempted (Option Value)}
    (hof : outcome.IsOf (.act header action) place) (hstatus : outcome.status = attempted.ending)
    (hattempts : outcome.attempts = attempted.attempts)
    (herror : outcome.error = attempted.fault?.map Fault.info)
    (hkey : ∀ key, outcome.resultKey = some key ↔ key = (Step.act header action).resultKey ∧
      (Step.act header action).hasResult = true ∧ goesOn)
    (htried : (∃ fault ends, attempted = .failed 0 fault ends ∧
        (Step.act header action).FailsUntried scope fault) ∨
      0 < attempted.attempts ∧ attempted.attempts ≤ header.turns standard) :
    outcome.Fits standard scope goesOn (.act header action) := by
  cases attempted with
  | failed count fault ends =>
    have hfailed : outcome.status = .failed := hstatus
    have hshows : outcome.error = some fault.info := herror
    refine ⟨⟨hof.1, hof.2.1, rfl⟩, by simp [hshows, hfailed], by simp [hfailed], by simp [hfailed],
      by simp [hfailed], fun _ hnone ↦ ?_, by simpa [hfailed] using hkey⟩
    rcases htried with ⟨cause, _, heq, hfails⟩ | ⟨hpos, -⟩
    · obtain ⟨-, rfl, -⟩ := Attempted.failed.inj heq
      exact ⟨fault, hshows, hfails⟩
    · rw [← hattempts, hnone] at hpos
      cases hpos
  | done count value =>
    have hnone : outcome.error = none := herror
    have hcount : outcome.attempts = count := hattempts
    obtain ⟨hpos, hle⟩ : 0 < count ∧ count ≤ header.turns standard := by
      refine htried.resolve_left ?_
      rintro ⟨_, _, heq, -⟩
      cases heq
    by_cases htwo : count > 1
    · have hretried : outcome.status = .retried := hstatus.trans (if_pos htwo)
      obtain ⟨hpolicy, hallows⟩ := StepHeader.allows_of_turns htwo hle
      exact ⟨⟨hof.1, hof.2.1, rfl⟩, by simp [hnone, hretried], by simp [hretried],
        by simp [hretried], fun _ ↦ ⟨rfl, hpolicy, hcount ▸ htwo, hcount ▸ hallows⟩,
        by simp [hretried], by simpa [hretried] using hkey⟩
    · have hsuccess : outcome.status = .success := hstatus.trans (if_neg htwo)
      exact ⟨⟨hof.1, hof.2.1, rfl⟩, by simp [hnone, hsuccess], by simp [hsuccess],
        fun _ ↦ by omega, by simp [hsuccess], by simp [hsuccess], by simpa [hsuccess] using hkey⟩

end Fits

/-! ### What is recorded -/

/-- An outcome that fits the step at its place. -/
def Outcome.FitsIn (steps : List Step) (standard : RetryPlan) (scope : Scope) (goesOn : Prop)
    (outcome : Outcome) : Prop :=
  ∃ step, Step.stepAt? steps outcome.place = some step ∧ outcome.Fits standard scope goesOn step

theorem ActionEnd.passage_eq_through_iff {ended : ActionEnd} {after : Live σ} :
    ended.passage after = .through ↔ ended = .goesOn := by
  cases ended <;> simp [passage]

namespace Live

section Step

variable {standard : RetryPlan} {scope : Scope} {live after : Live σ} {header : StepHeader}
  {action : Action} {place : Place} {startedAt : Number} {ended : ActionEnd}

/-- A step that stumbles records one outcome, which fits it. -/
theorem stumbled_fits (setting : Setting σ) {owner : Opened} {fault : Fault}
    (hfails : owner.step.FailsUntried scope fault) (live : Live σ) :
    ∃ outcome, (live.stumbled setting owner fault).2.outcomes = live.outcomes ++ [outcome] ∧
      outcome.place = owner.place ∧
      outcome.Fits standard scope ((live.stumbled setting owner fault).1 = .through)
        owner.step := by
  obtain ⟨outcome, hrecords, hof, -, herror, hattempts, hstatus, hkey⟩ :=
    stumbled_reports setting owner fault live
  exact ⟨outcome, hrecords.outcomes, hof.2.2, ⟨hof.1, hof.2.1, rfl⟩, by simp [herror, hstatus],
    by simp [hstatus], by simp [hstatus], by simp [hstatus], fun _ _ ↦ ⟨fault, herror, hfails⟩,
    by simpa [hstatus] using hkey⟩

/-- An action that is carried out records one outcome, which fits its step. -/
theorem perform_fits (hflaws : (Step.act header action).flaws = [])
    (h : live.perform setting header action place startedAt = some (.ok ended, after)) :
    ∃ outcome, after.outcomes = live.outcomes ++ [outcome] ∧ outcome.place = place ∧
      outcome.Fits setting.retry live.scope (ended.passage after = .through)
        (.act header action) := by
  obtain ⟨outcome, hrecords, hof, -, attempted, middle, hcarried, hshows⟩ := perform_reports h
  obtain ⟨herror, hattempts, hstatus, hkey⟩ := hshows
  refine ⟨outcome, hrecords.outcomes, hof.2.2,
    Outcome.fits_of_attempted hof hstatus hattempts herror ?_ ?_⟩
  · simpa only [ActionEnd.passage_eq_through_iff] using hkey
  · refine (Policy.carryOut_attempts hcarried).imp_left ?_
    rintro ⟨thrown, fault, ends, hprepared, hfault, heq⟩
    obtain ⟨timeout, recorded, cause, htask, rfl⟩ := undertaking_prepared hprepared
    obtain rfl := Except.ok.inj hfault
    exact ⟨_, ends, heq, (Step.Raises.preparing htask).failsUntried hflaws⟩

end Step

end Live

namespace Walk

variable {steps : List Step} {walk : Walk σ} {progress : Progress σ} {standard : RetryPlan}
  {scope : Scope} {goesOn : Prop}

theorem exists_going_iff (passage : Passage) (walk : Walk σ) :
    (∃ next, passage.progress setting walk = .going next) ↔ passage = .through := by
  cases passage <;> simp [Passage.progress]

/-- What is behind a passage fits if what is before it does: all that is still open is closed. -/
theorem progress_gains {live behind : Live σ} {below : List Frame} {passage : Passage}
    {before : Live σ} (h : (passage.progress setting ⟨live, below⟩).live? = some behind)
    (hbefore : Live.Gains (Outcome.FitsIn steps standard scope goesOn) before live)
    (hopens : ∀ owner ∈ Frame.openSteps below, owner.Sound steps) :
    Live.Gains (Outcome.FitsIn steps standard scope goesOn) before behind := by
  cases passage with
  | through =>
    obtain rfl := Option.some.inj h
    exact hbefore
  | atEnd ending =>
    obtain rfl := Option.some.inj h
    refine hbefore.trans (Live.closeAll_gains below (fun owner howner live ↦ ?_) live)
    obtain ⟨hstep, hcontrol⟩ := hopens owner howner
    refine ⟨owner.step, hstep, Outcome.fits_closed hcontrol ?_ live⟩
    cases ending with
    | completed => exact .inl ⟨rfl, rfl⟩
    | failed | cancelled => exact .inr ⟨rfl, rfl⟩

/-- What a turn of a walk over steps without flaws records fits the steps. -/
theorem Moves.gains (h : Moves setting walk progress) (hwithin : walk.Within steps)
    (hopens : ∀ owner ∈ Frame.openSteps walk.stack, owner.Sound steps)
    (hflaws : ∀ place step, Step.stepAt? steps place = some step → step.flaws = [])
    {behind : Live σ} (hbehind : progress.live? = some behind) :
    Live.Gains (Outcome.FitsIn steps setting.retry walk.live.scope
      (∃ next, progress = .going next)) walk.live behind := by
  cases h with
  | done | branched | looped =>
    obtain rfl := Option.some.inj hbehind
    exact .of_eq rfl
  | stuck => cases hbehind
  | @left live _ _ owner _ =>
    obtain rfl := Option.some.inj hbehind
    cases owner with
    | none => exact .of_eq rfl
    | some opened =>
      obtain ⟨hstep, hcontrol⟩ := hopens opened List.mem_cons_self
      exact .of_append (Live.record_outcomes _ _ _)
        ⟨opened.step, hstep, Outcome.fits_closed hcontrol (.inl ⟨rfl, rfl⟩) live⟩
  | cancelled => exact progress_gains hbehind (.of_eq rfl) hopens
  | halted => exact progress_gains hbehind (.of_eq rfl) hopens
  | @skipped live step _ site index _ _ _ _ =>
    obtain rfl := Option.some.inj hbehind
    have hstep := Work.Within.head (hwithin _ List.mem_cons_self)
    exact .of_append (Live.record_outcomes _ _ _)
      ⟨step, hstep, Outcome.fits_passedOver step ⟨site, index⟩⟩
  | @stumbled live step _ site index _ _ fault _ hfound =>
    have hstep := Work.Within.head (hwithin _ List.mem_cons_self)
    have hfails : (live.opened step ⟨site, index⟩).step.FailsUntried live.scope fault :=
      (Step.raises_of_approach hfound).failsUntried (hflaws _ _ hstep)
    obtain ⟨outcome, houtcomes, hplace, hfits⟩ :=
      Live.stumbled_fits setting hfails (live.enter ⟨site, index⟩)
    simp only [exists_going_iff]
    exact progress_gains hbehind (.of_append houtcomes ⟨step, hplace ▸ hstep, hfits⟩) hopens
  | @acted live _ step _ site index _ _ _ _ _ _ hfound hperform =>
    obtain rfl := Step.eq_act_of_approach hfound
    have hstep := Work.Within.head (hwithin _ List.mem_cons_self)
    obtain ⟨outcome, houtcomes, hplace, hfits⟩ :=
      Live.perform_fits (hflaws _ _ hstep) hperform
    simp only [exists_going_iff]
    exact progress_gains hbehind (.of_append houtcomes ⟨_, hplace ▸ hstep, hfits⟩) hopens
  | @refused live owner _ _ _ fault _ hnext =>
    obtain ⟨hin, header, spec, howner, hdrives⟩ := hwithin _ List.mem_cons_self
    have hraises : owner.step.Raises live.scope fault := howner ▸ .asking hdrives hnext
    obtain ⟨outcome, houtcomes, hplace, hfits⟩ := Live.stumbled_fits setting
      (hraises.failsUntried (hflaws _ _ hin.1)) (live.askLoop owner)
    simp only [exists_going_iff]
    exact progress_gains hbehind (.of_append houtcomes ⟨owner.step, hplace ▸ hin.1, hfits⟩)
      (List.forall_mem_cons.mp hopens).2
  | @turned live owner _ _ _ turn _ _ _ =>
    obtain rfl := Option.some.inj hbehind
    exact .of_eq (live.startTurn_grows setting owner turn).outcomes
  | @finished live owner _ _ _ turn _ _ _ =>
    obtain rfl := Option.some.inj hbehind
    obtain ⟨hstep, hcontrol⟩ := hopens owner List.mem_cons_self
    have hgrown := (live.startTurn_grows setting owner turn).trans
      (Live.finishLoop_grows setting owner turn _).unmarked
    exact (Live.Gains.of_eq hgrown.outcomes).trans (.of_append (Live.record_outcomes _ _ _)
      ⟨owner.step, hstep, Outcome.fits_closed hcontrol (.inl ⟨rfl, rfl⟩) _⟩)

end Walk

/-! ### Runs -/

/-- A walk whose turn has recorded an outcome as the one at an index. -/
def Walk.Recorded (setting : Setting σ) (origin : Walk σ) (index : Nat) (outcome : Outcome) :
    Prop :=
  origin.live.outcomes.length ≤ index ∧
    ∃ behind, (origin.turn setting).live? = some behind ∧ behind.outcomes[index]? = some outcome

namespace Workflow

variable {host : Host σ} {options : RunParameters} {document : Datum} {validated : Validated}
  {live : Live σ}

/-- An outcome of a run that is well formed: it was recorded in a turn on the way of the run, and it
fits the step that its path leads to. -/
def WellFormed (validated : Validated) (host : Host σ) (options : RunParameters) (live : Live σ)
    (index : Nat) (outcome : Outcome) : Prop :=
  ∃ origin step,
    Walk.Reaches (validated.workflow.setting host options)
      (firstWalk validated host options live) origin ∧
    origin.Recorded (validated.workflow.setting host options) index outcome ∧
    (Place.ofText? outcome.path).bind (Step.stepAt? validated.workflow.steps) = some step ∧
    outcome.Fits options.retry origin.live.scope
      (∃ next, origin.turn (validated.workflow.setting host options) = .going next) step

/-- The outcomes behind a turn are well formed when those before it are. -/
theorem wellFormed_of_turn (hvalid : validate document = .ok validated) {walk : Walk σ}
    (hreaches : Walk.Reaches (validated.workflow.setting host options)
      (firstWalk validated host options live) walk)
    (hbefore : ∀ index outcome, walk.live.outcomes[index]? = some outcome →
      WellFormed validated host options live index outcome)
    {behind : Live σ}
    (hbehind : (walk.turn (validated.workflow.setting host options)).live? = some behind)
    {index : Nat} {outcome : Outcome} (hfound : behind.outcomes[index]? = some outcome) :
    WellFormed validated host options live index outcome := by
  have hfirst := firstWalk_within validated host options live
  have hflaws : ∀ place step, Step.stepAt? validated.workflow.steps place = some step →
      step.flaws = [] := fun place step hstep ↦
    flaws_of_validate hvalid (Step.mem_locatedFrom hstep)
  obtain ⟨news, houtcomes, hfits⟩ := (Walk.moves_turn walk).gains (hreaches.within hfirst)
    (hreaches.opens hfirst (fun owner howner ↦ by cases howner)) hflaws hbehind
  by_cases hindex : index < walk.live.outcomes.length
  · rw [houtcomes, List.getElem?_append_left hindex] at hfound
    exact hbefore index outcome hfound
  · have hnews : outcome ∈ news := by
      rw [houtcomes, List.getElem?_append_right (Nat.le_of_not_lt hindex)] at hfound
      exact List.mem_of_getElem? hfound
    obtain ⟨step, hstep, hfits⟩ := hfits outcome hnews
    refine ⟨walk, step, hreaches, ⟨Nat.le_of_not_lt hindex, behind, hbehind, hfound⟩, ?_, hfits⟩
    rw [Outcome.path, Place.ofText?_toText]
    exact hstep

/-- In every run, at every point of it, each outcome is well formed. A plan that a step has for its
attempts names a positive integer. -/
theorem run_outcomes (hvalid : validate document = .ok validated) (hfresh : live.IsFresh) :
    (∀ walk, Walk.Reaches (validated.workflow.setting host options)
        (firstWalk validated host options live) walk →
      ∀ index outcome, walk.live.outcomes[index]? = some outcome →
        WellFormed validated host options live index outcome) ∧
    (∀ turns result after, run host options document turns live = some (.ok result, after) →
      ∀ index outcome, result.outcomes[index]? = some outcome →
        WellFormed validated host options live index outcome) ∧
    ∀ place step plan, Step.stepAt? validated.workflow.steps place = some step →
      step.header.retry = some plan →
      ∃ most : Int, plan.maxAttempts.toInt? = some most ∧ 1 ≤ most := by
  have hreached : ∀ walk, Walk.Reaches (validated.workflow.setting host options)
      (firstWalk validated host options live) walk →
      ∀ index outcome, walk.live.outcomes[index]? = some outcome →
        WellFormed validated host options live index outcome := by
    intro walk hreaches
    induction hreaches with
    | start =>
      intro index outcome hfound
      have hnone : (firstWalk validated host options live).live.outcomes = [] :=
        (opening_grows validated host options live).outcomes.trans hfresh.outcomes
      simp [hnone] at hfound
    | turn hreaches hturn ih =>
      intro index outcome hfound
      exact wellFormed_of_turn hvalid hreaches ih (by rw [hturn]; rfl) hfound
  refine ⟨hreached, ?_, ?_⟩
  · intro turns result after hrun index outcome hfound
    obtain ⟨walk, ending, last, hreaches, hturn, rfl, hresult⟩ := reached_of_run hvalid hrun
    obtain rfl := Except.ok.inj hresult
    rw [result, (conclude_grows ending live.time _ last).outcomes] at hfound
    exact wellFormed_of_turn hvalid hreaches (hreached walk hreaches) (by rw [hturn]; rfl) hfound
  · intro place step plan hstep hplan
    obtain ⟨hinteger, hbound⟩ := plan_of_stepAt? hvalid hstep hplan
    obtain ⟨most, hmost⟩ := Option.isSome_iff_exists.mp hinteger
    exact ⟨most, hmost, (Number.le_iff_of_toInt? Number.toInt?_one hmost).mp hbound⟩

/-- The outcomes of the saving loop are well formed: the second is that of a step that succeeded at
its second attempt. -/
theorem run_outcomes_savingLoop :
    ∃ validated result after outcome, validate savingLoop = .ok validated ∧
      run wavering (.standard "diary") savingLoop 20 (idle 0 .quiet (true, [])) =
        some (.ok result, after) ∧
      result.outcomes.map Outcome.status = [.success, .retried, .failed, .success, .success] ∧
      result.outcomes[1]? = some outcome ∧ outcome.attempts = 2 ∧
      WellFormed validated wavering (.standard "diary") (idle 0 .quiet (true, [])) 1 outcome := by
  have hreturned : (returned? (run wavering (.standard "diary") savingLoop 20
      (idle 0 .quiet (true, [])))).map (fun found ↦ (found.1.outcomes.map Outcome.status,
        found.1.outcomes[1]?.map Outcome.attempts)) =
      some ([.success, .retried, .failed, .success, .success], some 2) := by decide +kernel
  obtain ⟨⟨result, after⟩, hresult, hshape⟩ := Option.map_eq_some_iff.mp hreturned
  obtain ⟨hstatus, hsecond⟩ := Prod.mk.inj hshape
  obtain ⟨outcome, hfound, hattempts⟩ := Option.map_eq_some_iff.mp hsecond
  have hrun := eq_some_of_returned? hresult
  obtain ⟨validated, _, _, hvalid, -, -, -⟩ := carried_of_run hrun
  have hfresh : (idle 0 .quiet (true, []) : Live (Bool × List Outcome)).IsFresh := ⟨rfl, rfl⟩
  obtain ⟨-, hends, -⟩ := @run_outcomes _ wavering (.standard "diary") savingLoop validated _
    hvalid hfresh
  exact ⟨validated, result, after, outcome, hvalid, hrun, hstatus, hfound, hattempts,
    hends 20 result after hrun 1 outcome hfound⟩

end Workflow

end BrowserFlow
