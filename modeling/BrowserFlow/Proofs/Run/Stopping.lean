import BrowserFlow.Proofs.Run.Frame
import BrowserFlow.Proofs.Run.Interruption

/-!
Steps that end the run. Such a step asks its guard first and fills its reason in
behind it, and so comes out in one of three ways (`Step.haltEnding`). It makes no
request and binds nothing, so what a visit leaves is one report: the run is the
one before with an outcome more, which the host has been told
(`Live.Reports`). When the step has not succeeded and the run goes on, there
is nothing else (`Walk.turn_stop_passed`); when it has succeeded, the steps that
are open around it are closed, and these are the steps of the workflow that it is
in (`Walk.Reaches.opens`). Main statement: a step that ends the run does so at
once, wherever it is, and is passed by when its guard does not hold or its
failure is tolerated (`Workflow.run_stop`).
-/

set_option autoImplicit false
set_option relaxedAutoImplicit false

namespace BrowserFlow

variable {σ : Type} {setting : Setting σ}

/-! ### What comes of such a step -/

/-- How a step that ends the run comes out when it is visited: its guard is asked before its reason
is filled in. -/
def Step.haltEnding (scope : Scope) (header : StepHeader) (reason : Option Text) : StepEnding :=
  match (Step.act header (.stop reason)).guardHolds scope with
  | .error _ => .failed
  | .ok false => .skipped
  | .ok true =>
    if reason.all fun source ↦ (Template.interpolate scope source).isOk then .success else .failed

namespace Action

variable {scope : Scope} {timeout : Number} {recorded : Value}

/-- A step that ends the run is prepared when its reason can be filled in. -/
theorem task_stop (scope : Scope) (timeout : Number) (recorded : Value) (reason : Option Text) :
    (∃ told, (stop reason).task scope timeout recorded = .ok (.halt told) ∧
      (reason.all fun source ↦ (Template.interpolate scope source).isOk) = true) ∨
    (∃ fault, (stop reason).task scope timeout recorded = .error fault ∧
      (reason.all fun source ↦ (Template.interpolate scope source).isOk) = false) := by
  cases reason with
  | none => exact .inl ⟨none, rfl, rfl⟩
  | some source =>
    rw [Option.all_some]
    cases hfilled : Template.interpolate scope source with
    | ok told => exact .inl ⟨some told, by rw [task, hfilled]; rfl, rfl⟩
    | error fault => exact .inr ⟨fault, by rw [task, hfilled]; rfl, rfl⟩

end Action

namespace Live

variable {live middle after : Live σ} {own : Outcome} {place : Place}

/-! ### One report -/

/-- A run in which something was only said to the log. -/
def Comments (live after : Live σ) : Prop :=
  ∃ news, after = { live with events := live.events ++ news } ∧ ∀ event ∈ news, event.Remark

/-- A run in which a step at a place was visited and one outcome reported, and nothing else has
happened: the host was told it, which may have cancelled the run. -/
def Reports (setting : Setting σ) (own : Outcome) (place : Place) (live after : Live σ) : Prop :=
  ∃ said time later,
    after = { live with
      outcomes := live.outcomes ++ [own]
      host := (setting.host.notice own live.host).2
      signal := live.signal.heed (setting.host.notice own live.host).1
      events := live.events ++ .visited place :: (said ++ .recorded time own :: later) } ∧
    (∀ event ∈ said, event.Remark) ∧ ∀ event ∈ later, event.Remark

theorem Comments.refl (live : Live σ) : Comments live live := ⟨[], by simp, by simp⟩

theorem log_comments (live : Live σ) (bindings : Entries Datum) (level : Level) (message : Text)
    (details : Entries Datum) : Comments live (live.log bindings level message details) :=
  ⟨[.logged ⟨live.time, level, message, bindings, details⟩], rfl, by
    simp [Event.Remark, Event.isRemark]⟩

/-- An outcome recorded behind entries of the log is the report of its step. -/
theorem Comments.record (setting : Setting σ) (own : Outcome) (place : Place)
    (h : Comments (live.enter place) middle) :
    Reports setting own place live (middle.record setting own) := by
  obtain ⟨said, rfl, hsaid⟩ := h
  rw [record_eq]
  refine ⟨said, live.time, .logged ⟨live.time, .debug, "Step finished", setting.bindings,
    Datum.ofEntries own.entries⟩ :: live.signal.abortion (setting.host.notice own live.host).1, ?_,
    hsaid, List.forall_mem_cons.mpr ⟨rfl, fun _ ↦ Signal.remark_of_mem⟩⟩
  simp [enter, note, time]

theorem Reports.comments (h : Reports setting own place live middle)
    (hcomments : Comments middle after) : Reports setting own place live after := by
  obtain ⟨said, time, later, rfl, hsaid, hlater⟩ := h
  obtain ⟨news, rfl, hnews⟩ := hcomments
  exact ⟨said, time, later ++ news, by simp, hsaid, List.forall_mem_append.mpr ⟨hlater, hnews⟩⟩

/-! ### The visit of such a step -/

section Visit

variable {header : StepHeader} {reason : Option Text} {startedAt : Number}

/-- A step that ends the run is done at its first attempt when its reason can be filled in. -/
theorem perform_stop_done (setting : Setting σ) (place : Place) (header : StepHeader)
    (startedAt : Number)
    (hfilled : (reason.all fun source ↦ (Template.interpolate live.scope source).isOk) = true) :
    ∃ after, (live.enter place).perform setting header (.stop reason) place startedAt =
        some (.ok .stops, after) ∧
      Reports setting ((live.enter place).outcome (.act header (.stop reason)) place startedAt
        .success 1 none none) place live after := by
  obtain ⟨told, htask, -⟩ := (Action.task_stop live.scope (header.timeout.getD
    setting.waitForTimeout) (.sequence (live.outcomes.map Outcome.toValue)) reason).resolve_right
      fun ⟨_, _, hfails⟩ ↦ by simp [hfails] at hfilled
  have hcarried : Policy.carryOut (surroundings setting) header setting.retry
      (undertaking setting header (.stop reason) (live.enter place)) (live.enter place) =
        some (.ok (.done 1 (some ((told.map Value.text).getD .null))), live.enter place) := by
    have hprepared : (undertaking setting header (.stop reason) (live.enter place)).prepared =
        .ok (.halt told) := congrArg (Except.mapError _) htask
    rw [Policy.carryOut, hprepared]
    dsimp only
    rw [Policy.attempts]
    cases told <;> rfl
  refine ⟨_, by rw [perform_eq, hcarried]; rfl, ?_⟩
  exact (Comments.record setting _ place (.refl _)).comments (log_comments _ _ _ _ _)

/-- A step that ends the run fails when its reason cannot be filled in; where its failure is
tolerated, the run goes on. -/
theorem perform_stop_tolerated (setting : Setting σ) (place : Place) (startedAt : Number)
    (hpolicy : header.policy = .continue)
    (hfails : (reason.all fun source ↦ (Template.interpolate live.scope source).isOk) = false) :
    ∃ fault after, (live.enter place).perform setting header (.stop reason) place startedAt =
        some (.ok .goesOn, after) ∧
      Reports setting ((live.enter place).outcome (.act header (.stop reason)) place startedAt
        .failed 0 (some fault) none) place live after := by
  obtain ⟨fault, htask, -⟩ := (Action.task_stop live.scope (header.timeout.getD
    setting.waitForTimeout) (.sequence (live.outcomes.map Outcome.toValue)) reason).resolve_left
      fun ⟨_, _, hfilled⟩ ↦ by simp [hfails] at hfilled
  have hcarried : Policy.carryOut (surroundings setting) header setting.retry
      (undertaking setting header (.stop reason) (live.enter place)) (live.enter place) =
        some (.ok (.failed 0 fault false), (live.enter place).log [] .warn
          "Step failed, continuing" (Policy.continuedDetails header.name 0 fault)) := by
    have hprepared : (undertaking setting header (.stop reason) (live.enter place)).prepared =
        .error (.failure (.fault fault)) := congrArg (Except.mapError _) htask
    rw [Policy.carryOut, hprepared]
    dsimp only
    rw [show Fault.classify (Policy.whereabouts header) (.failure (.fault fault)) = .ok fault from
      rfl]
    dsimp only
    rw [Policy.giveUp, if_pos hpolicy]
    rfl
  refine ⟨fault, _, by rw [perform_eq, hcarried]; rfl, ?_⟩
  exact Comments.record setting _ place (log_comments _ _ _ _ _)

/-- A step that ends the run and whose guard fails is passed by where its failure is tolerated. -/
theorem stumbled_stop (setting : Setting σ) (place : Place) (reason : Option Text) (fault : Fault)
    (live : Live σ) (hpolicy : header.policy = .continue) :
    ∃ after, (live.enter place).stumbled setting (live.opened (.act header (.stop reason)) place)
        fault = (.through, after) ∧
      Reports setting ((live.enter place).outcome (.act header (.stop reason)) place
        (live.opened (.act header (.stop reason)) place).startedAt .failed 0 (some fault) none)
        place live after := by
  unfold stumbled stumble
  have hcontinues : (live.opened (.act header (.stop reason)) place).step.header.policy =
      .continue := hpolicy
  simp only [if_pos hcontinues]
  exact ⟨_, rfl, Comments.record setting _ place (log_comments _ _ _ _ _)⟩

end Visit

end Live

/-- The outcome of a step that ends the run, by what its guard and its reason come to. -/
structure Outcome.Halts (scope : Scope) (header : StepHeader) (reason : Option Text) (place : Place)
    (own : Outcome) : Prop where
  isOf : own.IsOf (.act header (.stop reason)) place
  status : own.status = Step.haltEnding scope header reason
  attempts : own.attempts = if own.status = .success then 1 else 0
  error : own.error = none ↔ own.status ≠ .failed
  resultKey : own.resultKey = none

namespace Walk

variable {live : Live σ} {header : StepHeader} {reason : Option Text}

/-- A walk that comes to a step that ends the run and succeeds is over: what is still to do is only
closed. -/
theorem turn_stop_done (setting : Setting σ) (rest : List Step) (site : Site) (index : Nat)
    (owner : Option Opened) (below : List Frame) (hgoes : live.isCancelled = false)
    (hdone : Step.haltEnding live.scope header reason = .success) :
    ∃ own after, own.Halts live.scope header reason ⟨site, index⟩ ∧
      Live.Reports setting own ⟨site, index⟩ live after ∧
      (⟨live, .steps (.act header (.stop reason) :: rest) site index owner :: below⟩ :
        Walk σ).turn setting = (Passage.atEnd .completed).progress setting
          ⟨after, .steps rest site (index + 1) owner :: below⟩ := by
  have hending := hdone
  unfold Step.haltEnding at hending
  split at hending
  · cases hending
  · cases hending
  · next hguard =>
    have hfilled : (reason.all fun source ↦ (Template.interpolate live.scope source).isOk) = true :=
      by simpa using hending
    obtain ⟨after, hperform, hreports⟩ := live.perform_stop_done setting ⟨site, index⟩ header
      (live.opened (.act header (.stop reason)) ⟨site, index⟩).startedAt hfilled
    refine ⟨_, after, ⟨⟨rfl, rfl, rfl⟩, hdone.symm, rfl, by simp [Live.outcome], rfl⟩,
      hreports, ?_⟩
    rw [turn_cons, arrive_eq hgoes, Step.approach, hguard]
    dsimp only [Step.demand]
    rw [found, hperform]
    rfl

/-- A walk that comes to a step that would end the run but does not succeed goes on behind it, if
its failure is tolerated. -/
theorem turn_stop_passed (setting : Setting σ) (rest : List Step) (site : Site) (index : Nat)
    (owner : Option Opened) (below : List Frame) (hgoes : live.isCancelled = false)
    (hpassed : Step.haltEnding live.scope header reason ≠ .success)
    (htolerated : Step.haltEnding live.scope header reason = .failed →
      header.onError = some .continue) :
    ∃ own after, own.Halts live.scope header reason ⟨site, index⟩ ∧
      Live.Reports setting own ⟨site, index⟩ live after ∧
      (⟨live, .steps (.act header (.stop reason) :: rest) site index owner :: below⟩ :
        Walk σ).turn setting = .going ⟨after, .steps rest site (index + 1) owner :: below⟩ := by
  rw [turn_cons, arrive_eq hgoes, Step.approach]
  have hpolicy : Step.haltEnding live.scope header reason = .failed → header.policy = .continue :=
    fun hfailed ↦ header.policy_eq_continue_iff.mpr (htolerated hfailed)
  cases hguard : (Step.act header (.stop reason)).guardHolds live.scope with
  | error fault =>
    have hending : Step.haltEnding live.scope header reason = .failed := by
      rw [Step.haltEnding, hguard]
    obtain ⟨after, hstumbled, hreports⟩ := live.stumbled_stop setting ⟨site, index⟩ reason
      fault (hpolicy hending)
    refine ⟨_, after, ⟨⟨rfl, rfl, rfl⟩, hending.symm, rfl, by simp [Live.outcome], rfl⟩,
      hreports, ?_⟩
    rw [found, hstumbled]
    rfl
  | ok holds =>
    cases holds with
    | false =>
      have hending : Step.haltEnding live.scope header reason = .skipped := by
        rw [Step.haltEnding, hguard]
      exact ⟨(Step.act header (.stop reason)).passedOver ⟨site, index⟩, _,
        ⟨⟨rfl, rfl, rfl⟩, hending.symm, rfl, by simp [Step.passedOver], rfl⟩,
        Live.Comments.record setting _ _ (.refl _), rfl⟩
    | true =>
      have hfails : (reason.all fun source ↦ (Template.interpolate live.scope source).isOk) =
          false := by
        rw [Step.haltEnding, hguard] at hpassed
        simpa using hpassed
      have hending : Step.haltEnding live.scope header reason = .failed := by
        rw [Step.haltEnding, hguard]
        simp [hfails]
      obtain ⟨fault, after, hperform, hreports⟩ := live.perform_stop_tolerated setting
        ⟨site, index⟩ (live.opened (.act header (.stop reason)) ⟨site, index⟩).startedAt
        (hpolicy hending) hfails
      refine ⟨_, after, ⟨⟨rfl, rfl, rfl⟩, hending.symm, rfl, by simp [Live.outcome],
        rfl⟩, hreports, ?_⟩
      dsimp only [Step.demand]
      rw [found, hperform]
      rfl

end Walk

/-! ### The steps around a step -/

/-- An open step that the steps have at its place, and that controls others. -/
structure Opened.Sound (steps : List Step) (owner : Opened) : Prop where
  step : Step.stepAt? steps owner.place = some owner.step
  control : owner.step.isControl = true

namespace Walk

variable {steps : List Step} {first walk : Walk σ}

/-- The open steps stay steps of the workflow that control others. -/
theorem Restacks.opens {scope : Scope} {before behind : List Frame}
    (h : Restacks scope before behind) (hsound : ∀ frame ∈ before, frame.Sound steps)
    (hopens : ∀ owner ∈ Frame.openSteps before, owner.Sound steps) :
    ∀ owner ∈ Frame.openSteps behind, owner.Sound steps := by
  have htail : ∀ frame below, (∀ owner ∈ Frame.openSteps (frame :: below), owner.Sound steps) →
      ∀ owner ∈ Frame.openSteps below, owner.Sound steps := by
    intro frame below hall owner howner
    obtain ⟨inner, hinner, heq⟩ := List.mem_filterMap.mp howner
    exact hall owner (List.mem_filterMap.mpr ⟨inner, List.mem_cons_of_mem _ hinner, heq⟩)
  cases h with
  | popped => exact htail _ _ hopens
  | passed => exact hopens
  | branched hfound =>
    obtain ⟨_, _, _, _, rfl, -⟩ := Step.eq_branch_of_approach hfound
    have hstep := Work.Within.head (hsound _ List.mem_cons_self)
    exact List.forall_mem_cons.mpr ⟨⟨hstep, rfl⟩, hopens⟩
  | looped hfound =>
    obtain ⟨_, _, rfl, -⟩ := Step.eq_loop_of_approach hfound
    have hstep := Work.Within.head (hsound _ List.mem_cons_self)
    exact List.forall_mem_cons.mpr ⟨⟨hstep, rfl⟩, hopens⟩
  | turned _ => exact hopens

/-- The open steps of a walk over the steps are those at their places. -/
theorem Reaches.opens (hreaches : Reaches setting first walk) (hfirst : first.Within steps)
    (hopens : ∀ owner ∈ Frame.openSteps first.stack, owner.Sound steps) :
    ∀ owner ∈ Frame.openSteps walk.stack, owner.Sound steps := by
  induction hreaches with
  | start => exact hopens
  | turn hreached hturn ih =>
    exact ((moves_turn _).restacks hturn).opens (hreached.within hfirst) ih

end Walk

/-- The outcome of a step around one that has ended the run. -/
structure Outcome.Finished (steps : List Step) (outcome : Outcome) : Prop where
  status : outcome.status = .success
  error : outcome.error = none
  step : ∃ step, Step.stepAt? steps outcome.place = some step ∧
    outcome.IsOf step outcome.place ∧ step.isControl = true

/-- Open steps that are closed without an error leave their outcomes, in their order. -/
theorem Outcome.finished_of_closes {steps : List Step} {owners : List Opened}
    {closed : List Outcome}
    (hcloses : List.Forall₂ (Outcome.Closes .success none) owners closed)
    (hsound : ∀ owner ∈ owners, owner.Sound steps) :
    closed.map Outcome.place = owners.map Opened.place ∧
      ∀ outcome ∈ closed, outcome.Finished steps := by
  induction hcloses with
  | nil => exact ⟨rfl, by simp⟩
  | @cons owner outcome _ _ hclose _ ih =>
    obtain ⟨⟨hstep, hcontrol⟩, hothers⟩ := List.forall_mem_cons.mp hsound
    obtain ⟨hplaces, hfinished⟩ := ih hothers
    obtain ⟨hname, hkind, hplace⟩ := hclose.isOf
    refine ⟨by rw [List.map_cons, List.map_cons, hplace, hplaces],
      List.forall_mem_cons.mpr ⟨⟨hclose.status, hclose.error, owner.step, ?_, ?_, hcontrol⟩,
        hfinished⟩⟩
    · rw [hplace]
      exact hstep
    · exact ⟨hname, hkind, rfl⟩

/-! ### Runs that a step ends -/

/-- The end of a run at a step that ends it: behind the outcome of the step there are only those of
the steps around it, the innermost first, and nothing is done any more but that they are closed. No
request is made, no step is visited, no loop is asked and no name is bound. -/
structure Halt (steps : List Step) (exported : Option (List Text)) (place : Place) (own : Outcome)
    (before : Live σ) (result : RunResult) (after : Live σ) (closed : List Outcome) : Prop where
  status : result.status = .completed
  error : result.error = none
  outcomes : result.outcomes = before.outcomes ++ own :: closed
  around : closed.map Outcome.place = Site.owners place.site
  finished : ∀ outcome ∈ closed, outcome.Finished steps
  environment : after.environment = before.environment
  bindings : result.bindings = before.environment.snapshot exported
  events : ∃ said time later,
    after.events = before.events ++ .visited place :: (said ++ .recorded time own :: later) ∧
    (∀ event ∈ said, event.Remark) ∧
    later.filterMap Event.mark? = closed.map .recorded ∧
    ∀ event ∈ later, event.isAftermath = true

/-- What a step has reported and what is closed behind it make the end of the run. -/
theorem Live.Reports.halt {validated : Workflow.Validated} {host : Host σ} {options : RunParameters}
    {place : Place} {own : Outcome} {live before middle last : Live σ} {closed : List Outcome}
    (hreports : Reports (validated.workflow.setting host options) own place before middle)
    (hcloses : Closes closed middle last) (hquiet : Binds [] middle last)
    (haround : closed.map Outcome.place = Site.owners place.site)
    (hfinished : ∀ outcome ∈ closed, outcome.Finished validated.workflow.steps) :
    ∃ result after,
      Workflow.closing validated host options live (.atEnd .completed) last =
        (.ok result, after) ∧
      Halt validated.workflow.steps options.exported place own before result after closed := by
  obtain ⟨said, time, remarks, rfl, hsaid, hremarks⟩ := hreports
  have hall := hcloses.trans (Workflow.conclude_grows .completed live.time
    (validated.workflow.setting host options) last).closes
  have hkept := (hquiet.quietly (Workflow.conclude_binds .completed live.time
    (validated.workflow.setting host options) last)).environment_eq
  obtain ⟨later, hlater, hmarks, haftermath⟩ := hall.events
  refine ⟨_, _, rfl, ⟨rfl, rfl, ?_, haround, hfinished, hkept,
    congrArg (Environment.snapshot · options.exported) hkept, said, time, remarks ++ later, ?_,
    hsaid, ?_, ?_⟩⟩
  · exact hall.outcomes.trans (by simp)
  · exact hlater.trans (by simp)
  · rw [List.filterMap_append, hmarks, filterMap_mark?_of_unmarked fun event hevent ↦
      (hremarks event hevent).unmarked, List.append_nil, List.nil_append]
  · exact List.forall_mem_append.mpr
      ⟨fun event hremark ↦ (hremarks event hremark).aftermath, haftermath⟩

namespace Workflow

variable {host : Host σ} {options : RunParameters} {document : Datum} {validated : Validated}
  {live before : Live σ}

/-- A step that ends the run and succeeds does so at once, at any depth and in any turn of a loop:
the run is completed, with the outcomes of the steps around it behind its own and with the variables
that there were before it. A step that does not succeed, because its guard does not hold or because
its guard or its reason fails and the failure is tolerated, changes nothing but that its own outcome
is reported, and the run ends as the walk does that comes to what is behind the step. -/
theorem run_stop {header : StepHeader} {reason : Option Text} {rest : List Step} {site : Site}
    {index : Nat} {owner : Option Opened} {below : List Frame}
    (hvalid : validate document = .ok validated)
    (hreaches : Walk.Reaches (validated.workflow.setting host options)
      (firstWalk validated host options live)
      ⟨before, .steps (.act header (.stop reason) :: rest) site index owner :: below⟩)
    (hgoes : before.isCancelled = false) :
    (Step.haltEnding before.scope header reason = .success →
      ∃ own turns result after closed, own.Halts before.scope header reason ⟨site, index⟩ ∧
        run host options document turns live = some (.ok result, after) ∧
        Halt validated.workflow.steps options.exported ⟨site, index⟩ own before result after
          closed) ∧
    (Step.haltEnding before.scope header reason ≠ .success →
      (Step.haltEnding before.scope header reason = .failed → header.onError = some .continue) →
      ∃ own after, own.Halts before.scope header reason ⟨site, index⟩ ∧
        Live.Reports (validated.workflow.setting host options) own ⟨site, index⟩ before after ∧
        (⟨before, .steps (.act header (.stop reason) :: rest) site index owner :: below⟩ :
          Walk σ).turn (validated.workflow.setting host options) =
            .going ⟨after, .steps rest site (index + 1) owner :: below⟩ ∧
        ∀ result,
          (Progress.going (firstWalk validated host options live)).Ends
              (validated.workflow.setting host options) result ↔
            (Progress.going ⟨after, .steps rest site (index + 1) owner :: below⟩).Ends
              (validated.workflow.setting host options) result) := by
  constructor
  · intro hdone
    obtain ⟨own, middle, hown, hreports, hturn⟩ := Walk.turn_stop_done
      (validated.workflow.setting host options) rest site index owner below hgoes hdone
    obtain ⟨closed, hclosed, hcloses⟩ := middle.closeAll_closes
      (validated.workflow.setting host options) .success none
      (.steps rest site (index + 1) owner :: below)
    have hquiet := middle.closeAll_binds (validated.workflow.setting host options) .success none
      (.steps rest site (index + 1) owner :: below)
    have hends := (hreaches.ends_iff _).mpr ((Walk.ends_iff_turn _
      (.ok .completed, middle.closeAll (validated.workflow.setting host options) .success none
        (.steps rest site (index + 1) owner :: below))).mpr ⟨0, by rw [hturn]; rfl⟩)
    obtain ⟨turns, hrun⟩ := run_of_ends hvalid hends
    have hwalk : Walk.Nested (⟨before,
        .steps (.act header (.stop reason) :: rest) site index owner :: below⟩ : Walk σ) :=
      hreaches.nested (.inr ⟨[], .all⟩)
    obtain ⟨found, hnested⟩ := hwalk.resolve_left (by simp)
    obtain rfl := hnested.site_eq
    have haround : (Frame.openSteps (.steps rest found (index + 1) owner :: below)).map
        Opened.place = Site.owners found := hnested.advance.owners
    obtain ⟨hplaces, hfinished⟩ := Outcome.finished_of_closes hclosed
      (hreaches.opens (firstWalk_within validated host options live) (by simp [firstWalk, start,
        Frame.openSteps, Frame.owner?]))
    obtain ⟨result, after, hclosing, hhalt⟩ :=
      hreports.halt hcloses hquiet (hplaces.trans haround) hfinished
    exact ⟨own, turns, result, after, closed, hown, hclosing ▸ hrun, hhalt⟩
  · intro hpassed htolerated
    obtain ⟨own, after, hown, hreports, hturn⟩ := Walk.turn_stop_passed
      (validated.workflow.setting host options) rest site index owner below hgoes hpassed htolerated
    refine ⟨own, after, hown, hreports, hturn, fun result ↦ ?_⟩
    rw [hreaches.ends_iff, Walk.ends_iff_turn, hturn]

/-- A document with two steps that end the run in a branch in a loop. The reason of the first cannot
be filled in, which is tolerated, and the second is held back in the first turn of the loop. -/
def stoppingLoop : Datum :=
  .object [("name", .text "search"), ("version", .text "1"), ("steps", .sequence [
    .object [("name", .text "again"), ("action", .text "loop"),
      ("value", .object [("type", .text "repeat"), ("times", .number 3),
        ("variable", .text "n")] []),
      ("steps", .sequence [
        .object [("name", .text "check"), ("action", .text "if"),
          ("value", .object [("left", .number 1), ("operator", .text "equals"),
            ("right", .number 1)] []),
          ("steps", .sequence [
            .object [("name", .text "try"), ("action", .text "stop"),
              ("value", .text "\x7b\x7b missing \x7d\x7d"), ("on_error", .text "continue")] [],
            .object [("name", .text "leave"), ("action", .text "stop"),
              ("value", .text "at \x7b\x7b n \x7d\x7d"),
              ("condition", .object [("left", .text "\x7b\x7b n \x7d\x7d"),
                ("operator", .text "equals"), ("right", .number 2)] [])] []])] []])] []])] []

/-- How the step comes out that a walk comes to, if it is one that ends the run and the run is not
cancelled; with what happens when the step fails. -/
def halting? (walk : Walk σ) : Option (StepEnding × Option Recovery) :=
  match walk.stack with
  | .steps (.act header (.stop reason) :: _) _ _ _ :: _ =>
    if walk.live.isCancelled then none
    else some (Step.haltEnding walk.live.scope header reason, header.onError)
  | _ => none

theorem eq_of_halting? {walk : Walk σ} {ending : StepEnding} {onError : Option Recovery}
    (h : halting? walk = some (ending, onError)) :
    ∃ header reason rest site index owner below,
      walk = ⟨walk.live, .steps (.act header (.stop reason) :: rest) site index owner :: below⟩ ∧
      walk.live.isCancelled = false ∧
      Step.haltEnding walk.live.scope header reason = ending ∧ header.onError = onError := by
  obtain ⟨live, stack⟩ := walk
  unfold halting? at h
  split at h
  · next header reason rest site index owner below hstack =>
    split at h
    · cases h
    · next hgoes =>
      obtain ⟨hending, honError⟩ := Prod.mk.inj (Option.some.inj h)
      exact ⟨header, reason, rest, site, index, owner, below, congrArg _ hstack,
        by simpa using hgoes, hending, honError⟩
  · cases h

/-- In the first turn the first step fails and is passed by; in the second turn the second one ends
the run. -/
theorem run_stop_stoppingLoop :
    (∃ header reason place before own after setting,
      own.Halts before.scope header reason place ∧ own.status = .failed ∧
      Live.Reports (setting : Setting Unit) own place before after) ∧
    ∃ header reason place before own steps turns result after closed,
      own.Halts before.scope header reason place ∧ own.status = .success ∧
      run refusing (.standard "search") stoppingLoop turns (idle 0 .quiet ()) =
        some (.ok result, after) ∧
      Halt steps none place own before result after closed := by
  have hreached : ((validate stoppingLoop).toOption.map fun validated ↦ [3, 10].map fun turns ↦
      ((firstWalk validated refusing (.standard "search") (idle 0 .quiet ())).ahead
        (validated.workflow.setting refusing (.standard "search")) turns).bind halting?) =
      some [some (.failed, some .continue), some (.success, none)] := by decide +kernel
  obtain ⟨validated, hvalid, hendings⟩ := Option.map_eq_some_iff.mp hreached
  obtain ⟨htried, hleft⟩ := List.cons.inj hendings
  constructor
  · obtain ⟨walk, hahead, hhalting⟩ := Option.bind_eq_some_iff.mp htried
    obtain ⟨header, reason, rest, site, index, owner, below, hwalk, hgoes, hending, honError⟩ :=
      eq_of_halting? hhalting
    rw [hwalk] at hahead
    obtain ⟨own, after, hown, hreports, -⟩ := (run_stop (validate_of_toOption hvalid)
      (Walk.reaches_of_ahead hahead) hgoes).2 (by simp [hending]) fun _ ↦ honError
    exact ⟨header, reason, _, walk.live, own, after, _, hown, hown.status.trans hending, hreports⟩
  · obtain ⟨walk, hahead, hhalting⟩ := Option.bind_eq_some_iff.mp (List.cons.inj hleft).1
    obtain ⟨header, reason, rest, site, index, owner, below, hwalk, hgoes, hending, -⟩ :=
      eq_of_halting? hhalting
    rw [hwalk] at hahead
    obtain ⟨own, turns, result, after, closed, hown, hrun, hhalt⟩ := (run_stop
      (validate_of_toOption hvalid) (Walk.reaches_of_ahead hahead) hgoes).1 hending
    exact ⟨header, reason, _, walk.live, own, _, turns, result, after, closed, hown,
      hown.status.trans hending, hrun, hhalt⟩

end Workflow

end BrowserFlow
