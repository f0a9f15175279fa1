import BrowserFlow.Proofs.Run.Logging
import BrowserFlow.Proofs.Run.Outcomes

/-!
Failures that a run goes on after, and what the log says of them. There are two places
where such a failure is written down: behind the attempts at an action whose policy is to
continue (`Live.perform_excuses`), and where a guard, a condition or the operands of a
loop fail (`Live.stumbled_excuses`). All else that a run does is silent about failures
(`Live.Silent`), so that a turn of a walk writes one entry about each failed outcome that
it records and goes on after, and none where it ends the run (`Walk.Moves.reports`).
Main statement: in every run whose logger shows warnings, these entries are one by one and
in their order about the failed outcomes that the run went on after (`Workflow.run_excuses`).
-/

set_option autoImplicit false
set_option relaxedAutoImplicit false

namespace BrowserFlow

/-! ### What entries show of a failure -/

/-- Whether an entry is about a failure that the run goes on after. What the host has to say may
have the same words, but no details. -/
def LogEntry.isExcuse (entry : LogEntry) : Bool :=
  entry.message == "Step failed, continuing" && !entry.details.isEmpty

/-- Whether an outcome is that of a failure. -/
def Outcome.isFailed (outcome : Outcome) : Bool := outcome.status == .failed

/-- An entry that says of a failed outcome that the run goes on after it: it names the step and the
kind of the error, and the policy of the step is to continue. -/
structure Outcome.Excused (steps : List Step) (outcome : Outcome) (entry : LogEntry) : Prop where
  level : entry.level = .warn
  message : entry.message = "Step failed, continuing"
  step : entry.payload.member "step" = .text outcome.step
  kind : ∃ info, outcome.error = some info ∧
    entry.payload.member "kind" = .text info.kind.name
  policy : ∃ step, Step.stepAt? steps outcome.place = some step ∧
    outcome.IsOf step outcome.place ∧ step.header.policy = .continue

/-- The entry about a failure that is shown where a level is asked for. -/
def Event.excuse? (asked : Level) : Event → Option LogEntry
  | .logged entry => if asked.isShown entry.level && entry.isExcuse then some entry else none
  | _ => none

/-- An entry whose details name the step and the kind of its fault excuses the failure. -/
theorem Outcome.Excused.of_details {steps : List Step} {step : Step} {place : Place}
    {outcome : Outcome} {fault : Fault} {entry : LogEntry}
    (hstep : Step.stepAt? steps place = some step) (hof : outcome.IsOf step place)
    (herror : outcome.error = some fault.info) (hpolicy : step.header.policy = .continue)
    (hlevel : entry.level = .warn) (hmessage : entry.message = "Step failed, continuing")
    (horder : Entries.InOrder entry.details)
    (hname : (("step" : Text), Datum.text step.name) ∈ entry.details)
    (hkind : (("kind" : Text), Datum.text fault.kind.name) ∈ entry.details) :
    outcome.Excused steps entry := by
  obtain ⟨hsame, hkindOf, rfl⟩ := hof
  refine ⟨hlevel, hmessage, ?_, ⟨fault.info, herror, ?_⟩, step, hstep, ⟨hsame, hkindOf, rfl⟩,
    hpolicy⟩
  · rw [hsame]
    exact LogEntry.member_payload_of_mem horder hname
  · exact LogEntry.member_payload_of_mem horder hkind

/-- The outcome of a step whose failure ends the run, or of one that controls others and is closed
behind such a failure. -/
def Outcome.Final (steps : List Step) (outcome : Outcome) : Prop :=
  ∃ step, Step.stepAt? steps outcome.place = some step ∧ outcome.IsOf step outcome.place ∧
    (step.header.policy ≠ .continue ∨ step.isControl = true)

/-! ### Where nothing is written about failures -/

variable {σ : Type} {setting : Setting σ} {asked : Level} {steps : List Step}

namespace Live

variable {live middle after : Live σ}

/-- The entries about failures that a run goes on after, as far as they are shown where a level is
asked for. -/
def excuses (asked : Level) (live : Live σ) : List LogEntry :=
  live.events.filterMap (Event.excuse? asked)

/-- A run that has written no more entries about failures. -/
def Silent (asked : Level) (live after : Live σ) : Prop := after.excuses asked = live.excuses asked

theorem Silent.refl (live : Live σ) : Silent asked live live := rfl

theorem Silent.trans (hfirst : Silent asked live middle) (hlast : Silent asked middle after) :
    Silent asked live after := Eq.trans hlast hfirst

theorem Silent.of_events {news : List Event} (hevents : after.events = live.events ++ news)
    (hnews : news.filterMap (Event.excuse? asked) = []) : Silent asked live after := by
  rw [Silent, excuses, hevents, List.filterMap_append, hnews, List.append_nil, excuses]

theorem note_silent {event : Event} (h : event.excuse? asked = none) (live : Live σ) :
    Silent asked live (live.note event) :=
  .of_events rfl (List.filterMap_cons_none h)

theorem log_silent (bindings : Entries Datum) (level : Level) {message : Text}
    (details : Entries Datum) (hmessage : message ≠ "Step failed, continuing") (live : Live σ) :
    Silent asked live (live.log bindings level message details) :=
  note_silent (by simp [Event.excuse?, LogEntry.isExcuse, hmessage]) live

theorem bindResult_silent (step : Step) (slot : Option Value) (live : Live σ) :
    Silent asked live (live.bindResult step slot).2 := by
  unfold bindResult
  split
  · exact note_silent rfl _
  · exact .refl live

theorem record_silent (setting : Setting σ) (outcome : Outcome) (live : Live σ) :
    Silent asked live (live.record setting outcome) := by
  have hmessage : ("Step finished" : Text) ≠ "Step failed, continuing" := by decide
  rw [record_eq]
  refine .of_events rfl ?_
  rw [List.filterMap_cons_none rfl,
    List.filterMap_cons_none (by simp [Event.excuse?, LogEntry.isExcuse, hmessage]),
    Signal.filterMap_abortion fun _ ↦ rfl]

theorem pause_silent (setting : Setting σ) (milliseconds : Number) (live : Live σ) :
    Silent asked live (live.pause setting milliseconds) := by
  rw [pause_eq]
  refine .of_events rfl ?_
  rw [List.filterMap_cons_none rfl, Signal.filterMap_abortion fun _ ↦ rfl]

theorem takeTurn_silent (setting : Setting σ) (step : Step) (turn : Turn) (live : Live σ) :
    Silent asked live (live.takeTurn setting step turn) := by
  have hstopped : ∀ (details : Entries Datum) (live : Live σ), Silent asked live
      (live.log setting.bindings .warn "Loop stopped at max_iterations" details) :=
    fun details live ↦ log_silent _ _ details (by decide) live
  have hbound : ∀ name slot, Silent asked live (live.bind name slot) :=
    fun name slot ↦ note_silent rfl _
  unfold takeTurn
  rcases turn.binding with _ | ⟨name, value⟩ <;> rcases turn.limit with _ | limit
  · exact .refl live
  · exact hstopped _ live
  · exact hbound name (some value)
  · exact (hbound name (some value)).trans (hstopped _ _)

theorem finishLoop_silent (owner : Opened) (turn : Turn) (live : Live σ) :
    Silent asked live (live.finishLoop setting owner turn) :=
  log_silent _ _ _ (by decide) live

theorem closeAll_silent (status : StepEnding) (fault : Option Fault) (stack : List Frame)
    (live : Live σ) : Silent asked live (live.closeAll setting status fault stack) := by
  unfold closeAll
  generalize stack.filterMap Frame.owner? = owners
  induction owners generalizing live with
  | nil => exact .refl live
  | cons owner rest ih => exact (record_silent setting _ live).trans (ih _)

/-! ### Attempts -/

/-- What the host says is no entry about a failure: it has no details. -/
theorem attempt_silent {header : StepHeader} {task : Task} {answer : Except Datum (Option Value)}
    (h : live.attempt setting header task = some (answer, after)) : Silent asked live after := by
  rcases attempt_cases h with ⟨call, _, -, hask⟩ | ⟨-, ⟨name, slot, rfl⟩ | rfl⟩
  · obtain ⟨now, rfl⟩ := ask_eq hask
    have hsaid : ∀ time remarks,
        (Remark.events time remarks).filterMap (Event.excuse? asked) = [] := by
      refine fun time remarks ↦ List.filterMap_eq_nil_iff.mpr fun event hevent ↦ ?_
      obtain ⟨remark, -, rfl⟩ := List.mem_map.mp hevent
      simp [Event.excuse?, LogEntry.isExcuse]
    refine .of_events rfl ?_
    rw [List.filterMap_cons_none rfl, List.filterMap_append, hsaid,
      Signal.filterMap_abortion fun _ ↦ rfl, List.append_nil]
  · exact note_silent rfl _
  · exact .refl after

/-- While an action is attempted nothing is written about a failure that the run goes on after;
this is done behind the attempts. -/
theorem carryOut_silent {header : StepHeader} {action : Action}
    {result : Except Failure (Attempted (Option Value))}
    (h : Policy.carryOut (surroundings setting) header setting.retry
      (undertaking setting header action live) live = some (result, after)) :
    ∃ middle, Silent asked live middle ∧
      after = Policy.signOff (surroundings setting) header result middle :=
  Policy.carryOut_signsOff (R := Silent asked) Silent.refl Silent.trans
    (fun _ _ _ live ↦ log_silent _ _ _ (by decide) live) (pause_silent setting)
    (fun _ _ _ _ _ hattempt ↦ attempt_silent hattempt) h

theorem conclude_silent (step : Step) (place : Place) (startedAt : Number)
    (attempted : Attempted (Option Value)) (live : Live σ) :
    Silent asked live (live.conclude setting step place startedAt attempted).2 := by
  cases attempted with
  | failed count fault ends =>
    cases ends with
    | true => exact record_silent setting _ live
    | false => exact (bindResult_silent step (some .null) live).trans (record_silent setting _ _)
  | done count value =>
    have hrecorded : Silent asked live ((live.bindResult step value).2.record setting
        ((live.bindResult step value).2.outcome step place startedAt
          (if count > 1 then .retried else .success) count none (live.bindResult step value).1)) :=
      (bindResult_silent step value live).trans (record_silent setting _ _)
    unfold conclude
    dsimp only
    split
    · exact hrecorded
    · exact hrecorded.trans (log_silent _ _ _ (by decide) _)

end Live

/-! ### Where a failure is excused -/

/-- A run that has recorded the outcome of a step: an entry excuses it exactly where the step has
failed and the run goes on. -/
inductive Live.Excuses (asked : Level) (steps : List Step) (own : Outcome) (live after : Live σ) :
    Passage → Prop
  /-- The step has failed, and the run goes on. -/
  | excused {entry : LogEntry} (houtcomes : after.outcomes = live.outcomes ++ [own])
      (hfailed : own.isFailed = true)
      (hwritten : after.excuses asked = live.excuses asked ++ [entry])
      (hexcused : own.Excused steps entry) : Excuses asked steps own live after .through
  /-- The step has not failed. -/
  | passed {passage : Passage} (houtcomes : after.outcomes = live.outcomes ++ [own])
      (hpassed : own.isFailed = false) (hsilent : Silent asked live after) :
      Excuses asked steps own live after passage
  /-- The step has failed, and the run is over. -/
  | final {passage : Passage} (houtcomes : after.outcomes = live.outcomes ++ [own])
      (hends : passage ≠ .through) (hfinal : own.Final steps) (hsilent : Silent asked live after) :
      Excuses asked steps own live after passage

namespace Live

variable {live middle after : Live σ} {passage : Passage} {own : Outcome}

theorem Excuses.of_silent (h : Excuses asked steps own middle after passage)
    (hsilent : Silent asked live middle) (houtcomes : middle.outcomes = live.outcomes) :
    Excuses asked steps own live after passage := by
  cases h with
  | excused hrecorded hfailed hwritten hexcused =>
    exact .excused (houtcomes ▸ hrecorded) hfailed (hsilent ▸ hwritten) hexcused
  | passed hrecorded hpassed hlast =>
    exact .passed (houtcomes ▸ hrecorded) hpassed (hsilent.trans hlast)
  | final hrecorded hends hfinal hlast =>
    exact .final (houtcomes ▸ hrecorded) hends hfinal (hsilent.trans hlast)

/-- An entry about a failure is shown where warnings are. -/
theorem log_excuses (hasked : asked.isShown .warn = true) (bindings details : Entries Datum)
    (hdetails : details.isEmpty = false) (live : Live σ) :
    (live.log bindings .warn "Step failed, continuing" details).excuses asked =
      live.excuses asked ++ [⟨live.time, .warn, "Step failed, continuing", bindings, details⟩] := by
  rw [excuses, log, note, List.filterMap_append, excuses]
  simp [Event.excuse?, LogEntry.isExcuse, hasked, hdetails]

/-- A guard, a condition or the operands of a loop that fail are excused by the run itself. -/
theorem stumbled_excuses (setting : Setting σ) (hasked : asked.isShown .warn = true)
    {owner : Opened} (hstep : Step.stepAt? steps owner.place = some owner.step) (fault : Fault)
    (live : Live σ) :
    ∃ own, Excuses asked steps own live (live.stumbled setting owner fault).2
      (live.stumbled setting owner fault).1 := by
  obtain ⟨own, hrecords, hof, -, herror, -, hstatus, -⟩ :=
    stumbled_reports setting owner fault live
  have hfailed : own.isFailed = true := by rw [Outcome.isFailed, hstatus]; rfl
  refine ⟨own, ?_⟩
  by_cases hpolicy : owner.step.header.policy = .continue
  · have hthrough : (live.stumbled setting owner fault).1 = .through := by
      simp [stumbled, stumble, hpolicy]
    have hsilent : Silent asked
        (live.log setting.bindings .warn "Step failed, continuing"
          [("step", .text owner.step.name), ("kind", .text fault.kind.name),
            ("error", .failure (.fault fault))]) (live.stumbled setting owner fault).2 := by
      unfold stumbled stumble
      simp only [if_pos hpolicy]
      exact (bindResult_silent _ _ _).trans (record_silent setting _ _)
    rw [hthrough]
    refine .excused hrecords.outcomes hfailed
      (Eq.trans hsilent (log_excuses hasked _ _ rfl live))
      (.of_details hstep hof herror hpolicy rfl rfl ?_ ?_ ?_)
    · exact .of_keys ["step", "kind", "error"] rfl (by decide)
    · simp
    · simp
  · have hends : (live.stumbled setting owner fault).1 ≠ .through := by
      simp [stumbled, stumble, hpolicy]
    refine .final hrecords.outcomes hends
      ⟨owner.step, hof.2.2 ▸ hstep, ⟨hof.1, hof.2.1, rfl⟩, .inl hpolicy⟩ ?_
    unfold stumbled stumble
    simp only [if_neg hpolicy]
    exact record_silent setting _ live

/-- An action that fails is excused by what carries it out under its policy. -/
theorem perform_excuses (hasked : asked.isShown .warn = true) {header : StepHeader}
    {action : Action} {place : Place} {startedAt : Number} {ended : ActionEnd}
    (hstep : Step.stepAt? steps place = some (.act header action))
    (h : live.perform setting header action place startedAt = some (.ok ended, after)) :
    ∃ own, Excuses asked steps own live after (ended.passage after) := by
  obtain ⟨own, hrecords, hof, -, attempted, middle, hcarried, herror, -, hstatus, -⟩ :=
    perform_reports h
  obtain ⟨found, behind, hfound, hended, rfl⟩ := perform_cases h
  obtain ⟨hresult, rfl⟩ := Prod.mk.inj (Option.some.inj (hcarried.symm.trans hfound))
  obtain rfl := Except.ok.inj hresult
  obtain rfl := Except.ok.inj hended
  obtain ⟨before, hsilent, hsignOff⟩ := carryOut_silent hcarried
  have hconcluded : Silent asked middle
      (middle.conclude setting (.act header action) place startedAt attempted).2 :=
    conclude_silent _ _ _ _ middle
  refine ⟨own, ?_⟩
  cases attempted with
  | done count value =>
    obtain rfl : middle = before := hsignOff
    refine .passed hrecords.outcomes ?_ (hsilent.trans hconcluded)
    rw [Outcome.isFailed, hstatus, Attempted.ending]
    split <;> rfl
  | failed count fault ends =>
    have hfailed : own.isFailed = true := by rw [Outcome.isFailed, hstatus]; rfl
    have hpolicy := Policy.ends_of_carryOut hcarried
    cases ends with
    | true =>
      have hother : header.policy ≠ .continue := by simpa using hpolicy
      obtain rfl : middle = before := hsignOff
      refine .final hrecords.outcomes ?_ ⟨_, hof.2.2 ▸ hstep, ⟨hof.1, hof.2.1, rfl⟩, .inl hother⟩
        (hsilent.trans hconcluded)
      simp [conclude, ActionEnd.passage]
    | false =>
      have hcontinue : header.policy = .continue := by simpa using hpolicy
      obtain rfl : middle = before.log [] .warn "Step failed, continuing"
        (Policy.continuedDetails header.name count fault) := hsignOff
      have hwritten := log_excuses hasked []
        (Policy.continuedDetails header.name count fault) rfl before
      rw [hsilent] at hwritten
      refine .excused hrecords.outcomes hfailed (Eq.trans hconcluded hwritten)
        (.of_details hstep hof herror hcontinue rfl rfl ?_ ?_ ?_)
      · exact .of_keys ["step", "attempts", "kind", "error"] rfl (by decide)
      · simp [Policy.continuedDetails, Step.name, Step.header]
      · simp [Policy.continuedDetails]

/-! ### What has been written behind a turn -/

/-- A run that has recorded outcomes, and has written an entry about each failure among them, in
their order. -/
def Explains (asked : Level) (steps : List Step) (live after : Live σ) : Prop :=
  ∃ news entries, after.outcomes = live.outcomes ++ news ∧
    after.excuses asked = live.excuses asked ++ entries ∧
    List.Forall₂ (Outcome.Excused steps) (news.filter Outcome.isFailed) entries

theorem Explains.trans (hfirst : Explains asked steps live middle)
    (hlast : Explains asked steps middle after) : Explains asked steps live after := by
  obtain ⟨first, early, hfirstOutcomes, hearly, hfirst⟩ := hfirst
  obtain ⟨last, late, hlastOutcomes, hlate, hlast⟩ := hlast
  refine ⟨first ++ last, early ++ late, ?_, ?_, ?_⟩
  · rw [hlastOutcomes, hfirstOutcomes, List.append_assoc]
  · rw [hlate, hearly, List.append_assoc]
  · rw [List.filter_append]
    exact List.rel_append hfirst hlast

theorem Silent.explains (hsilent : Silent asked live after)
    (houtcomes : after.outcomes = live.outcomes) : Explains asked steps live after :=
  ⟨[], [], by rw [houtcomes, List.append_nil], by rw [hsilent, List.append_nil], .nil⟩

/-- An outcome that is no failure needs no entry. -/
theorem Silent.explains_passed (hsilent : Silent asked live after)
    (houtcomes : after.outcomes = live.outcomes ++ [own]) (hpassed : own.isFailed = false) :
    Explains asked steps live after := by
  refine ⟨[own], [], houtcomes, by rw [hsilent, List.append_nil], ?_⟩
  rw [List.filter_cons_of_neg (by simp [hpassed])]
  exact .nil

theorem Excuses.explains (h : Excuses asked steps own live after .through) :
    Explains asked steps live after := by
  cases h with
  | excused houtcomes hfailed hwritten hexcused =>
    refine ⟨[own], _, houtcomes, hwritten, ?_⟩
    rw [List.filter_cons_of_pos hfailed]
    exact .cons hexcused .nil
  | passed houtcomes hpassed hsilent => exact hsilent.explains_passed houtcomes hpassed
  | final _ hends => exact absurd rfl hends

/-- A run that is over: it has written nothing about the failures among its last outcomes, which
are those of steps that ended it or were closed behind them. -/
structure Finishes (asked : Level) (steps : List Step) (live after : Live σ) : Prop where
  silent : Silent asked live after
  outcomes : Gains (fun outcome ↦ outcome.isFailed = true → outcome.Final steps) live after

/-- The open steps that are closed at the end of a run are not excused. -/
theorem closeAll_finishes (status : StepEnding) (fault : Option Fault) {stack : List Frame}
    (hopens : ∀ owner ∈ Frame.openSteps stack, owner.Sound steps) (live : Live σ) :
    Finishes asked steps live (live.closeAll setting status fault stack) := by
  refine ⟨closeAll_silent status fault stack live, closeAll_gains stack ?_ live⟩
  intro owner howner live _
  obtain ⟨hstep, hcontrol⟩ := hopens owner howner
  exact ⟨owner.step, hstep, ⟨rfl, rfl, rfl⟩, .inr hcontrol⟩

theorem Excuses.finishes (h : Excuses asked steps own live middle passage)
    (hends : passage ≠ .through) (hlast : Finishes asked steps middle after) :
    Finishes asked steps live after := by
  cases h with
  | excused => exact absurd rfl hends
  | passed houtcomes hpassed hsilent =>
    exact ⟨hsilent.trans hlast.silent, .trans (.of_append houtcomes
      fun hfailed ↦ by simp [hpassed] at hfailed) hlast.outcomes⟩
  | final houtcomes _ hfinal hsilent =>
    exact ⟨hsilent.trans hlast.silent, .trans (.of_append houtcomes fun _ ↦ hfinal) hlast.outcomes⟩

/-- A run whose entries are about the failures among its outcomes, one about each and in their
order. -/
def Accounts (asked : Level) (steps : List Step) (live : Live σ) : Prop :=
  List.Forall₂ (Outcome.Excused steps) (live.outcomes.filter Outcome.isFailed)
    (live.excuses asked)

theorem Accounts.of_explains (h : Accounts asked steps live)
    (hnext : Explains asked steps live after) : Accounts asked steps after := by
  obtain ⟨news, entries, houtcomes, hwritten, hnews⟩ := hnext
  rw [Accounts, houtcomes, hwritten, List.filter_append]
  exact List.rel_append h hnews

end Live

/-! ### Turns -/

namespace Walk

variable {walk first : Walk σ} {live after : Live σ}

/-- What a turn writes about failures: each that it goes on after has its entry, and those at the
end of the run have none. -/
def Reports (asked : Level) (steps : List Step) (live : Live σ) : Progress σ → Prop
  | .going next => live.Explains asked steps next.live
  | .ended _ after => live.Finishes asked steps after
  | .broken _ _ => True
  | .stuck => True

section

variable {stack : List Frame} (hopens : ∀ owner ∈ Frame.openSteps stack, owner.Sound steps)
include hopens

/-- A run that is found cancelled closes all that is still open. -/
theorem reports_atEnd (ending : Ending) (live : Live σ) :
    Reports asked steps live ((Passage.atEnd ending).progress setting ⟨live, stack⟩) :=
  Live.closeAll_finishes _ _ hopens live

/-- Behind an outcome the walk goes on, or closes all that is still open. -/
theorem reports_progress {own : Outcome} {passage : Passage}
    (h : live.Excuses asked steps own after passage) :
    Reports asked steps live (passage.progress setting ⟨after, stack⟩) := by
  cases passage with
  | through => exact h.explains
  | atEnd ending =>
    exact h.finishes Passage.noConfusion (Live.closeAll_finishes _ _ hopens after)

end

/-- An open step that is closed behind its body has not failed. -/
theorem leave_explains (owner : Opened) (live : Live σ) :
    live.Explains asked steps (live.leave setting owner .through) :=
  (Live.record_silent setting _ live).explains_passed (Live.record_outcomes _ _ _) rfl

/-- What a turn of a walk over the steps writes about failures. -/
theorem Moves.reports {progress : Progress σ} (h : Moves setting walk progress)
    (hasked : asked.isShown .warn = true) (hwithin : walk.Within steps)
    (hopens : ∀ owner ∈ Frame.openSteps walk.stack, owner.Sound steps) :
    Reports asked steps walk.live progress := by
  cases h with
  | @done live => exact ⟨.refl live, .of_eq rfl⟩
  | stuck => trivial
  | @left live _ _ owner _ =>
    cases owner with
    | none => exact (Live.Silent.refl live).explains rfl
    | some opened => exact leave_explains opened live
  | cancelled => exact reports_atEnd hopens _ _
  | halted => exact reports_atEnd hopens _ _
  | @skipped live step _ site index _ _ _ _ =>
    have hsilent : Live.Silent asked live
        ((live.enter ⟨site, index⟩).record setting (step.passedOver ⟨site, index⟩)) :=
      (Live.note_silent rfl live).trans (Live.record_silent setting _ _)
    exact hsilent.explains_passed (Live.record_outcomes _ _ _) rfl
  | @stumbled live step _ site index _ _ fault _ _ =>
    have hstep := Work.Within.head (hwithin _ List.mem_cons_self)
    have howner : Step.stepAt? steps (live.opened step ⟨site, index⟩).place = some step := hstep
    obtain ⟨own, hexcuses⟩ :=
      Live.stumbled_excuses setting hasked howner fault (live.enter ⟨site, index⟩)
    refine reports_progress ?_ (hexcuses.of_silent (Live.note_silent rfl live) rfl)
    exact hopens
  | @acted live _ step _ site index _ _ _ _ _ _ hfound hperform =>
    obtain rfl := Step.eq_act_of_approach hfound
    have hstep := Work.Within.head (hwithin _ List.mem_cons_self)
    obtain ⟨own, hexcuses⟩ := Live.perform_excuses hasked hstep hperform
    refine reports_progress ?_ (hexcuses.of_silent (Live.note_silent rfl live) rfl)
    exact hopens
  | @branched live => exact (Live.note_silent rfl live).explains rfl
  | @looped live => exact (Live.note_silent rfl live).explains rfl
  | @refused live owner _ _ _ fault _ _ =>
    obtain ⟨hin, -⟩ := hwithin _ List.mem_cons_self
    obtain ⟨own, hexcuses⟩ :=
      Live.stumbled_excuses setting hasked hin.1 fault (live.askLoop owner)
    exact reports_progress (List.forall_mem_cons.mp hopens).2
      (hexcuses.of_silent (Live.note_silent rfl live) rfl)
  | @turned live owner _ _ _ turn _ _ _ =>
    have hsilent : Live.Silent asked live
        ((live.askLoop owner).takeTurn setting owner.step turn) :=
      (Live.note_silent rfl live).trans (Live.takeTurn_silent setting owner.step turn _)
    exact hsilent.explains (live.startTurn_grows setting owner turn).outcomes
  | @finished live owner _ _ _ turn _ _ _ =>
    have hsilent : Live.Silent asked live
        (((live.askLoop owner).takeTurn setting owner.step turn).finishLoop setting owner turn) :=
      ((Live.note_silent rfl live).trans (Live.takeTurn_silent setting owner.step turn _)).trans
        (Live.finishLoop_silent owner turn _)
    have hgrown := (live.startTurn_grows setting owner turn).trans
      (Live.finishLoop_grows setting owner turn _).unmarked
    exact (hsilent.explains hgrown.outcomes).trans (leave_explains owner _)

/-- Where a walk has an entry about each failure, the walks that it reaches have one. -/
theorem Reaches.accounts (hreaches : Reaches setting first walk)
    (hasked : asked.isShown .warn = true) (hfirst : first.Within steps)
    (hopens : ∀ owner ∈ Frame.openSteps first.stack, owner.Sound steps)
    (haccounts : first.live.Accounts asked steps) : walk.live.Accounts asked steps := by
  induction hreaches with
  | start => exact haccounts
  | @turn walk next hreached hturn ih =>
    have hreports : Reports asked steps walk.live (walk.turn setting) :=
      (moves_turn walk).reports hasked (hreached.within hfirst) (hreached.opens hfirst hopens)
    rw [hturn] at hreports
    exact ih.of_explains hreports

end Walk

/-! ### Runs -/

namespace Workflow

variable {host : Host σ} {options : RunParameters} {document : Datum} {validated : Validated}
  {live : Live σ}

theorem opening_silent (validated : Validated) (host : Host σ) (options : RunParameters)
    (live : Live σ) : live.Silent asked (opening validated host options live) := by
  have hwarned : ∀ warnings : List Text, ∀ live : Live σ, live.Silent asked
      (warnings.foldl (fun l warning ↦ l.log (validated.workflow.setting host options).bindings
        .warn "Workflow warning" [("warning", .text warning)]) live) := by
    intro warnings
    induction warnings with
    | nil => exact .refl
    | cons warning rest ih =>
      exact fun live ↦ (Live.log_silent _ _ _ (by decide) live).trans (ih _)
  have hannounced : live.Silent asked
      (announce validated (validated.workflow.setting host options) live) :=
    (hwarned validated.warnings live).trans (Live.log_silent _ _ _ (by decide) _)
  exact hannounced

theorem conclude_silent (ending : Ending) (startedAt : Number) (setting : Setting σ)
    (live : Live σ) : live.Silent asked (conclude ending startedAt setting live) := by
  unfold conclude
  dsimp only
  split
  · exact (Live.log_silent _ _ _ (by decide) live).trans (Live.log_silent _ _ _ (by decide) _)
  · exact Live.log_silent _ _ _ (by decide) live

/-- Each failure that a run goes on after is logged once, where warnings are shown. On the way of a
run its entries about failures are, one by one and in their order, about the failed outcomes so
far: each names the step, whose policy is to continue, and the kind of the error. When the run is
over, there are none but these: the outcomes of its last turn have no entry, and the failed ones
among them are of a step whose policy is another, or of steps that were closed behind it. -/
theorem run_excuses (hvalid : validate document = .ok validated) (hfresh : live.IsFresh)
    (hasked : asked.isShown .warn = true) :
    (∀ walk, Walk.Reaches (validated.workflow.setting host options)
        (firstWalk validated host options live) walk →
      walk.live.Accounts asked validated.workflow.steps) ∧
    ∀ turns result after, run host options document turns live = some (.ok result, after) →
      ∃ last ending behind final,
        Walk.Reaches (validated.workflow.setting host options)
          (firstWalk validated host options live) last ∧
        last.turn (validated.workflow.setting host options) = .ended ending behind ∧
        result.outcomes = last.live.outcomes ++ final ∧
        List.Forall₂ (Outcome.Excused validated.workflow.steps)
          (last.live.outcomes.filter Outcome.isFailed) (after.excuses asked) ∧
        ∀ outcome ∈ final, outcome.isFailed = true →
          outcome.Final validated.workflow.steps := by
  have hfirst := firstWalk_within validated host options live
  have hopens : ∀ owner ∈ Frame.openSteps (firstWalk validated host options live).stack,
      owner.Sound validated.workflow.steps := fun owner howner ↦ by cases howner
  have hopened : (firstWalk validated host options live).live.Accounts asked
      validated.workflow.steps := by
    have hsilent : live.Silent asked (firstWalk validated host options live).live :=
      opening_silent validated host options live
    have houtcomes : (firstWalk validated host options live).live.outcomes = [] :=
      (opening_grows validated host options live).outcomes.trans hfresh.outcomes
    have hnone : live.excuses asked = [] := by rw [Live.excuses, hfresh.events]; rfl
    rw [Live.Accounts, houtcomes, hsilent, hnone]
    exact .nil
  have haccounts : ∀ walk, Walk.Reaches (validated.workflow.setting host options)
      (firstWalk validated host options live) walk →
      walk.live.Accounts asked validated.workflow.steps :=
    fun walk hreaches ↦ hreaches.accounts hasked hfirst hopens hopened
  refine ⟨haccounts, fun turns result after hrun ↦ ?_⟩
  obtain ⟨last, ending, behind, hreaches, hturn, rfl, hresult⟩ := reached_of_run hvalid hrun
  have hreports : Walk.Reports asked validated.workflow.steps last.live
      (last.turn (validated.workflow.setting host options)) :=
    (Walk.moves_turn last).reports hasked (hreaches.within hfirst) (hreaches.opens hfirst hopens)
  rw [hturn] at hreports
  obtain ⟨hsilent, final, houtcomes, hfinal⟩ := hreports
  refine ⟨last, ending, behind, final, hreaches, hturn, ?_, ?_, hfinal⟩
  · obtain rfl := Except.ok.inj hresult
    rw [result, (conclude_grows ending live.time _ behind).outcomes, houtcomes]
  · have hwritten : last.live.Silent asked (conclude ending live.time
        (validated.workflow.setting host options) behind) :=
      hsilent.trans (conclude_silent ending live.time _ behind)
    rw [hwritten]
    exact haccounts last hreaches

/-- Of the three failures of the clicking loop one is logged: the run goes on behind the first
click, the second one ends it, and the loop is closed behind this one. -/
theorem run_excuses_clickingLoop :
    ∃ validated result after last final, validate clickingLoop = .ok validated ∧
      run refusing (.standard "clicks") clickingLoop 5 (idle 0 .quiet ()) =
        some (.ok result, after) ∧
      result.outcomes.map Outcome.status = [.failed, .failed, .failed] ∧
      (after.excuses .warn).length = 1 ∧ result.outcomes = last ++ final ∧
      List.Forall₂ (Outcome.Excused validated.workflow.steps) (last.filter Outcome.isFailed)
        (after.excuses .warn) ∧
      ∀ outcome ∈ final, outcome.isFailed = true → outcome.Final validated.workflow.steps := by
  have hreturned : (returned? (run refusing (.standard "clicks") clickingLoop 5
      (idle 0 .quiet ()))).map (fun found ↦ (found.1.outcomes.map Outcome.status,
        (found.2.excuses .warn).length)) = some ([.failed, .failed, .failed], 1) := by
    decide +kernel
  obtain ⟨⟨result, after⟩, hfound, hshape⟩ := Option.map_eq_some_iff.mp hreturned
  obtain ⟨hstatus, hlength⟩ := Prod.mk.inj hshape
  have hrun := eq_some_of_returned? hfound
  obtain ⟨validated, _, _, hvalid, -, -, -⟩ := carried_of_run hrun
  have hasked : Level.warn.isShown .warn = true := by decide
  obtain ⟨last, _, _, final, -, -, houtcomes, hexcused, hfinal⟩ :=
    (run_excuses hvalid ⟨rfl, rfl⟩ hasked).2 5 result after hrun
  exact ⟨validated, result, after, last.live.outcomes, final, hvalid, hrun, hstatus, hlength,
    houtcomes, hexcused, hfinal⟩

end Workflow

end BrowserFlow
