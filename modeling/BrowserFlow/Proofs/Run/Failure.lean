import BrowserFlow.Proofs.Run.Trace

/-!
How runs fail. A failure is tolerated when the policy of its step is to continue.
While a run goes on it only tolerates; when it fails, it has tolerated every
failure up to that of one step, the culprit, and behind it nothing happens but
that the open steps around the culprit are closed, the innermost first, with the
same error (`Unwinds`). Main statement: the status of a result says which of the
two it was, and a run that is never cancelled has no third
(`Workflow.run_failure`).
-/

set_option autoImplicit false
set_option relaxedAutoImplicit false

namespace BrowserFlow

variable {σ : Type} {steps : List Step} {site : Site} {error : FaultReport}

/-! ### Outcomes of failed runs -/

/-- An outcome that is a failure only where the policy of its step is to continue. -/
def Outcome.Tolerated (steps : List Step) (outcome : Outcome) : Prop :=
  outcome.status = .failed → ∃ step, Step.stepAt? steps outcome.place = some step ∧
    outcome.IsOf step outcome.place ∧ step.header.onError = some .continue

/-- The outcome of a step whose failure ends the run. -/
structure Outcome.Blamed (steps : List Step) (error : FaultReport) (outcome : Outcome) : Prop where
  status : outcome.status = .failed
  error : outcome.error = some error
  step : ∃ step, Step.stepAt? steps outcome.place = some step ∧
    outcome.IsOf step outcome.place ∧ step.header.onError ≠ some .continue

/-- The outcome of an open step that is closed because of a failure within it. -/
structure Outcome.Dragged (steps : List Step) (error : FaultReport) (outcome : Outcome) :
    Prop where
  status : outcome.status = .failed
  error : outcome.error = some error
  step : ∃ step, Step.stepAt? steps outcome.place = some step ∧
    outcome.IsOf step outcome.place ∧ step.isControl = true

/-- A culprit and the steps closed behind it: up to a site they are exactly those around the
culprit, the innermost first. -/
structure Unwinds (steps : List Step) (site : Site) (error : FaultReport) (culprit : Outcome)
    (closed : List Outcome) : Prop where
  blamed : culprit.Blamed steps error
  dragged : ∀ outcome ∈ closed, outcome.Dragged steps error
  around : Site.owners culprit.place.site = closed.map Outcome.place ++ Site.owners site

theorem Unwinds.close {place : Place} {side : Side} {culprit outcome : Outcome}
    {closed : List Outcome} (h : Unwinds steps (place.list side) error culprit closed)
    (hplace : outcome.place = place) (hdragged : outcome.Dragged steps error) :
    Unwinds steps place.site error culprit (closed ++ [outcome]) := by
  refine ⟨h.blamed, ?_, ?_⟩
  · intro other hother
    rcases List.mem_append.mp hother with hclosed | hlast
    · exact h.dragged other hclosed
    · rw [List.mem_singleton.mp hlast]
      exact hdragged
  · rw [h.around, Site.owners_list, List.map_append, List.append_assoc, ← hplace]
    rfl

namespace StepHeader

theorem policy_eq_continue_iff (header : StepHeader) :
    header.policy = .continue ↔ header.onError = some .continue := by
  unfold policy
  cases header.onError <;> simp

end StepHeader

/-! ### Runs that fail -/

/-- Whether an event can follow a failure: an entry of the log, a cancellation or an outcome. -/
def Event.isAftermath : Event → Bool
  | .recorded _ _ => true
  | event => event.isRemark

theorem Event.Remark.aftermath {event : Event} (h : event.Remark) : event.isAftermath = true := by
  cases event <;> simp_all [Event.Remark, Event.isRemark, Event.isAftermath]

namespace Live

/-- A run that has only tolerated failures. -/
structure Tolerates (steps : List Step) (live after : Live σ) : Prop where
  outcomes : ∃ news, after.outcomes = live.outcomes ++ news ∧
    ∀ outcome ∈ news, outcome.Tolerated steps
  events : ∃ news, after.events = live.events ++ news

/-- A run that has failed with an error: behind the outcome of the culprit there is nothing but
the aftermath. -/
def Fails (steps : List Step) (site : Site) (error : FaultReport) (live after : Live σ) : Prop :=
  ∃ before culprit closed, after.outcomes = live.outcomes ++ (before ++ culprit :: closed) ∧
    (∀ outcome ∈ before, outcome.Tolerated steps) ∧
    Unwinds steps site error culprit closed ∧
    ∃ earlier time later,
      after.events = live.events ++ (earlier ++ .recorded time culprit :: later) ∧
      later.filterMap Event.mark? = closed.map .recorded ∧
      ∀ event ∈ later, event.isAftermath = true

variable {kind : Event → Prop} {live middle after : Live σ} {outcome : Outcome}

theorem Tolerates.refl (live : Live σ) : Tolerates steps live live :=
  ⟨⟨[], by simp, by simp⟩, ⟨[], by simp⟩⟩

theorem Tolerates.trans (hfirst : Tolerates steps live middle)
    (hlast : Tolerates steps middle after) : Tolerates steps live after := by
  obtain ⟨⟨first, hfirstOutcomes, hfirstTolerated⟩, ⟨early, hearly⟩⟩ := hfirst
  obtain ⟨⟨last, hlastOutcomes, hlastTolerated⟩, ⟨late, hlate⟩⟩ := hlast
  refine ⟨⟨first ++ last, ?_, ?_⟩, ⟨early ++ late, ?_⟩⟩
  · rw [hlastOutcomes, hfirstOutcomes, List.append_assoc]
  · intro outcome houtcome
    rcases List.mem_append.mp houtcome with h | h
    · exact hfirstTolerated outcome h
    · exact hlastTolerated outcome h
  · rw [hlate, hearly, List.append_assoc]

theorem enter_tolerates (place : Place) (live : Live σ) :
    Tolerates steps live (live.enter place) :=
  ⟨⟨[], by simp [enter, note], by simp⟩, ⟨[.visited place], rfl⟩⟩

theorem Grows.tolerates (h : Grows kind live after) : Tolerates steps live after := by
  obtain ⟨news, hnews, -⟩ := h.events
  exact ⟨⟨[], by simp [h.outcomes], by simp⟩, ⟨news, hnews⟩⟩

theorem Records.tolerates (h : Records kind outcome live after)
    (htolerated : outcome.Tolerated steps) : Tolerates steps live after := by
  obtain ⟨before, time, later, hevents, -, -⟩ := h.events
  exact ⟨⟨[outcome], h.outcomes, by simpa using htolerated⟩, ⟨_, hevents⟩⟩

theorem Records.fails (h : Records kind outcome live after) (hblamed : outcome.Blamed steps error) :
    Fails steps outcome.place.site error live after := by
  obtain ⟨before, time, later, hevents, -, hlater⟩ := h.events
  refine ⟨[], outcome, [], h.outcomes, by simp, ⟨hblamed, by simp, rfl⟩, before, time, later,
    hevents, ?_, ?_⟩
  · exact filterMap_mark?_of_unmarked fun event hevent ↦ (hlater event hevent).unmarked
  · intro event hevent
    exact (hlater event hevent).aftermath

theorem Tolerates.fails (hfirst : Tolerates steps live middle)
    (hlast : Fails steps site error middle after) : Fails steps site error live after := by
  obtain ⟨⟨first, hfirstOutcomes, hfirstTolerated⟩, ⟨early, hearly⟩⟩ := hfirst
  obtain ⟨before, culprit, closed, houtcomes, htolerated, hunwinds, earlier, time, later, hevents,
    hmarks, haftermath⟩ := hlast
  refine ⟨first ++ before, culprit, closed, ?_, ?_, hunwinds, early ++ earlier, time, later, ?_,
    hmarks, haftermath⟩
  · rw [houtcomes, hfirstOutcomes]
    simp
  · intro outcome houtcome
    rcases List.mem_append.mp houtcome with h | h
    · exact hfirstTolerated outcome h
    · exact htolerated outcome h
  · rw [hevents, hearly]
    simp

/-- An open step around the culprit is closed. -/
theorem Fails.close {place : Place} {side : Side}
    (hfails : Fails steps (place.list side) error live middle)
    (hcloses : Records Event.Remark outcome middle after) (hplace : outcome.place = place)
    (hdragged : outcome.Dragged steps error) : Fails steps place.site error live after := by
  obtain ⟨before, culprit, closed, houtcomes, htolerated, hunwinds, earlier, time, later, hevents,
    hmarks, haftermath⟩ := hfails
  obtain ⟨first, closedAt, last, hcloseEvents, hfirst, hlast⟩ := hcloses.events
  refine ⟨before, culprit, closed ++ [outcome], ?_, htolerated, hunwinds.close hplace hdragged,
    earlier, time, later ++ (first ++ .recorded closedAt outcome :: last), ?_, ?_, ?_⟩
  · rw [hcloses.outcomes, houtcomes]
    simp
  · rw [hcloseEvents, hevents]
    simp
  · have hmark : Event.mark? (.recorded closedAt outcome) = some (.recorded outcome) := rfl
    rw [List.filterMap_append, List.filterMap_append, List.filterMap_cons_some hmark, hmarks,
      filterMap_mark?_of_unmarked fun event hevent ↦ (hfirst event hevent).unmarked,
      filterMap_mark?_of_unmarked fun event hevent ↦ (hlast event hevent).unmarked]
    simp
  · intro event hevent
    rcases List.mem_append.mp hevent with h | h
    · exact haftermath event h
    · rcases List.mem_append.mp h with h | h
      · exact (hfirst event h).aftermath
      · rcases List.mem_cons.mp h with rfl | h
        · rfl
        · exact (hlast event h).aftermath

theorem Fails.grows (hfails : Fails steps site error live middle)
    (hgrows : Grows Event.Remark middle after) : Fails steps site error live after := by
  obtain ⟨before, culprit, closed, houtcomes, htolerated, hunwinds, earlier, time, later, hevents,
    hmarks, haftermath⟩ := hfails
  obtain ⟨news, hnews, hremarks⟩ := hgrows.events
  refine ⟨before, culprit, closed, hgrows.outcomes.trans houtcomes, htolerated, hunwinds, earlier,
    time, later ++ news, ?_, ?_, ?_⟩
  · rw [hnews, hevents]
    simp
  · rw [List.filterMap_append, hmarks,
      filterMap_mark?_of_unmarked fun event hevent ↦ (hremarks event hevent).unmarked,
      List.append_nil]
  · intro event hevent
    rcases List.mem_append.mp hevent with h | h
    · exact haftermath event h
    · exact (hremarks event h).aftermath

end Live

/-! ### What work comes to -/

/-- What is behind work at a site when the run goes on like this. -/
def Passage.Reports (steps : List Step) (site : Site) (live after : Live σ) : Passage → Prop
  | .through => Live.Tolerates steps live after
  | .atEnd .completed => Live.Tolerates steps live after
  | .atEnd (.failed fault) => Live.Fails steps site fault.info live after
  | .atEnd (.cancelled _) => after.isCancelled = true

namespace Passage

variable {setting : Setting σ} {live middle after : Live σ} {passage : Passage}

theorem Reports.trans (hfirst : Live.Tolerates steps live middle)
    (h : passage.Reports steps site middle after) : passage.Reports steps site live after := by
  rcases passage with _ | _ | _ | _
  · exact hfirst.trans h
  · exact hfirst.trans h
  · exact hfirst.fails h
  · exact h

/-- A step that reports one outcome which agrees with the way on. -/
theorem Reports.of_records {kind : Event → Prop} {outcome : Outcome} {step : Step} {place : Place}
    (hstep : Step.stepAt? steps place = some step)
    (hrecords : Live.Records kind outcome live after) (hof : outcome.IsOf step place)
    (haccords : passage.Accords step.header.policy outcome)
    (hcancelled : ∀ fault, passage = .atEnd (.cancelled fault) → after.isCancelled = true) :
    passage.Reports steps place.site live after := by
  obtain ⟨hname, hkind, rfl⟩ := hof
  rcases passage with _ | _ | fault | fault
  · exact hrecords.tolerates fun hfailed ↦ ⟨step, hstep, ⟨hname, hkind, rfl⟩,
      (step.header.policy_eq_continue_iff).mp (haccords hfailed)⟩
  · exact hrecords.tolerates fun hfailed ↦ absurd hfailed haccords
  · obtain ⟨hstatus, herror, hpolicy⟩ := haccords
    exact hrecords.fails ⟨hstatus, herror, step, hstep, ⟨hname, hkind, rfl⟩,
      fun hcontinue ↦ hpolicy ((step.header.policy_eq_continue_iff).mpr hcontinue)⟩
  · exact hcancelled fault rfl

/-- An open step closed behind what is within it. -/
theorem Reports.leave {side : Side} (owner : Opened) (hcontrol : owner.step.isControl = true)
    (hstep : Step.stepAt? steps owner.place = some owner.step)
    (h : passage.Reports steps (owner.place.list side) live middle) :
    passage.Reports steps owner.place.site live (middle.leave setting owner passage) := by
  have hcloses : Live.Records Event.Remark _ middle (middle.leave setting owner passage) :=
    Live.close_records passage.stepEnding passage.fault? owner middle
  rcases passage with _ | _ | fault | fault
  · exact Live.Tolerates.trans h
      (hcloses.tolerates fun hfailed ↦ by simp [stepEnding, Live.outcome] at hfailed)
  · exact Live.Tolerates.trans h
      (hcloses.tolerates fun hfailed ↦ by simp [stepEnding, Live.outcome] at hfailed)
  · exact h.close hcloses rfl ⟨rfl, rfl, owner.step, hstep, ⟨rfl, rfl, rfl⟩, hcontrol⟩
  · exact hcloses.cancelled h

theorem stumbled_ne_cancelled (owner : Opened) (fault cause : Fault) (live : Live σ) :
    (live.stumbled setting owner fault).1 ≠ .atEnd (.cancelled cause) := by
  unfold Live.stumbled
  dsimp only
  split <;> simp

theorem isCancelled_of_action {ended : ActionEnd} {fault : Fault}
    (h : ended.passage after = .atEnd (.cancelled fault)) : after.isCancelled = true := by
  cases ended with
  | goesOn => simp [ActionEnd.passage] at h
  | stops => simp [ActionEnd.passage] at h
  | fails cause =>
    by_cases hcancelled : after.isCancelled = true
    · exact hcancelled
    · rw [ActionEnd.passage, if_neg hcancelled] at h
      simp at h

theorem Reports.stumbled (owner : Opened) (hstep : Step.stepAt? steps owner.place = some owner.step)
    (fault : Fault) (live : Live σ) :
    (live.stumbled setting owner fault).1.Reports steps owner.place.site live
      (live.stumbled setting owner fault).2 := by
  obtain ⟨outcome, hrecords, hof, haccords, -⟩ := Live.stumbled_reports setting owner fault live
  exact .of_records hstep hrecords hof haccords
    fun cause h ↦ absurd h (stumbled_ne_cancelled owner fault cause live)

end Passage

/-- Work within a list of steps reports as the run goes on. -/
theorem Carried.reports {setting : Setting σ} {work : Work} {live after : Live σ}
    {passage : Passage} (h : Carried setting work live passage after) (hin : work.Within steps) :
    passage.Reports steps work.site live after := by
  induction h with
  | done => exact .refl _
  | next _ _ ihvisit ihrest => exact .trans (ihvisit hin.head) (ihrest hin.tail)
  | last _ ihvisit => exact ihvisit hin.head
  | cancelled hcancelled => exact hcancelled
  | @skipped step place live hgoes hfound =>
    obtain ⟨hrecords, hof, haccords⟩ :=
      Live.passedOver_reports setting step place (live.enter place)
    exact .trans (live.enter_tolerates place)
      (.of_records hin hrecords hof haccords fun fault h ↦ by simp at h)
  | @stumbled step place live fault hgoes hfound =>
    exact .trans (live.enter_tolerates place)
      (.stumbled (live.opened step place) hin fault (live.enter place))
  | @acted step place live after header action ended hgoes hfound hperform =>
    obtain ⟨outcome, hrecords, hof, haccords, -⟩ := Live.perform_reports hperform
    obtain rfl := Step.eq_act_of_approach hfound
    exact .trans (live.enter_tolerates place)
      (.of_records hin hrecords hof haccords fun fault h ↦ Passage.isCancelled_of_action h)
  | @branched step place live after side chosen passage hgoes hfound _ ihbody =>
    have hbody := Passage.Reports.trans (live.enter_tolerates place) (ihbody (hin.branch hfound))
    obtain ⟨_, _, _, _, rfl, -⟩ := Step.eq_branch_of_approach hfound
    exact hbody.leave (live.opened _ place) rfl hin
  | @looped step place live after body cursor passage hgoes hfound _ ihturns =>
    exact .trans (live.enter_tolerates place) (ihturns (hin.loop hfound))
  | @halted owner body cursor live hcancelled =>
    have hhalted : (Passage.atEnd live.cancellation).Reports steps (owner.place.list .body) live
      live := hcancelled
    exact hhalted.leave owner (Step.isControl_of_list? hin.2) hin.1
  | @refused owner body cursor live fault hgoes hnext =>
    exact .trans (live.askLoop_grows owner).tolerates
      (.stumbled owner hin.1 fault (live.askLoop owner))
  | @turned owner body cursor live middle after turn passage hgoes hnext hturn _ _ ihbody ihrest =>
    exact .trans (live.startTurn_grows setting owner turn).tolerates
      (.trans (ihbody hin.turn) (ihrest hin))
  | @brokenOff owner body cursor live after turn ending hgoes hnext hturn _ ihbody =>
    have hbody := Passage.Reports.trans (live.startTurn_grows setting owner turn).tolerates
      (ihbody hin.turn)
    exact hbody.leave owner (Step.isControl_of_list? hin.2) hin.1
  | @finished owner body cursor live turn hgoes hnext hturn =>
    have hgrows := (Live.startTurn_grows setting owner turn live).trans
      (Live.finishLoop_grows setting owner turn _).unmarked
    have hbody : Passage.through.Reports steps (owner.place.list .body) live
      (((live.askLoop owner).takeTurn setting owner.step turn).finishLoop setting owner turn) :=
        hgrows.tolerates
    exact hbody.leave owner (Step.isControl_of_list? hin.2) hin.1

/-! ### The status of a run -/

theorem Live.IsFresh.tolerated {live after : Live σ} (hfresh : live.IsFresh)
    (h : Live.Tolerates steps live after) :
    ∀ outcome ∈ after.outcomes, outcome.Tolerated steps := by
  obtain ⟨news, houtcomes, htolerated⟩ := h.outcomes
  rw [houtcomes, hfresh.outcomes, List.nil_append]
  exact htolerated

namespace Workflow

variable {host : Host σ} {options : RunParameters} {document : Datum} {turns : Nat}
  {live after : Live σ} {result : RunResult}

/-- A completed run has tolerated all its failures. A failed run has tolerated all up to the
outcome of a culprit, has its error, and was only closed around it: nothing but the aftermath
follows, in which no request is made and no name is bound. Only a run that was cancelled is
neither. -/
theorem run_failure (hfresh : live.IsFresh)
    (hrun : run host options document turns live = some (.ok result, after)) :
    ∃ validated, validate document = .ok validated ∧
      (result.status = .completed → result.error = none ∧
        ∀ outcome ∈ result.outcomes, outcome.Tolerated validated.workflow.steps) ∧
      (result.status = .failed → ∃ error before culprit closed,
        result.error = some error ∧ result.outcomes = before ++ culprit :: closed ∧
        (∀ outcome ∈ before, outcome.Tolerated validated.workflow.steps) ∧
        Unwinds validated.workflow.steps [] error culprit closed ∧
        ∃ earlier time later, after.events = earlier ++ .recorded time culprit :: later ∧
          later.filterMap Event.mark? = closed.map .recorded ∧
          ∀ event ∈ later, event.isAftermath = true) ∧
      (result.status = .cancelled → after.isCancelled = true) := by
  obtain ⟨validated, passage, middle, hvalid, hcarried, hafter, rfl⟩ := carried_of_run hrun
  have hreports := Passage.Reports.trans (opening_grows validated host options live).tolerates
    (hcarried.reports (Work.within_all validated.workflow.steps))
  have hclosing : Live.Grows Event.Remark middle after := hafter ▸ conclude_grows _ _ _ middle
  refine ⟨validated, hvalid, ?_⟩
  rcases passage with _ | _ | fault | fault
  · have hall := hfresh.tolerated (Live.Tolerates.trans hreports hclosing.tolerates)
    refine ⟨fun _ ↦ ⟨rfl, hall⟩, ?_, ?_⟩ <;>
    · intro hstatus
      cases hstatus
  · have hall := hfresh.tolerated (Live.Tolerates.trans hreports hclosing.tolerates)
    refine ⟨fun _ ↦ ⟨rfl, hall⟩, ?_, ?_⟩ <;>
    · intro hstatus
      cases hstatus
  · refine ⟨fun hstatus ↦ (by cases hstatus), fun _ ↦ ?_, fun hstatus ↦ (by cases hstatus)⟩
    obtain ⟨before, culprit, closed, houtcomes, htolerated, hunwinds, earlier, time, later,
      hevents, hlater⟩ := Live.Fails.grows hreports hclosing
    rw [hfresh.outcomes, List.nil_append] at houtcomes
    rw [hfresh.events, List.nil_append] at hevents
    exact ⟨fault.info, before, culprit, closed, rfl, houtcomes, htolerated, hunwinds, earlier,
      time, later, hevents, hlater⟩
  · exact ⟨fun hstatus ↦ (by cases hstatus), fun hstatus ↦ (by cases hstatus),
      fun _ ↦ hclosing.cancelled hreports⟩

/-- The refused clicks fail the run within their loop, which is closed with the same error. -/
theorem run_failure_clickingLoop :
    ∃ result after error before culprit closed,
      run refusing (.standard "clicks") clickingLoop 5 (idle 0 .quiet ()) =
        some (.ok result, after) ∧
      result.error = some error ∧ result.outcomes = before ++ culprit :: closed ∧
      culprit.error = some error ∧
      Site.owners culprit.place.site = closed.map Outcome.place ∧
      ∀ outcome ∈ closed, outcome.error = some error := by
  have hreturned : (returned? (run refusing (.standard "clicks") clickingLoop 5
      (idle 0 .quiet ()))).map (fun found ↦ found.1.status) = some .failed := by decide +kernel
  obtain ⟨⟨result, after⟩, hfound, hstatus⟩ := Option.map_eq_some_iff.mp hreturned
  have hrun := eq_some_of_returned? hfound
  obtain ⟨_, -, -, hfailed, -⟩ := run_failure ⟨rfl, rfl⟩ hrun
  obtain ⟨error, before, culprit, closed, herror, houtcomes, -, hunwinds, -⟩ := hfailed hstatus
  refine ⟨result, after, error, before, culprit, closed, hrun, herror, houtcomes,
    hunwinds.blamed.error, ?_, fun outcome h ↦ (hunwinds.dragged outcome h).error⟩
  rw [hunwinds.around, Site.owners, List.append_nil]

end Workflow

end BrowserFlow
