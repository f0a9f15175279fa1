import BrowserFlow.Proofs.Run.Trace
import BrowserFlow.Proofs.Run.Turns
import BrowserFlow.Proofs.Template.Sources

/-!
Templates in runs. Whatever a step raises by itself, from its guard on to its
preparation, is about a template only if this is one of its own
(`Step.Raises.readFrom`), and checking a document reads all of these. So the
steps of a checked document never raise faults about templates, and as a walk
keeps to these steps (`Walk.Restacks.sound`), a run shows no such fault unless the
host throws it: neither does any outcome on the way, whether or not the run ever
ends, nor the result (`Workflow.checked_templates`).
-/

set_option autoImplicit false
set_option relaxedAutoImplicit false

namespace BrowserFlow

variable {σ : Type}

/-! ### What a step raises -/

namespace Step

/-- The faults that a step can raise by itself. -/
inductive Raises : Step → Scope → Fault → Prop
  /-- Its guard fails. -/
  | guard {step : Step} {scope : Scope} {guard : Condition} {fault : Fault}
      (hguard : step.header.guard = some guard) (hfault : guard.evaluate scope = .error fault) :
      Raises step scope fault
  /-- Its condition fails. -/
  | condition {header : StepHeader} {condition : Condition} {steps : List Step}
      {otherwise : Option (List Step)} {scope : Scope} {fault : Fault}
      (hfault : condition.evaluate scope = .error fault) :
      Raises (.branch header condition steps otherwise) scope fault
  /-- Its operands fail when the loop is begun. -/
  | opening {header : StepHeader} {spec : Iteration} {body : List Step} {scope : Scope}
      {fault : Fault} (hfault : spec.beginLoop scope = .error fault) :
      Raises (.loop header spec body) scope fault
  /-- One of its cursors fails when it is asked for a turn. -/
  | asking {header : StepHeader} {spec : Iteration} {body : List Step} {cursor : Cursor}
      {scope : Scope} {fault : Fault} (hdrives : spec.Drives cursor)
      (hfault : cursor.next scope = .error fault) : Raises (.loop header spec body) scope fault
  /-- Its preparation fails. -/
  | preparing {header : StepHeader} {action : Action} {timeout : Number} {recorded : Value}
      {scope : Scope} {fault : Fault} (hfault : action.task scope timeout recorded = .error fault) :
      Raises (.act header action) scope fault

variable {step : Step} {scope : Scope} {fault : Fault}

/-- A step fails to read no templates but those that are collected from it. -/
theorem Raises.readFrom (h : step.Raises scope fault) : fault.ReadFrom step.templates := by
  unfold templates operands
  rw [List.flatMap_append]
  cases h with
  | @guard _ _ guard _ hguard hfault =>
    rw [hguard]
    exact ((guard.evaluate_confined scope).widen (List.subset_append_left _ _)) fault hfault
  | @condition _ condition _ _ _ _ hfault =>
    exact ((condition.evaluate_confined scope).widen (List.subset_append_right _ _)) fault hfault
  | @opening _ spec _ _ _ hfault =>
    exact ((spec.beginLoop_confined scope).widen (List.subset_append_right _ _)) fault hfault
  | @asking _ spec _ cursor _ _ hdrives hfault =>
    exact ((cursor.next_confined hdrives scope).widen (List.subset_append_right _ _)) fault hfault
  | @preparing _ action timeout recorded _ _ hfault =>
    exact ((action.task_confined scope timeout recorded).widen (List.subset_append_right _ _))
      fault hfault

theorem raises_of_demand (h : step.demand scope = .stumble fault) : step.Raises scope fault := by
  cases step with
  | act header action => simp [demand] at h
  | branch header condition steps otherwise =>
    rw [demand] at h
    split at h
    · next hfault =>
      obtain rfl := Approach.stumble.inj h
      exact .condition hfault
    · simp at h
    · simp at h
  | loop header spec body =>
    rw [demand] at h
    split at h
    · next hfault =>
      obtain rfl := Approach.stumble.inj h
      exact .opening hfault
    · simp at h

/-- A visit only stumbles over what its step raises. -/
theorem raises_of_approach (h : step.approach scope = .stumble fault) :
    step.Raises scope fault := by
  unfold approach guardHolds at h
  cases hguard : step.header.guard with
  | none =>
    rw [hguard] at h
    exact raises_of_demand h
  | some guard =>
    rw [hguard] at h
    dsimp only at h
    split at h
    · next hfault =>
      obtain rfl := Approach.stumble.inj h
      exact .guard hguard hfault
    · simp at h
    · exact raises_of_demand h

/-- A step all of whose templates can be read. -/
def IsReadable (step : Step) : Prop :=
  ∀ source ∈ step.templates, ∃ parts, Template.read source = .ok parts

/-- Steps that are readable wherever they stand below a list. -/
def AllReadable (steps : List Step) : Prop :=
  ∀ place step, stepAt? steps place = some step → step.IsReadable

theorem IsReadable.kind_ne (h : step.IsReadable) (hraises : step.Raises scope fault) :
    fault.kind ≠ .template := by
  intro hkind
  cases fault with
  | template source flaw =>
    obtain ⟨hmem, herror⟩ := hraises.readFrom source flaw rfl
    obtain ⟨parts, hparts⟩ := h source hmem
    rw [hparts] at herror
    cases herror
  | _ => cases hkind

theorem isReadable_of_flaws (h : step.flaws = []) : step.IsReadable := by
  intro source hsource
  have hnone : step.templateFlaws = [] := by
    unfold flaws at h
    exact (List.append_eq_nil_iff.mp (List.append_eq_nil_iff.mp h).1).1
  have hread := List.filterMap_eq_nil_iff.mp hnone source hsource
  split at hread
  · next parts hparts => exact ⟨parts, hparts⟩
  · cases hread

end Step

namespace Workflow

variable {document : Datum} {validated : Validated}

/-- The steps of a checked document are without flaws. -/
theorem flaws_of_validate (hvalid : validate document = .ok validated) {place : Place}
    {step : Step} (hstep : (place, step) ∈ validated.workflow.located) : step.flaws = [] := by
  unfold validate at hvalid
  dsimp only at hvalid
  split at hvalid
  · split at hvalid
    · next hissues =>
      obtain rfl := Except.ok.inj hvalid
      have hlines := List.flatMap_eq_nil_iff.mp hissues (place, step) hstep
      exact List.map_eq_nil_iff.mp hlines
    · cases hvalid
  · cases hvalid

/-- The steps of a checked document can read all their templates. -/
theorem allReadable_of_validate (hvalid : validate document = .ok validated) :
    Step.AllReadable validated.workflow.steps := by
  intro place step hstep
  exact Step.isReadable_of_flaws (flaws_of_validate hvalid (Step.mem_locatedFrom hstep))

end Workflow

/-! ### What a run shows -/

/-- A host that throws no faults about templates. -/
def Host.NeverMisreads (host : Host σ) : Prop :=
  ∀ now call state source flaw,
    (host.reply now call state).1.answer ≠ .error (.failure (.fault (.template source flaw)))

/-- An outcome that shows no fault about a template. -/
def Outcome.Untainted (outcome : Outcome) : Prop :=
  ∀ report, outcome.error = some report → report.kind ≠ .template

namespace Live

/-- A run without an outcome that shows a fault about a template. -/
def Untainted (live : Live σ) : Prop := ∀ outcome ∈ live.outcomes, outcome.Untainted

variable {setting : Setting σ} {kind : Event → Prop} {outcome : Outcome} {live after : Live σ}
  {header : StepHeader}

theorem Grows.untainted (h : Grows kind live after) (hlive : live.Untainted) : after.Untainted := by
  intro outcome houtcome
  rw [h.outcomes] at houtcome
  exact hlive outcome houtcome

theorem Records.untainted (h : Records kind outcome live after) (houtcome : outcome.Untainted)
    (hlive : live.Untainted) : after.Untainted := by
  intro other hother
  rw [h.outcomes] at hother
  rcases List.mem_append.mp hother with hbefore | hlast
  · exact hlive other hbefore
  · rw [List.mem_singleton.mp hlast]
    exact houtcome

/-- What a request throws is thrown by the host, or it has taken too long. -/
theorem ask_thrown {call : Call} {what : Datum}
    (h : live.ask setting header call = some (.error what, after)) :
    (∃ seconds, what = tooLong header seconds) ∨
      (setting.host.reply live.now call live.host).1.answer = .error what := by
  unfold ask settle at h
  dsimp only at h
  split at h
  · simp at h
  · exact .inr (Prod.mk.inj (Option.some.inj h)).1
  · exact .inl ⟨_, (Except.error.inj (Prod.mk.inj (Option.some.inj h)).1).symm⟩
  · split at h
    · exact .inl ⟨_, (Except.error.inj (Prod.mk.inj (Option.some.inj h)).1).symm⟩
    · exact .inr (Prod.mk.inj (Option.some.inj h)).1

theorem result_throwsOnly (call : Call) (answer : Datum) :
    ThrowsOnly Failure.IsRuntime (call.result answer) := by
  have hcontent : ThrowsOnly Failure.IsRuntime (do .ok (some (← answer.normal))) :=
    .bind answer.normal_throwsOnly fun _ ↦ .ok _
  cases call <;> first | exact hcontent | exact .ok _

theorem extended_kind {env : Environment} {name : Text} {item : Value} {fault : Fault}
    (h : env.extended name item = .error fault) : fault.kind ≠ .template := by
  unfold Environment.extended at h
  split at h
  · simp at h
  · simp at h
  · rw [← Except.error.inj h]
    simp [Fault.kind]

/-- An attempt throws no faults about templates unless the host does. -/
theorem attempt_kind (hhost : setting.host.NeverMisreads) {task : Task} {thrown : Datum}
    {place : Whereabouts} {fault : Fault}
    (h : live.attempt setting header task = some (.error thrown, after))
    (hfault : Fault.classify place thrown = .ok fault) : fault.kind ≠ .template := by
  intro hkind
  obtain rfl := Fault.eq_of_classify hfault hkind
  obtain ⟨what, hthrown, hcause⟩ := attempt_error h
  have hwhat := Fault.eq_of_ofThrown (Datum.failure.inj hthrown.symm) hkind
  rcases hcause with ⟨_, -, hask⟩ | ⟨_, _, failure, -, -, hresult, rfl⟩ |
    ⟨_, _, cause, -, hextended, rfl, -⟩
  · rcases ask_thrown (hwhat ▸ hask) with ⟨seconds, hlong⟩ | hreply
    · obtain rfl := Failure.fault.inj (Datum.failure.inj hlong)
      cases hkind
    · cases fault with
      | template source flaw => exact hhost _ _ _ source flaw hreply
      | _ => cases hkind
  · obtain ⟨_, _, rfl⟩ := result_throwsOnly _ _ failure hresult
    cases hwhat
  · obtain rfl := Failure.fault.inj (Datum.failure.inj hwhat)
    exact extended_kind hextended hkind

/-- An action shows no fault about a template when its step raises none and the host throws none. -/
theorem perform_untainted (hhost : setting.host.NeverMisreads) {action : Action} {place : Place}
    {startedAt : Number} {ended : ActionEnd} (hstep : (Step.act header action).IsReadable)
    (h : live.perform setting header action place startedAt = some (.ok ended, after))
    (hlive : live.Untainted) :
    after.Untainted ∧
      ∀ fault, (ended.passage after).fault? = some fault → fault.kind ≠ .template := by
  obtain ⟨outcome, hrecords, -, haccords, attempted, middle, hcarried, herror, -⟩ :=
    perform_reports h
  have houtcome : outcome.Untainted := by
    intro report hreport
    rw [herror] at hreport
    cases attempted with
    | done count value => cases hreport
    | failed count fault ends =>
      obtain rfl := Option.some.inj hreport
      refine (Policy.carryOut_failed (Q := fun fault ↦ fault.kind ≠ .template) ?_ ?_ ?_ hcarried).2
      · intro thrown fault hthrown hfault
        obtain ⟨timeout, recorded, cause, htask, rfl⟩ := undertaking_prepared hthrown
        obtain rfl := Except.ok.inj hfault
        exact hstep.kind_ne (.preparing htask)
      · intro task live thrown after fault hattempt hfault
        exact attempt_kind hhost hattempt hfault
      · intro made fault hkind
        unfold Policy.lastFault
        split
        · simp [Fault.kind]
        · exact hkind
  refine ⟨hrecords.untainted houtcome hlive, ?_⟩
  intro fault hfault
  cases ended with
  | goesOn => cases hfault
  | stops => cases hfault
  | fails cause =>
    by_cases hcancelled : after.isCancelled = true
    · rw [ActionEnd.passage, if_pos hcancelled] at hfault
      rw [← Option.some.inj hfault]
      simp [Fault.kind]
    · rw [ActionEnd.passage, if_neg hcancelled] at hfault haccords
      obtain rfl := Option.some.inj hfault
      exact houtcome _ haccords.2.1

/-- A step that stumbles over a fault that is about no template shows none. -/
theorem stumbled_untainted (setting : Setting σ) (owner : Opened) {fault : Fault}
    (hkind : fault.kind ≠ .template) (hlive : live.Untainted) :
    (live.stumbled setting owner fault).2.Untainted ∧
      ∀ cause, (live.stumbled setting owner fault).1.fault? = some cause →
        cause.kind ≠ .template := by
  obtain ⟨outcome, hrecords, -, -, herror, -⟩ := stumbled_reports setting owner fault live
  have houtcome : outcome.Untainted := by
    intro report hreport
    rw [herror] at hreport
    obtain rfl := Option.some.inj hreport
    exact hkind
  refine ⟨hrecords.untainted houtcome hlive, ?_⟩
  intro cause hcause
  unfold stumbled at hcause
  dsimp only at hcause
  split at hcause
  · obtain rfl := Option.some.inj hcause
    exact hkind
  · cases hcause

/-- Open steps that are closed show no fault but the one that they are closed with. -/
theorem closed_untainted {status : StepEnding} {fault : Option Fault} (owner : Opened)
    (hkind : ∀ cause, fault = some cause → cause.kind ≠ .template) (live : Live σ) :
    (live.outcome owner.step owner.place owner.startedAt status 1 fault none).Untainted := by
  intro report hreport
  obtain ⟨cause, hcause, rfl⟩ := Option.map_eq_some_iff.mp hreport
  exact hkind cause hcause

theorem close_untainted {status : StepEnding} {fault : Option Fault} (owner : Opened)
    (hkind : ∀ cause, fault = some cause → cause.kind ≠ .template) (hlive : live.Untainted) :
    (live.close setting status fault owner).Untainted := by
  have hrecords : Records Event.Remark _ live (live.close setting status fault owner) :=
    close_records status fault owner live
  exact hrecords.untainted (closed_untainted owner hkind live) hlive

theorem closeAll_untainted {status : StepEnding} {fault : Option Fault} (stack : List Frame)
    (hkind : ∀ cause, fault = some cause → cause.kind ≠ .template) (hlive : live.Untainted) :
    (live.closeAll setting status fault stack).Untainted :=
  (closeAll_gains stack (fun owner _ ↦ closed_untainted owner hkind) live).forall_mem hlive

end Live

/-! ### Walks -/

/-- What a frame holds of the steps: their places, and of a loop a cursor that is its own. -/
def Frame.Sound (steps : List Step) : Frame → Prop
  | .steps rest site index _ => (Work.list rest site index).Within steps
  | .loop owner body cursor => (Work.loop owner body cursor).Within steps ∧
      ∃ header spec, owner.step = .loop header spec body ∧ spec.Drives cursor

namespace Walk

variable {setting : Setting σ} {steps : List Step} {walk first : Walk σ}

/-- A walk whose frames hold what the steps have at their places. -/
def Within (steps : List Step) (walk : Walk σ) : Prop :=
  ∀ frame ∈ walk.stack, frame.Sound steps

/-- What is still to do stays within the steps. -/
theorem Restacks.sound {scope : Scope} {before behind : List Frame}
    (h : Restacks scope before behind) (hbefore : ∀ frame ∈ before, frame.Sound steps) :
    ∀ frame ∈ behind, frame.Sound steps := by
  cases h with
  | popped => exact (List.forall_mem_cons.mp hbefore).2
  | passed =>
    obtain ⟨htop, hbelow⟩ := List.forall_mem_cons.mp hbefore
    exact List.forall_mem_cons.mpr ⟨Work.Within.tail htop, hbelow⟩
  | branched hfound =>
    obtain ⟨htop, hbelow⟩ := List.forall_mem_cons.mp hbefore
    exact List.forall_mem_cons.mpr ⟨(Work.Within.head htop).branch hfound,
      List.forall_mem_cons.mpr ⟨Work.Within.tail htop, hbelow⟩⟩
  | looped hfound =>
    obtain ⟨htop, hbelow⟩ := List.forall_mem_cons.mp hbefore
    obtain ⟨header, spec, rfl, hbegin⟩ := Step.eq_loop_of_approach hfound
    exact List.forall_mem_cons.mpr
      ⟨⟨(Work.Within.head htop).loop hfound, header, spec, rfl, .first hbegin⟩,
        List.forall_mem_cons.mpr ⟨Work.Within.tail htop, hbelow⟩⟩
  | turned hnext =>
    obtain ⟨⟨hin, header, spec, howner, hdrives⟩, hbelow⟩ := List.forall_mem_cons.mp hbefore
    exact List.forall_mem_cons.mpr ⟨hin.turn, List.forall_mem_cons.mpr
      ⟨⟨hin, header, spec, howner, .next hdrives hnext⟩, hbelow⟩⟩

theorem Reaches.within (hreaches : Reaches setting first walk) (hfirst : first.Within steps) :
    walk.Within steps := by
  induction hreaches with
  | start => exact hfirst
  | turn _ hturn ih => exact ((moves_turn _).restacks hturn).sound ih

end Walk

/-- A walk over the steps that has shown no fault about a template. -/
structure Walk.Sound (steps : List Step) (walk : Walk σ) : Prop where
  untainted : walk.live.Untainted
  stack : ∀ frame ∈ walk.stack, frame.Sound steps

/-- What a walk over the steps comes to without showing a fault about a template. -/
def Progress.Sound (steps : List Step) : Progress σ → Prop
  | .going walk => walk.Sound steps
  | .ended ending live =>
    live.Untainted ∧ ∀ fault, ending.fault? = some fault → fault.kind ≠ .template
  | .broken _ live => live.Untainted
  | .stuck => True

namespace Walk

variable {setting : Setting σ} {steps : List Step} {walk : Walk σ} {progress : Progress σ}

theorem progress_sound {passage : Passage}
    (hkind : ∀ fault, passage.fault? = some fault → fault.kind ≠ .template)
    (hlive : walk.live.Untainted)
    (hstack : ∀ next, passage.progress setting walk = .going next → next.Within steps) :
    (passage.progress setting walk).Sound steps := by
  cases passage with
  | through => exact ⟨hlive, hstack walk rfl⟩
  | atEnd ending => exact ⟨Live.closeAll_untainted walk.stack hkind hlive, hkind⟩

theorem cancellation_kind (live : Live σ) (fault : Fault)
    (h : (Passage.atEnd live.cancellation).fault? = some fault) : fault.kind ≠ .template := by
  rw [← Option.some.inj h]
  simp [Fault.kind]

/-- A turn of a walk over readable steps shows no fault about a template. -/
theorem Moves.sound (h : Moves setting walk progress) (hhost : setting.host.NeverMisreads)
    (hreadable : Step.AllReadable steps) (hwalk : walk.Sound steps) : progress.Sound steps := by
  have hstack : ∀ next, progress = .going next → next.Within steps :=
    fun next hgoing ↦ (h.restacks hgoing).sound hwalk.stack
  have hlive := hwalk.untainted
  have htop := hwalk.stack
  cases h with
  | done => exact ⟨hlive, fun fault hfault ↦ by cases hfault⟩
  | @left live _ _ owner _ =>
    refine ⟨?_, hstack _ rfl⟩
    cases owner with
    | none => exact hlive
    | some opened => exact Live.close_untainted opened (fun cause h ↦ by cases h) hlive
  | @cancelled live => exact progress_sound (cancellation_kind live) hlive hstack
  | @skipped live step _ site index _ _ _ _ =>
    obtain ⟨hrecords, -, -⟩ :=
      Live.passedOver_reports setting step ⟨site, index⟩ (live.enter ⟨site, index⟩)
    exact ⟨hrecords.untainted (fun report h ↦ by cases h) hlive, hstack _ rfl⟩
  | @stumbled live step _ site index _ _ _ _ hfound =>
    have hstep := Work.Within.head (List.forall_mem_cons.mp htop).1
    have hkind := (hreadable ⟨site, index⟩ step hstep).kind_ne (Step.raises_of_approach hfound)
    have hentered : (live.enter ⟨site, index⟩).Untainted := hlive
    obtain ⟨hafter, hpassage⟩ :=
      Live.stumbled_untainted setting (live.opened step ⟨site, index⟩) hkind hentered
    exact progress_sound hpassage hafter hstack
  | @acted live _ step _ site index _ _ _ _ _ _ hfound hperform =>
    obtain rfl := Step.eq_act_of_approach hfound
    have hstep := hreadable _ _ (Work.Within.head (List.forall_mem_cons.mp htop).1)
    have hentered : (live.enter ⟨site, index⟩).Untainted := hlive
    obtain ⟨hafter, hpassage⟩ := Live.perform_untainted hhost hstep hperform hentered
    exact progress_sound hpassage hafter hstack
  | stuck => trivial
  | branched | looped => exact ⟨hlive, hstack _ rfl⟩
  | @halted live => exact progress_sound (cancellation_kind live) hlive hstack
  | @refused live owner _ _ _ fault _ hnext =>
    obtain ⟨hin, header, spec, howner, hdrives⟩ := (List.forall_mem_cons.mp htop).1
    have hraises : owner.step.Raises live.scope fault := howner ▸ .asking hdrives hnext
    have hasked := (live.askLoop_grows owner).untainted hlive
    obtain ⟨hafter, hpassage⟩ := Live.stumbled_untainted setting owner
      ((hreadable _ _ hin.1).kind_ne hraises) hasked
    exact progress_sound hpassage hafter hstack
  | @turned live owner _ _ _ turn _ _ _ =>
    exact ⟨(live.startTurn_grows setting owner turn).untainted hlive, hstack _ rfl⟩
  | @finished live owner _ _ _ turn _ _ _ =>
    have htaken := (live.startTurn_grows setting owner turn).untainted hlive
    have hfinished := (Live.finishLoop_grows setting owner turn _).untainted htaken
    exact ⟨Live.close_untainted owner (fun cause h ↦ by cases h) hfinished, hstack _ rfl⟩

theorem Reaches.sound (hhost : setting.host.NeverMisreads) (hreadable : Step.AllReadable steps)
    {first walk : Walk σ} (hreaches : Reaches setting first walk) (hfirst : first.Sound steps) :
    walk.Sound steps := by
  induction hreaches with
  | start => exact hfirst
  | turn _ hturn ih =>
    have hnext := (moves_turn _).sound hhost hreadable ih
    rwa [hturn] at hnext

theorem advance_sound (hhost : setting.host.NeverMisreads) (hreadable : Step.AllReadable steps)
    {turns : Nat} {walk : Walk σ} {ending : Ending} {after : Live σ} (hwalk : walk.Sound steps)
    (h : walk.advance setting turns = some (.ok ending, after)) :
    after.Untainted ∧ ∀ fault, ending.fault? = some fault → fault.kind ≠ .template := by
  obtain ⟨last, ended, hreaches, hmoves, hresult⟩ := reaches_of_advance h
  obtain rfl := Except.ok.inj hresult
  exact hmoves.sound hhost hreadable (hreaches.sound hhost hreadable hwalk)

end Walk

namespace Workflow

variable {host : Host σ} {options : RunParameters} {document : Datum} {turns : Nat}
  {validated : Validated} {live after : Live σ} {result : RunResult}

theorem firstWalk_sound (hfresh : live.IsFresh) :
    (firstWalk validated host options live).Sound validated.workflow.steps := by
  have hlive : live.Untainted := by
    intro outcome h
    rw [hfresh.outcomes] at h
    cases h
  refine ⟨(opening_grows validated host options live).untainted hlive, fun frame hframe ↦ ?_⟩
  rw [List.mem_singleton.mp hframe]
  exact Work.within_all _

/-- What any step raises about a template is about one that is collected from it. So the steps of a
checked document raise nothing about templates, and unless the host throws a fault about one, no
outcome on the way of a run shows such a fault, nor does its result. -/
theorem checked_templates (hhost : host.NeverMisreads)
    (hvalid : validate document = .ok validated) (hfresh : live.IsFresh) :
    (∀ (step : Step) scope fault, step.Raises scope fault → fault.ReadFrom step.templates) ∧
    (∀ place step, (place, step) ∈ validated.workflow.located →
      ∀ scope fault, step.Raises scope fault → fault.kind ≠ .template) ∧
    (∀ walk, Walk.Reaches (validated.workflow.setting host options)
      (firstWalk validated host options live) walk → walk.live.Untainted) ∧
    ∀ turns result after, run host options document turns live = some (.ok result, after) →
      (∀ outcome ∈ result.outcomes, outcome.Untainted) ∧
        ∀ report, result.error = some report → report.kind ≠ .template := by
  have hreadable := allReadable_of_validate hvalid
  have hfirst : (firstWalk validated host options live).Sound validated.workflow.steps :=
    firstWalk_sound hfresh
  refine ⟨fun step scope fault h ↦ h.readFrom, ?_, ?_, ?_⟩
  · intro place step hstep scope fault hraises
    exact (Step.isReadable_of_flaws (flaws_of_validate hvalid hstep)).kind_ne hraises
  · intro walk hreaches
    exact (hreaches.sound hhost hreadable hfirst).untainted
  · intro turns result after hrun
    rw [run, hvalid] at hrun
    dsimp only at hrun
    split at hrun
    · cases hrun
    · cases hrun
    · next ending middle hwalk =>
      obtain ⟨hmiddle, hending⟩ := Walk.advance_sound hhost hreadable hfirst hwalk
      obtain ⟨hresult, -⟩ := Prod.mk.inj (Option.some.inj hrun)
      obtain rfl := Except.ok.inj hresult
      refine ⟨(conclude_grows ending live.time _ middle).untainted hmiddle, fun report h ↦ ?_⟩
      obtain ⟨fault, hfault, rfl⟩ := Option.map_eq_some_iff.mp h
      exact hending fault hfault

/-- The clicks read a template in every turn and are refused, but not for a template. -/
theorem checked_templates_clickingLoop :
    ∃ validated result after, validate clickingLoop = .ok validated ∧
      run refusing (.standard "clicks") clickingLoop 5 (idle 0 .quiet ()) =
        some (.ok result, after) ∧
      refusing.NeverMisreads ∧ result.outcomes.length = 3 ∧
      ∀ outcome ∈ result.outcomes, outcome.Untainted := by
  have hhost : refusing.NeverMisreads := by
    intro now call state source flaw h
    cases h
  have hreturned : (returned? (run refusing (.standard "clicks") clickingLoop 5
      (idle 0 .quiet ()))).map (fun found ↦ found.1.outcomes.length) = some 3 := by
    decide +kernel
  obtain ⟨⟨result, after⟩, hfound, hlength⟩ := Option.map_eq_some_iff.mp hreturned
  have hrun := eq_some_of_returned? hfound
  obtain ⟨validated, _, _, hvalid, -, -, -⟩ := carried_of_run hrun
  have hfresh : (idle 0 .quiet ()).IsFresh := ⟨rfl, rfl⟩
  obtain ⟨-, -, -, hresult⟩ := checked_templates hhost hvalid hfresh
  exact ⟨validated, result, after, hvalid, hrun, hhost, hlength, (hresult 5 result after hrun).1⟩

end Workflow

end BrowserFlow
