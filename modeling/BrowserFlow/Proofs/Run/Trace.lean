import BrowserFlow.Proofs.Run.History

/-!
Traces of runs. An activation is one visit of a step together with the
activations below it, and a trace is a row of activations. Its marks are the
visits and outcomes as brackets, its outcomes are the activations in post-order.
`Visits` says which traces a list of steps can leave. Main statement: whatever
the host does, the marks of a run are those of a trace of the steps of its
workflow, and the outcomes of its result are the outcomes of that trace
(`Workflow.run_postorder`).
-/

set_option autoImplicit false
set_option relaxedAutoImplicit false

namespace BrowserFlow

variable {σ : Type}

/-! ### Activations -/

/-- A visit of a step: its outcome, and the activations of the steps below it. -/
inductive Activation where
  /-- An outcome above those of the steps below. -/
  | mk (outcome : Outcome) (below : List Activation)

namespace Activation

mutual

/-- The marks of an activation: it begins with its visit and ends with its outcome. -/
def marks : Activation → List Mark
  | mk outcome below => .visited outcome.place :: (traceMarks below ++ [.recorded outcome])

/-- The marks of a trace. -/
def traceMarks : List Activation → List Mark
  | [] => []
  | first :: others => marks first ++ traceMarks others

end

mutual

/-- The outcomes of an activation: its own comes last. -/
def postorder : Activation → List Outcome
  | mk outcome below => tracePostorder below ++ [outcome]

/-- The outcomes of a trace. -/
def tracePostorder : List Activation → List Outcome
  | [] => []
  | first :: others => postorder first ++ tracePostorder others

end

theorem traceMarks_append (first others : List Activation) :
    traceMarks (first ++ others) = traceMarks first ++ traceMarks others := by
  induction first with
  | nil => rw [List.nil_append, traceMarks, List.nil_append]
  | cons activation rest ih =>
    rw [List.cons_append, traceMarks, traceMarks, ih, List.append_assoc]

end Activation

namespace Mark

/-- The place of a visit. -/
def visit? : Mark → Option Place
  | .visited place => some place
  | .recorded _ => none

/-- The outcome that is recorded. -/
def outcome? : Mark → Option Outcome
  | .visited _ => none
  | .recorded outcome => some outcome

end Mark

namespace Activation

mutual

theorem outcomes_marks (activation : Activation) :
    activation.marks.filterMap Mark.outcome? = activation.postorder := by
  cases activation with
  | mk outcome below =>
    rw [marks, postorder, List.filterMap_cons_none rfl, List.filterMap_append,
      outcomes_traceMarks below]
    rfl

theorem outcomes_traceMarks (trace : List Activation) :
    (traceMarks trace).filterMap Mark.outcome? = tracePostorder trace := by
  cases trace with
  | nil => rfl
  | cons first others =>
    rw [traceMarks, tracePostorder, List.filterMap_append, outcomes_marks first,
      outcomes_traceMarks others]

end

mutual

theorem visits_perm (activation : Activation) :
    (activation.marks.filterMap Mark.visit?).Perm (activation.postorder.map Outcome.place) := by
  cases activation with
  | mk outcome below =>
    have hfirst : Mark.visit? (.visited outcome.place) = some outcome.place := rfl
    rw [marks, postorder, List.filterMap_cons_some hfirst, List.filterMap_append, List.map_append]
    have hbelow := (visits_tracePerm below).cons outcome.place
    refine (List.Perm.trans ?_ hbelow).trans (List.perm_append_singleton _ _).symm
    exact .of_eq (by simp [Mark.visit?])

/-- The places that a trace visits are those of its outcomes, each as often. -/
theorem visits_tracePerm (trace : List Activation) :
    ((traceMarks trace).filterMap Mark.visit?).Perm
      ((tracePostorder trace).map Outcome.place) := by
  cases trace with
  | nil => exact .nil
  | cons first others =>
    rw [traceMarks, tracePostorder, List.filterMap_append, List.map_append]
    exact (visits_perm first).append (visits_tracePerm others)

end

end Activation

/-! ### Traces of steps -/

mutual

/-- The activations that a step at a place can leave. -/
inductive Activates : Step → Place → Activation → Prop
  /-- Nothing below it was visited. -/
  | bare {step : Step} {place : Place} {outcome : Outcome} (hof : outcome.IsOf step place) :
      Activates step place (.mk outcome [])
  /-- One of its branches was begun. -/
  | branch {header : StepHeader} {condition : Condition} {steps chosen : List Step}
      {otherwise : Option (List Step)} {side : Side} {place : Place} {outcome : Outcome}
      {below : List Activation}
      (hof : outcome.IsOf (.branch header condition steps otherwise) place)
      (hside : (Step.branch header condition steps otherwise).list? side = some chosen)
      (hbelow : Visits chosen (place.list side) 0 below) :
      Activates (.branch header condition steps otherwise) place (.mk outcome below)
  /-- Some turns of its body were begun. -/
  | loop {header : StepHeader} {spec : Iteration} {body : List Step} {place : Place}
      {outcome : Outcome} {below : List Activation}
      (hof : outcome.IsOf (.loop header spec body) place)
      (hbelow : Turns body (place.list .body) below) :
      Activates (.loop header spec body) place (.mk outcome below)

/-- The traces that the steps of a list from an index on can leave, in their order, as far as the
list was carried out. -/
inductive Visits : List Step → Site → Nat → List Activation → Prop
  /-- The list was left. -/
  | left {rest : List Step} {site : Site} {index : Nat} : Visits rest site index []
  /-- The first step was visited. -/
  | next {step : Step} {rest : List Step} {site : Site} {index : Nat} {first : Activation}
      {others : List Activation} (hfirst : Activates step ⟨site, index⟩ first)
      (hothers : Visits rest site (index + 1) others) :
      Visits (step :: rest) site index (first :: others)

/-- The traces that turns of a body can leave. -/
inductive Turns : List Step → Site → List Activation → Prop
  /-- There were no more turns. -/
  | none {body : List Step} {site : Site} : Turns body site []
  /-- There was one more turn. -/
  | turn {body : List Step} {site : Site} {first others : List Activation}
      (hfirst : Visits body site 0 first) (hothers : Turns body site others) :
      Turns body site (first ++ others)

end

/-- A branch that a visit takes leaves an activation of its step. -/
theorem Activates.of_approach {scope : Scope} {step : Step} {place : Place} {side : Side}
    {chosen : List Step} {outcome : Outcome} {below : List Activation}
    (hfound : step.approach scope = .branch side chosen) (hof : outcome.IsOf step place)
    (hbelow : Visits chosen (place.list side) 0 below) :
    Activates step place (.mk outcome below) := by
  obtain ⟨header, condition, steps, otherwise, rfl, hside | rfl⟩ :=
    Step.eq_branch_of_approach hfound
  · exact .branch hof hside hbelow
  · cases hbelow with
    | left => exact .bare hof

/-! ### What a run adds -/

namespace Live

/-- The marks of a run so far. -/
def marks (live : Live σ) : List Mark := live.events.filterMap Event.mark?

/-- A run that has added some marks, and the outcomes among them. -/
structure Adds (added : List Mark) (live after : Live σ) : Prop where
  marks : after.marks = live.marks ++ added
  outcomes : after.outcomes = live.outcomes ++ added.filterMap Mark.outcome?

variable {added : List Mark} {outcome : Outcome} {live middle after : Live σ}

theorem Adds.refl (live : Live σ) : Adds [] live live := ⟨by simp, by simp⟩

theorem Adds.trans {others : List Mark} (hfirst : Adds added live middle)
    (hothers : Adds others middle after) : Adds (added ++ others) live after := by
  refine ⟨?_, ?_⟩
  · rw [hothers.marks, hfirst.marks, List.append_assoc]
  · rw [hothers.outcomes, hfirst.outcomes, List.filterMap_append, List.append_assoc]

theorem filterMap_mark?_of_unmarked {events : List Event}
    (h : ∀ event ∈ events, event.Unmarked) : events.filterMap Event.mark? = [] :=
  List.filterMap_eq_nil_iff.mpr h

theorem Grows.adds (h : Grows Event.Unmarked live after) : Adds [] live after := by
  obtain ⟨news, hevents, hkind⟩ := h.events
  refine ⟨?_, by simp [h.outcomes]⟩
  rw [Live.marks, hevents, List.filterMap_append, filterMap_mark?_of_unmarked hkind]
  rfl

theorem Records.adds (h : Records Event.Unmarked outcome live after) :
    Adds [.recorded outcome] live after := by
  obtain ⟨before, time, later, hevents, hbefore, hlater⟩ := h.events
  refine ⟨?_, by simp [h.outcomes, Mark.outcome?]⟩
  have hmark : Event.mark? (.recorded time outcome) = some (.recorded outcome) := rfl
  rw [Live.marks, hevents, List.filterMap_append, List.filterMap_append,
    List.filterMap_cons_some hmark, filterMap_mark?_of_unmarked hbefore,
    filterMap_mark?_of_unmarked fun event hevent ↦ (hlater event hevent).unmarked]
  rfl

theorem enter_adds (place : Place) (live : Live σ) :
    Adds [.visited place] live (live.enter place) := by
  refine ⟨?_, by simp [enter, note, Mark.outcome?]⟩
  rw [Live.marks, enter, note, List.filterMap_append]
  rfl

theorem leave_adds (setting : Setting σ) (owner : Opened) (passage : Passage) (live : Live σ) :
    ∃ outcome : Outcome, outcome.IsOf owner.step owner.place ∧
      Adds [.recorded outcome] live (live.leave setting owner passage) :=
  ⟨_, ⟨rfl, rfl, rfl⟩, (close_records _ _ owner live).adds⟩

/-- An outcome behind a visit and what is below it makes an activation. -/
theorem Adds.activation {step : Step} {place : Place} {below : List Activation}
    (hof : outcome.IsOf step place)
    (hbelow : Adds (Activation.traceMarks below ++ [.recorded outcome]) (live.enter place) after) :
    Adds (Activation.mk outcome below).marks live after := by
  obtain ⟨-, -, rfl⟩ := hof
  exact (enter_adds _ live).trans hbelow

end Live

/-! ### The trace of a run -/

variable {setting : Setting σ} {live after : Live σ}

/-- What work leaves: a list leaves a trace of its steps, a visit an activation unless the run is
cancelled before it, and a loop turns of its body and its own outcome. -/
def Work.Leaves (passage : Passage) (live after : Live σ) : Work → Prop
  | .list rest site index => ∃ trace, Visits rest site index trace ∧
      live.Adds (Activation.traceMarks trace) after
  | .visit step place =>
      (∃ activation, Activates step place activation ∧ live.Adds activation.marks after) ∨
        (passage ≠ .through ∧ after = live)
  | .loop owner body _ => ∃ outcome : Outcome, outcome.IsOf owner.step owner.place ∧
      ∃ below, Turns body (owner.place.list .body) below ∧
        live.Adds (Activation.traceMarks below ++ [.recorded outcome]) after

/-- Work leaves what its rules leave. -/
theorem Carried.leaves {work : Work} {passage : Passage}
    (h : Carried setting work live passage after) : work.Leaves passage live after := by
  induction h with
  | done => exact ⟨[], .left, .refl _⟩
  | next _ _ ihvisit ihrest =>
    obtain ⟨first, hfirst, hadds⟩ := ihvisit.resolve_right fun h ↦ h.1 rfl
    obtain ⟨others, hothers, hmore⟩ := ihrest
    exact ⟨first :: others, .next hfirst hothers, hadds.trans hmore⟩
  | last _ ihvisit =>
    rcases ihvisit with ⟨first, hfirst, hadds⟩ | ⟨-, rfl⟩
    · exact ⟨[first], .next hfirst .left, by simpa [Activation.traceMarks] using hadds⟩
    · exact ⟨[], .left, .refl _⟩
  | cancelled _ => exact .inr ⟨by simp, rfl⟩
  | @skipped step place live hgoes hfound =>
    obtain ⟨hrecords, hof, -⟩ := Live.passedOver_reports setting step place (live.enter place)
    exact .inl ⟨_, .bare hof, .activation hof hrecords.adds⟩
  | @stumbled step place live fault hgoes hfound =>
    obtain ⟨outcome, hrecords, hof, -⟩ :=
      Live.stumbled_reports setting (live.opened step place) fault (live.enter place)
    exact .inl ⟨_, .bare hof, .activation hof hrecords.adds⟩
  | acted hgoes hfound hperform =>
    obtain ⟨outcome, hrecords, hof, -⟩ := Live.perform_reports hperform
    obtain rfl := Step.eq_act_of_approach hfound
    exact .inl ⟨_, .bare hof, .activation hof hrecords.adds⟩
  | @branched step place live after side chosen passage hgoes hfound _ ihbody =>
    obtain ⟨below, hbelow, hadds⟩ := ihbody
    obtain ⟨outcome, hof, hleave⟩ :=
      after.leave_adds setting (live.opened step place) passage
    exact .inl ⟨.mk outcome below, .of_approach hfound hof hbelow,
      .activation hof (hadds.trans hleave)⟩
  | looped hgoes hfound _ ihturns =>
    obtain ⟨outcome, hof, below, hbelow, hadds⟩ := ihturns
    obtain ⟨header, spec, rfl, -⟩ := Step.eq_loop_of_approach hfound
    exact .inl ⟨.mk outcome below, .loop hof hbelow, .activation hof hadds⟩
  | @halted owner body cursor live hcancelled =>
    obtain ⟨outcome, hof, hleave⟩ := live.leave_adds setting owner (.atEnd live.cancellation)
    exact ⟨outcome, hof, [], .none, hleave⟩
  | @refused owner body cursor live fault hgoes hnext =>
    obtain ⟨outcome, hrecords, hof, -⟩ :=
      Live.stumbled_reports setting owner fault (live.askLoop owner)
    exact ⟨outcome, hof, [], .none, (live.askLoop_grows owner).adds.trans hrecords.adds⟩
  | @turned owner body cursor live middle after turn passage hgoes hnext hturn _ _ ihbody ihrest =>
    obtain ⟨first, hfirst, hadds⟩ := ihbody
    obtain ⟨outcome, hof, others, hothers, hmore⟩ := ihrest
    refine ⟨outcome, hof, first ++ others, .turn hfirst hothers, ?_⟩
    rw [Activation.traceMarks_append, List.append_assoc]
    exact (Live.startTurn_grows setting owner turn live).adds.trans (hadds.trans hmore)
  | @brokenOff owner body cursor live after turn ending hgoes hnext hturn _ ihbody =>
    obtain ⟨first, hfirst, hadds⟩ := ihbody
    obtain ⟨outcome, hof, hleave⟩ := after.leave_adds setting owner (.atEnd ending)
    refine ⟨outcome, hof, first ++ [], .turn hfirst .none, ?_⟩
    rw [List.append_nil]
    exact (Live.startTurn_grows setting owner turn live).adds.trans (hadds.trans hleave)
  | @finished owner body cursor live turn hgoes hnext hturn =>
    have hgrows := (Live.startTurn_grows setting owner turn live).trans
      (Live.finishLoop_grows setting owner turn _).unmarked
    obtain ⟨outcome, hof, hleave⟩ := Live.leave_adds setting owner .through
      (((live.askLoop owner).takeTurn setting owner.step turn).finishLoop setting owner turn)
    exact ⟨outcome, hof, [], .none, hgrows.adds.trans hleave⟩

namespace Live

theorem IsFresh.marks (h : live.IsFresh) : live.marks = [] := by
  rw [Live.marks, h.events, List.filterMap_nil]

end Live

namespace Workflow

variable {host : Host σ} {options : RunParameters} {document : Datum} {turns : Nat}
  {result : RunResult} {validated : Validated}

/-- The result of a run and what it leaves behind, if there is a result. -/
def returned? : Option (Except Failure RunResult × Live σ) → Option (RunResult × Live σ)
  | some (.ok result, after) => some (result, after)
  | _ => none

theorem eq_some_of_returned? {outcome : Option (Except Failure RunResult × Live σ)}
    (h : returned? outcome = some (result, after)) : outcome = some (.ok result, after) := by
  unfold returned? at h
  split at h
  · obtain ⟨rfl, rfl⟩ := Prod.mk.inj (Option.some.inj h)
    rfl
  · simp at h

/-- The visits and outcomes of a run are the brackets of a trace of its steps, and the outcomes of
its result are the outcomes of the trace in post-order; each place has as many outcomes as
visits. -/
theorem run_postorder (hfresh : live.IsFresh)
    (hrun : run host options document turns live = some (.ok result, after)) :
    ∃ validated trace, validate document = .ok validated ∧
      Visits validated.workflow.steps [] 0 trace ∧
      after.marks = Activation.traceMarks trace ∧
      result.outcomes = Activation.tracePostorder trace ∧
      (after.marks.filterMap Mark.visit?).Perm (result.outcomes.map Outcome.place) := by
  obtain ⟨validated, passage, middle, hvalid, hcarried, rfl, rfl⟩ := carried_of_run hrun
  obtain ⟨trace, hvisits, hadds⟩ := hcarried.leaves
  have hopening := (opening_grows validated host options live).unmarked.adds
  have hclosing := (conclude_grows passage.ending live.time
    (validated.workflow.setting host options) middle).unmarked.adds
  have hall := (hopening.trans hadds).trans hclosing
  rw [List.nil_append, List.append_nil] at hall
  have hmarks := hall.marks
  have houtcomes := hall.outcomes
  rw [hfresh.marks, List.nil_append] at hmarks
  rw [hfresh.outcomes, List.nil_append, Activation.outcomes_traceMarks] at houtcomes
  refine ⟨validated, trace, hvalid, hvisits, hmarks, houtcomes, ?_⟩
  change List.Perm _ (List.map Outcome.place (Live.outcomes _))
  rw [houtcomes, hmarks]
  exact Activation.visits_tracePerm trace

/-- A document with a loop over two clicks. The first holds a template and may fail. -/
def clickingLoop : Datum :=
  .object [("name", .text "clicks"), ("version", .text "1"), ("steps", .sequence [
    .object [("name", .text "twice"), ("action", .text "loop"),
      ("value", .object [("type", .text "repeat"), ("times", .number 2),
        ("variable", .text "n")] []),
      ("steps", .sequence [
        .object [("name", .text "try"), ("action", .text "click"),
          ("selector", .text "#a\x7b\x7b n \x7d\x7d"), ("on_error", .text "continue")] [],
        .object [("name", .text "insist"), ("action", .text "click"),
          ("selector", .text "#b")] []])] []])] []

/-- A host that refuses every request. -/
def refusing : Host Unit where
  reply := fun _ _ _ ↦ (⟨none, [], some 0, .error (.text "refused")⟩, ())
  rest := fun _ _ ↦ (none, ())
  notice := fun _ _ ↦ (none, ())

/-- A run that fails within a loop reports the clicks and then the loop. -/
theorem run_postorder_clickingLoop :
    ∃ result after trace,
      run refusing (.standard "clicks") clickingLoop 5 (idle 0 .quiet ()) =
        some (.ok result, after) ∧
      result.status = .failed ∧ result.outcomes.length = 3 ∧
      after.marks = Activation.traceMarks trace ∧
      result.outcomes = Activation.tracePostorder trace := by
  have hreturned : (returned? (run refusing (.standard "clicks") clickingLoop 5
      (idle 0 .quiet ()))).map (fun found ↦ (found.1.status, found.1.outcomes.length)) =
        some (.failed, 3) := by decide +kernel
  obtain ⟨⟨result, after⟩, hfound, hshape⟩ := Option.map_eq_some_iff.mp hreturned
  obtain ⟨hstatus, hlength⟩ := Prod.mk.inj hshape
  have hrun := eq_some_of_returned? hfound
  obtain ⟨_, trace, -, -, hmarks, houtcomes, -⟩ := run_postorder ⟨rfl, rfl⟩ hrun
  exact ⟨result, after, trace, hrun, hstatus, hlength, hmarks, houtcomes⟩

end Workflow

end BrowserFlow
