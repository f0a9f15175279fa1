import BrowserFlow.Proofs.Document.Located
import BrowserFlow.Proofs.Run.Frame
import BrowserFlow.Proofs.Workflow.ResultKeys

/-!
The names that a run binds. What has a result binds it under a key, which is
always a name; an assignment is prepared only when its target is a name; and the
variable of a loop is what the document says, which is not empty but need not be
a name. So all that a run binds are names, but for the variables of loops
(`Workflow.run_binds_names`), and these are the one exception: a document is
accepted whose loop has a variable that no template can read, and its run binds
it (`Workflow.not_forall_run_binds_names`).
-/

set_option autoImplicit false
set_option relaxedAutoImplicit false

namespace BrowserFlow

variable {σ : Type} {setting : Setting σ}

/-! ### The variables of loops -/

/-- The variable of a loop that was read is not empty. -/
theorem Document.isEmpty_of_counter? {d : Datum} {spec : Iteration} {name : Text}
    (h : iteration d = .ok spec) (hcounter : spec.counter? = some name) :
    name.isEmpty = false := by
  rcases iteration_cases h with ⟨_, _, rfl, -⟩ | ⟨_, _, _, _, rfl, hread⟩ | ⟨_, _, rfl, hread⟩ |
    ⟨_, _, rfl, hread⟩
  · cases hcounter
  · obtain rfl := Option.some.inj hcounter
    exact ne_nil_of_someText hread
  · obtain rfl := Option.some.inj hcounter
    exact ne_nil_of_someText hread
  · rcases Checked.optional_eq_ok.mp hread with ⟨-, rfl⟩ | ⟨-, counter, hsome, rfl⟩
    · cases hcounter
    · obtain rfl := Option.some.inj hcounter
      exact ne_nil_of_someText hsome

namespace Walk

variable {steps : List Step} {walk : Walk σ} {bindings : List Binding}

/-- A turn binds names, or the variable of a loop. -/
theorem Writes.named (h : walk.Writes setting bindings) (hwithin : walk.Within steps) :
    ∀ binding ∈ bindings, binding.1.isName = true ∨
      ∃ place step, Step.stepAt? steps place = some step ∧ step.counter? = some binding.1 := by
  intro binding hbinding
  cases h with
  | left | skipped | opened | refused => cases hbinding
  | @swallowed place step _ _ _ =>
    unfold Step.resultBindings at hbinding
    split at hbinding
    · obtain rfl := List.mem_singleton.mp hbinding
      exact .inl step.resultKey_isName
    · cases hbinding
  | @done place header action timeout recorded task slot _ _ _ htask _ _ =>
    rcases List.mem_append.mp hbinding with hassigned | hkey
    · cases task with
      | request _ => cases hassigned
      | halt _ => cases hassigned
      | assign target value append =>
        obtain rfl := List.mem_singleton.mp hassigned
        obtain ⟨_, _, _, -, -, hname, -⟩ := Action.eq_setVariable_of_task htask
        exact .inl hname
    · obtain rfl := List.mem_singleton.mp hkey
      exact .inl (Step.resultKey_isName _)
  | @asked owner body cursor below turn hstack hturn =>
    obtain ⟨hin, header, spec, howner, hdrives⟩ :=
      hwithin (.loop owner body cursor) (hstack ▸ List.mem_cons_self)
    have hcounter := Cursor.counter?_of_binding hturn hbinding
    rw [hdrives.counter?_eq] at hcounter
    exact .inr ⟨owner.place, owner.step, hin.1, howner ▸ hcounter⟩

end Walk

namespace Environment

/-- Writing bindings over an environment adds no names but theirs. -/
theorem has_of_has_replay {env : Environment} {bindings : List Binding} {name : Text}
    (h : (env.replay bindings).has name = true) :
    env.has name = true ∨ ∃ binding ∈ bindings, binding.1 = name := by
  by_cases hbound : ∃ binding ∈ bindings, binding.1 = name
  · exact .inr hbound
  · have hother : ∀ binding ∈ bindings, binding.1 ≠ name := fun binding hbinding heq ↦
      hbound ⟨binding, hbinding, heq⟩
    rw [has, Entries.has, find?_replay hother] at h
    exact .inl h

end Environment

namespace Workflow

variable {host : Host σ} {options : RunParameters} {document : Datum} {live after : Live σ}
  {validated : Validated}

/-- What a run of a workflow may bind: names, and the variables of its loops, which are not
empty. -/
def MayBind (w : Workflow) (name : Text) : Prop :=
  name.isName = true ∨ (name.isEmpty = false ∧
    ∃ place step, (place, step) ∈ w.located ∧ step.counter? = some name)

/-- A run of a workflow that has bound only what it may. All other names it was given. -/
structure BindsNames (w : Workflow) (options : RunParameters) (live : Live σ) : Prop where
  /-- What has been bound. -/
  bound : ∀ name slot, Event.bound name slot ∈ live.events → w.MayBind name
  /-- The names that there are. -/
  held : ∀ name, live.environment.has name = true →
    Entries.has (w.startingVariables options) name = true ∨ w.MayBind name

theorem BindsNames.binds {w : Workflow} {bindings : List Binding}
    (hlive : w.BindsNames options live) (h : Live.Binds bindings live after)
    (hbindings : ∀ binding ∈ bindings, w.MayBind binding.1) : w.BindsNames options after := by
  refine ⟨fun name slot hbound ↦ ?_, fun name hheld ↦ ?_⟩
  · rcases h.mem_of_bound hbound with hbefore | hnew
    · exact hlive.bound name slot hbefore
    · exact hbindings _ hnew
  · rw [h.environment] at hheld
    rcases Environment.has_of_has_replay hheld with hbefore | ⟨binding, hnew, rfl⟩
    · exact hlive.held name hbefore
    · exact .inr (hbindings binding hnew)

/-- What a turn of a run binds it may bind. -/
theorem mayBind_of_writes (hvalid : validate document = .ok validated) {walk : Walk σ}
    {bindings : List Binding} (h : walk.Writes setting bindings)
    (hwithin : walk.Within validated.workflow.steps) :
    ∀ binding ∈ bindings, validated.workflow.MayBind binding.1 := by
  intro binding hbinding
  rcases h.named hwithin binding hbinding with hname | ⟨place, step, hstep, hcounter⟩
  · exact .inl hname
  · cases step with
    | loop header spec body =>
      obtain ⟨d, hread⟩ := exists_iteration_of_stepAt? hvalid hstep
      exact .inr ⟨Document.isEmpty_of_counter? hread hcounter, place, _,
        Step.mem_locatedFrom hstep, hcounter⟩
    | act _ _ => cases hcounter
    | branch _ _ _ _ => cases hcounter

theorem bindsNames_of_reaches (hfresh : live.IsFresh) (hvalid : validate document = .ok validated)
    {walk : Walk σ} (hreaches : Walk.Reaches (validated.workflow.setting host options)
      (firstWalk validated host options live) walk) :
    validated.workflow.BindsNames options walk.live := by
  induction hreaches with
  | start =>
    exact ⟨fun name slot hbound ↦ absurd hbound (not_bound_firstWalk hfresh name slot),
      fun name hheld ↦ .inl hheld⟩
  | @turn walk next hreaches hturn ih =>
    have hwithin := hreaches.within (firstWalk_within validated host options live)
    obtain ⟨bindings, hwrites, hbinds⟩ := hwithin.writes hturn
    exact ih.binds hbinds (mayBind_of_writes hvalid hwrites hwithin)

/-- All that a run binds are names, for results and for the targets of assignments, and the
variables of the loops of the document, which are not empty; at any moment all other names are
those that the run was given. -/
theorem run_binds_names (hfresh : live.IsFresh) (hvalid : validate document = .ok validated) :
    (∀ walk, Walk.Reaches (validated.workflow.setting host options)
      (firstWalk validated host options live) walk →
      validated.workflow.BindsNames options walk.live) ∧
    ∀ turns outcome after, run host options document turns live = some (outcome, after) →
      validated.workflow.BindsNames options after := by
  refine ⟨fun walk ↦ bindsNames_of_reaches hfresh hvalid, fun turns outcome after hrun ↦ ?_⟩
  obtain ⟨walk, ending, last, hreaches, hturn, rfl, -⟩ := reached_of_run hvalid hrun
  have hwithin := hreaches.within (firstWalk_within validated host options live)
  have hlast := (hwithin.frugal).ending hturn
  have hafter := hlast.quietly
    (conclude_binds ending live.time (validated.workflow.setting host options) last)
  exact (bindsNames_of_reaches hfresh hvalid hreaches).binds hafter (by simp)

/-- The tally binds its total, its clicks and the variable of its loop. -/
theorem run_binds_names_tallyingLoop :
    ∃ validated result after, validate tallyingLoop = .ok validated ∧
      run refusing (.standard "tally") tallyingLoop 12 (idle 0 .quiet ()) =
        some (.ok result, after) ∧
      after.environment.names = (["kept", "n", "total", "count", "try"] : List Text) ∧
      validated.workflow.BindsNames (.standard "tally") after := by
  have hreturned : (returned? (run refusing (.standard "tally") tallyingLoop 12
      (idle 0 .quiet ()))).map (fun found ↦ found.2.environment.names) =
        some (["kept", "n", "total", "count", "try"] : List Text) := by decide +kernel
  obtain ⟨⟨result, after⟩, hresult, hnames⟩ := Option.map_eq_some_iff.mp hreturned
  have hrun := eq_some_of_returned? hresult
  obtain ⟨validated, _, _, hvalid, -, -, -⟩ := carried_of_run hrun
  exact ⟨validated, result, after, hvalid, hrun, hnames,
    (run_binds_names ⟨rfl, rfl⟩ hvalid).2 12 _ after hrun⟩

/-- A document with a loop over two items, whose variable is no name. -/
def spacedItems : Datum :=
  .object [("name", .text "items"), ("version", .text "1.0"), ("steps", .sequence [
    .object [("name", .text "Each"), ("action", .text "loop"),
      ("value", .object [("type", .text "for_each"), ("variable", .text "my item"),
        ("items", .sequence [.text "a", .text "b"])] []),
      ("steps", .sequence [
        .object [("name", .text "Go"), ("action", .text "click"), ("selector", .text "#go"),
          ("on_error", .text "continue")] []])] []])] []

/-- The variable of a loop is not checked, so not every run binds only names. -/
theorem not_forall_run_binds_names :
    ¬ ∀ (host : Host Unit) (options : RunParameters) (document : Datum) (validated : Validated)
        (turns : Nat) (live after : Live Unit) (result : RunResult), live.IsFresh →
      validate document = .ok validated →
      run host options document turns live = some (.ok result, after) →
      ∀ name slot, Event.bound name slot ∈ after.events → name.isName = true := by
  intro hnames
  have hreturned : (returned? (run refusing (.standard "items") spacedItems 20
      (idle 0 .quiet ()))).any (fun found ↦
        (found.2.events.filterMap Event.binding?).any fun binding ↦ !binding.1.isName) = true := by
    decide +kernel
  obtain ⟨⟨result, after⟩, hresult, hbindings⟩ := (Option.any_eq_true _ _).mp hreturned
  have hrun := eq_some_of_returned? hresult
  obtain ⟨validated, _, _, hvalid, -, -, -⟩ := carried_of_run hrun
  obtain ⟨⟨name, slot⟩, hmem, hnot⟩ := List.any_eq_true.mp hbindings
  obtain ⟨event, hevent, hbinding⟩ := List.mem_filterMap.mp hmem
  obtain rfl : event = .bound name slot := by
    cases event with
    | bound other held =>
      obtain ⟨rfl, rfl⟩ := Prod.mk.inj (Option.some.inj hbinding)
      rfl
    | _ => cases hbinding
  have hname := hnames refusing _ spacedItems validated 20 _ after result ⟨rfl, rfl⟩ hvalid hrun
    name slot hevent
  simp [hname] at hnot

end Workflow

end BrowserFlow
