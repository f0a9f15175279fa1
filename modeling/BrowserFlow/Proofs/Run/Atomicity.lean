import BrowserFlow.Proofs.Run.Frame
import BrowserFlow.Proofs.Run.Interruption

/-!
Actions that fail leave the names alone. Only the attempt that succeeds assigns, so
an action that is given up has bound nothing, however often it was attempted and
whatever cut its attempts short. When it ends the run, nothing is bound behind it
either; when the run goes on, null is bound for the result of its step, and nothing
for a step without one (`Walk.failure_binds`).
-/

set_option autoImplicit false
set_option relaxedAutoImplicit false

namespace BrowserFlow

variable {σ : Type} {setting : Setting σ} {header : StepHeader} {action : Action}

/-! ### Actions that are given up -/

namespace Live

variable {live middle : Live σ} {count : Nat} {fault : Fault} {ends : Bool}

/-- An action that is given up has bound nothing. -/
theorem binds_of_failed (h : Policy.carryOut (surroundings setting) header setting.retry
      (undertaking setting header action live) live =
        some (.ok (.failed count fault ends), middle)) : Binds [] live middle :=
  carryOut_binds h

/-- An action that is given up for good ends the run, which has bound nothing for it. -/
theorem perform_of_failed (h : Policy.carryOut (surroundings setting) header setting.retry
      (undertaking setting header action live) live =
        some (.ok (.failed count fault true), middle)) (place : Place) (startedAt : Number) :
    ∃ after, live.perform setting header action place startedAt = some (.ok (.fails fault), after) ∧
      Binds [] live after := by
  refine ⟨_, by rw [perform_eq, h]; rfl, ?_⟩
  exact (binds_of_failed h).quietly (record_binds setting _ middle)

/-- An action whose failure is tolerated binds null for the result of its step. -/
theorem perform_of_tolerated (h : Policy.carryOut (surroundings setting) header setting.retry
      (undertaking setting header action live) live =
        some (.ok (.failed count fault false), middle)) (place : Place) (startedAt : Number) :
    ∃ after, live.perform setting header action place startedAt = some (.ok .goesOn, after) ∧
      Binds ((Step.act header action).resultBindings (some .null)) live after := by
  refine ⟨_, by rw [perform_eq, h]; rfl, ?_⟩
  have hbound := (binds_of_failed h).trans
    (bindResult_binds (.act header action) (some .null) middle)
  exact hbound.quietly (record_binds setting _ _)

theorem environment_of_result {after : Live σ}
    (h : Binds ((Step.act header action).resultBindings (some .null)) live after) :
    after.environment = if action.isStop then live.environment
      else live.environment.set (Step.act header action).resultKey (some .null) := by
  rw [h.environment, Step.resultBindings, Step.hasResult]
  cases action.isStop <;> rfl

end Live

/-! ### Turns with an action -/

namespace Walk

variable {walk : Walk σ} {place : Place}

/-- A walk comes to an action that is carried out now: the run is not cancelled, and the guard of
the step holds. -/
structure CarriesOut (walk : Walk σ) (place : Place) (header : StepHeader) (action : Action) :
    Prop where
  /-- The run is not cancelled. -/
  goes : walk.live.isCancelled = false
  /-- The action is the next step. -/
  next : walk.next? = some (place, .act header action)
  /-- Its guard holds. -/
  held : (Step.act header action).approach walk.live.scope = .act header action

/-- The turn of such a walk is what the action comes to. -/
theorem CarriesOut.exists_turn (h : walk.CarriesOut place header action) {ended : ActionEnd}
    {after : Live σ}
    (hperform : (walk.live.enter place).perform setting header action place
      (walk.live.opened (.act header action) place).startedAt = some (.ok ended, after)) :
    ∃ below, walk.turn setting = (ended.passage after).progress setting ⟨after, below⟩ := by
  obtain ⟨live, stack⟩ := walk
  obtain ⟨hgoes, hnext, hheld⟩ := h
  unfold next? at hnext
  split at hnext
  · next step rest site index owner below hstack =>
    obtain rfl : stack = .steps (step :: rest) site index owner :: below := hstack
    obtain ⟨rfl, rfl⟩ := Prod.mk.inj (Option.some.inj hnext)
    refine ⟨.steps rest site (index + 1) owner :: below, ?_⟩
    rw [turn_cons, arrive_eq hgoes, hheld, found, hperform]
  · cases hnext

/-- A run whose walk comes to its end without binding a name leaves the names as they are. -/
theorem exists_run_of_ended {document : Datum} {validated : Workflow.Validated} {host : Host σ}
    {options : RunParameters} {live after : Live σ} {ending : Ending}
    (hvalid : Workflow.validate document = .ok validated)
    (hreaches : Reaches (validated.workflow.setting host options)
      (Workflow.firstWalk validated host options live) walk)
    (hturn : walk.turn (validated.workflow.setting host options) = .ended ending after)
    (hquiet : walk.live.Binds [] after) :
    ∃ turns result last, Workflow.run host options document turns live = some (.ok result, last) ∧
      walk.live.Binds [] last ∧
      result.bindings = walk.live.environment.snapshot options.exported := by
  have hends := (hreaches.ends_iff (.ok ending, after)).mpr
    ((ends_iff_turn walk _).mpr ⟨0, by rw [hturn]; rfl⟩)
  obtain ⟨turns, hrun⟩ := Workflow.run_of_ends hvalid hends
  have hlast := hquiet.quietly (Workflow.conclude_binds ending live.time
    (validated.workflow.setting host options) after)
  exact ⟨turns, _, _, hrun, hlast,
    congrArg (Environment.snapshot · options.exported) hlast.environment_eq⟩

/-- Whatever an action does that fails in the end, it binds nothing: no attempt that fails does, and
neither do all attempts together. The run fails with it unless the policy is to continue, and then
nothing is bound to the end of the run. Otherwise the result of the step is bound to null, if it has
one, and no other name is touched. -/
theorem failure_binds {count : Nat} {fault : Fault} {ends : Bool} {middle : Live σ}
    (hcarries : walk.CarriesOut place header action)
    (hfailed : Policy.carryOut (Live.surroundings setting) header setting.retry
      (Live.undertaking setting header action (walk.live.enter place)) (walk.live.enter place) =
        some (.ok (.failed count fault ends), middle)) :
    (∀ task (live after : Live σ) thrown,
      live.attempt setting header task = some (.error thrown, after) → live.Binds [] after) ∧
    walk.live.Binds [] middle ∧
    ends = decide (header.policy ≠ .continue) ∧
    (ends = true →
      (∃ ending after, walk.turn setting = .ended ending after ∧ walk.live.Binds [] after) ∧
      ∀ document validated host options live, Workflow.validate document = .ok validated →
        setting = validated.workflow.setting host options →
        Reaches setting (Workflow.firstWalk validated host options live) walk →
        ∃ turns result after, Workflow.run host options document turns live =
            some (.ok result, after) ∧
          walk.live.Binds [] after ∧
          result.bindings = walk.live.environment.snapshot options.exported) ∧
    (ends = false →
      ∃ next, walk.turn setting = .going next ∧
        walk.live.Binds ((Step.act header action).resultBindings (some .null)) next.live ∧
        next.live.environment = if action.isStop then walk.live.environment
          else walk.live.environment.set (Step.act header action).resultKey (some .null)) := by
  have hentered := walk.live.enter_binds place
  refine ⟨fun task live after thrown ↦ Live.attempt_error_binds,
    hentered.quietly (Live.binds_of_failed hfailed), Policy.ends_of_carryOut hfailed, ?_, ?_⟩
  · rintro rfl
    obtain ⟨after, hperform, hbinds⟩ := Live.perform_of_failed hfailed place
      (walk.live.opened (.act header action) place).startedAt
    obtain ⟨below, hturn⟩ := hcarries.exists_turn hperform
    have hended := (hentered.quietly hbinds).quietly (Live.closeAll_binds setting
      ((ActionEnd.fails fault).passage after).stepEnding
      ((ActionEnd.fails fault).passage after).fault? below after)
    refine ⟨⟨_, _, hturn, hended⟩, ?_⟩
    rintro document validated host options live hvalid rfl hreaches
    exact exists_run_of_ended hvalid hreaches hturn hended
  · rintro rfl
    obtain ⟨after, hperform, hbinds⟩ := Live.perform_of_tolerated hfailed place
      (walk.live.opened (.act header action) place).startedAt
    obtain ⟨below, hturn⟩ := hcarries.exists_turn hperform
    have hbound := hentered.trans hbinds
    exact ⟨_, hturn, hbound, Live.environment_of_result hbound⟩

/-- How often the action that a walk comes to is attempted, and whether the run ends with it, if it
is carried out now and fails. -/
def failing? (setting : Setting σ) (walk : Walk σ) : Option (Nat × Bool) :=
  match walk.next? with
  | some (place, .act header action) =>
    match (Step.act header action).approach walk.live.scope,
      Policy.carryOut (Live.surroundings setting) header setting.retry
        (Live.undertaking setting header action (walk.live.enter place))
        (walk.live.enter place) with
    | .act _ _, some (.ok (.failed count _ ends), _) =>
      if walk.live.isCancelled then none else some (count, ends)
    | _, _ => none
  | _ => none

theorem exists_of_failing? {count : Nat} {ends : Bool}
    (h : failing? setting walk = some (count, ends)) :
    ∃ place header action fault middle, walk.CarriesOut place header action ∧
      Policy.carryOut (Live.surroundings setting) header setting.retry
        (Live.undertaking setting header action (walk.live.enter place)) (walk.live.enter place) =
          some (.ok (.failed count fault ends), middle) := by
  unfold failing? at h
  split at h
  · next place header action hnext =>
    split at h
    · next hheld hfailed =>
      split at h
      · cases h
      · next hgoes =>
        obtain ⟨rfl, rfl⟩ := Prod.mk.inj (Option.some.inj h)
        obtain ⟨rfl, rfl⟩ := Step.act.inj (Step.eq_act_of_approach hheld)
        exact ⟨place, header, action, _, _, ⟨by simpa using hgoes, hnext, hheld⟩, hfailed⟩
    · cases h
  · cases h

/-- A document with two additions to a variable that holds no sequence. The failure of the first is
tolerated. -/
def misfits : Datum :=
  .object [("name", .text "misfits"), ("version", .text "1"),
    ("variables", .object [("total", .text "none")] []),
    ("steps", .sequence [
      .object [("name", .text "try"), ("action", .text "set_variable"),
        ("selector", .text "total"), ("value", .number 1), ("append", .bool true),
        ("on_error", .text "continue")] [],
      .object [("name", .text "insist"), ("action", .text "set_variable"),
        ("selector", .text "total"), ("value", .number 2), ("append", .bool true)] []])] []

/-- The first addition binds null for its result, and the second ends the run with the variables
that there were before it. -/
theorem failure_binds_misfits :
    (∃ place header action, ∃ walk next : Walk Unit, walk.CarriesOut place header action ∧
      header.policy = .continue ∧
      walk.live.Binds ((Step.act header action).resultBindings (some .null)) next.live) ∧
    ∃ place header action turns result after, ∃ walk : Walk Unit,
      walk.CarriesOut place header action ∧ header.policy ≠ .continue ∧
      Workflow.run Workflow.refusing (.standard "misfits") misfits turns
        (Workflow.idle 0 .quiet ()) = some (.ok result, after) ∧
      walk.live.Binds [] after ∧ result.bindings = walk.live.environment.snapshot none := by
  have hreached : ((Workflow.validate misfits).toOption.map fun validated ↦ [0, 1].map fun turns ↦
      ((Workflow.firstWalk validated Workflow.refusing (.standard "misfits")
        (Workflow.idle 0 .quiet ())).ahead
        (validated.workflow.setting Workflow.refusing (.standard "misfits")) turns).bind
          (failing? (validated.workflow.setting Workflow.refusing (.standard "misfits")))) =
      some [some (1, false), some (1, true)] := by decide +kernel
  obtain ⟨validated, hvalid, hfailures⟩ := Option.map_eq_some_iff.mp hreached
  obtain ⟨htolerated, hfailed⟩ := List.cons.inj hfailures
  constructor
  · obtain ⟨walk, -, hfailing⟩ := Option.bind_eq_some_iff.mp htolerated
    obtain ⟨place, header, action, fault, middle, hcarries, hcarried⟩ :=
      exists_of_failing? hfailing
    obtain ⟨-, -, hends, -, hgoesOn⟩ := failure_binds hcarries hcarried
    obtain ⟨next, -, hbinds, -⟩ := hgoesOn rfl
    exact ⟨place, header, action, walk, next, hcarries, by simpa using hends, hbinds⟩
  · obtain ⟨walk, hahead, hfailing⟩ := Option.bind_eq_some_iff.mp (List.cons.inj hfailed).1
    obtain ⟨place, header, action, fault, middle, hcarries, hcarried⟩ :=
      exists_of_failing? hfailing
    obtain ⟨-, -, hends, hfails, -⟩ := failure_binds hcarries hcarried
    obtain ⟨turns, result, after, hrun, hbinds, hbindings⟩ := (hfails rfl).2 _ _ _ _ _
      (Workflow.validate_of_toOption hvalid) rfl (reaches_of_ahead hahead)
    exact ⟨place, header, action, turns, result, after, walk, hcarries, by simpa using hends,
      hrun, hbinds, hbindings⟩

end Walk

end BrowserFlow
