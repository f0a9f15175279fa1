import BrowserFlow.Proofs.Run.Frame
import BrowserFlow.Proofs.Value.Normalised

/-!
Normalised values in a run. What a request is answered with is made a normalised
value, but for what is loaded, which is bound as it is (`Call.result_normalised`).
What a loop binds is normalised: a counted one stops before its numbers pass a
finite end, and the items of another are resolved when it is opened
(`Cursor.next_normalised`). So a run that starts with normalised variables binds
nothing else, when what it loads is normalised and the numbers of the document
are finite (`Workflow.run_normalised`); a run that loads something else binds
that (`Workflow.not_forall_run_normalised`).
-/

set_option autoImplicit false
set_option relaxedAutoImplicit false

namespace BrowserFlow

variable {σ : Type}

/-! ### Environments -/

namespace Environment

variable {env : Environment}

/-- An environment in which every name is bound to a normalised value. -/
def IsNormalised (env : Environment) : Prop :=
  ∀ entry ∈ env.bindings, entry.2.any Value.isNormalised = true

theorem IsNormalised.find? (h : env.IsNormalised) {name : Text} {value : Value}
    (hvalue : env.find? name = some value) : value.isNormalised = true := by
  have hslot : Entries.find? env.bindings name = some (some value) := by
    simpa [Environment.find?, Option.join_eq_some_iff] using hvalue
  simpa using h _ (Entries.mem_of_find? hslot)

theorem IsNormalised.scope (h : env.IsNormalised) : env.scope.IsNormalised :=
  fun _ _ hvalue ↦ h.find? hvalue

theorem IsNormalised.set (h : env.IsNormalised) {name : Text} {slot : Option Value}
    (hslot : slot.any Value.isNormalised = true) : (env.set name slot).IsNormalised := by
  intro entry hentry
  rcases Entries.mem_write hentry with hold | rfl
  · exact h entry hold
  · exact hslot

theorem IsNormalised.replay (h : env.IsNormalised) {bindings : List Binding}
    (hbindings : ∀ binding ∈ bindings, binding.2.any Value.isNormalised = true) :
    (env.replay bindings).IsNormalised := by
  induction bindings generalizing env with
  | nil => exact h
  | cons binding rest ih =>
    obtain ⟨hbinding, hrest⟩ := List.forall_mem_cons.mp hbindings
    exact ih (h.set hbinding) hrest

/-- One more normalised item leaves the items of a name normalised. -/
theorem IsNormalised.extended (h : env.IsNormalised) {name : Text} {item : Value}
    {items : List Value} (hitem : item.isNormalised = true)
    (hitems : env.extended name item = .ok items) : ∀ other ∈ items, other.isNormalised = true := by
  unfold Environment.extended at hitems
  split at hitems
  · obtain rfl := Except.ok.inj hitems
    simpa using hitem
  · next before hbefore =>
    obtain rfl := Except.ok.inj hitems
    have hold := (Value.isNormalised_sequence before).mp (h.find? hbefore)
    exact List.forall_mem_append.mpr ⟨hold, by simpa using hitem⟩
  · cases hitems

theorem IsNormalised.snapshotOf (h : env.IsNormalised) (names : List Text) :
    ∀ entry ∈ env.snapshotOf names, entry.2.isNormalised = true := by
  unfold Environment.snapshotOf
  refine List.foldlRecOn (motive := fun done : Entries Value ↦
    ∀ entry ∈ done, entry.2.isNormalised = true) names _ (by simp) fun done hdone name _ ↦ ?_
  split
  · next hvalue => exact Entries.normalised_assign name hdone (h.find? hvalue)
  · exact hdone

end Environment

/-! ### Requests and assignments -/

/-- An answer that can be bound for a request: what is loaded is a normalised value, and what is
read off a page holds no integer that is too large for a number. The other answers are not bound. -/
def Call.Admits : Call → Datum → Prop
  | .load _, answer => ∃ value : Value, value.isNormalised = true ∧ answer = .ofValue value
  | .extract _ _, answer => answer.hasFiniteIntegers = true
  | .getText _, answer => answer.hasFiniteIntegers = true
  | .getAttribute _ _, answer => answer.hasFiniteIntegers = true
  | .evaluate _, answer => answer.hasFiniteIntegers = true
  | .executeScript _, answer => answer.hasFiniteIntegers = true
  | _, _ => True

/-- A host whose answers can be bound. -/
def Host.IsFinite (host : Host σ) : Prop :=
  ∀ now call state answer, (host.reply now call state).1.answer = .ok answer → call.Admits answer

/-- The value of a request is normalised: it is one of its operands, a truth value, or made of the
answer. -/
theorem Call.result_normalised {call : Call} {answer : Datum} {slot : Option Value}
    (hanswer : call.Admits answer)
    (hwait : ∀ seconds, call = .wait seconds → seconds.isFinite = true)
    (h : call.result answer = .ok slot) : slot.any Value.isNormalised = true := by
  have hcontent : answer.hasFiniteIntegers = true →
      (do .ok (some (← answer.normal)) : Except Failure (Option Value)) = .ok slot →
      slot.any Value.isNormalised = true := by
    intro hintegers hslot
    obtain ⟨value, hvalue, hslot⟩ := Except.parts_of_bind hslot
    obtain rfl := Except.ok.inj hslot
    exact Datum.normal_normalised hintegers hvalue
  cases call with
  | extract | getText | getAttribute | evaluate | executeScript => exact hcontent hanswer h
  | load path =>
    obtain ⟨value, hvalue, rfl⟩ := hanswer
    obtain rfl := Except.ok.inj h
    rw [Datum.stored_ofValue]
    exact hvalue
  | wait seconds =>
    obtain rfl := Except.ok.inj h
    exact hwait seconds rfl
  | navigate | click | hover | type | waitFor | screenshot | setInputFiles | save =>
    obtain rfl := Except.ok.inj h
    rfl

/-- What an iteration resolves to what it binds. -/
def Iteration.sources : Iteration → List Value
  | .whileHolds _ _ => []
  | .range _ start stop _ => [start.toValue, stop.toValue]
  | .forEach _ items => [items]
  | .times _ _ => []

/-- What a step resolves to what it binds. -/
def Step.sources : Step → List Value
  | .act _ (.wait seconds) => seconds.toList.map Amount.toValue
  | .act _ (.setVariable _ value _) => [value]
  | .loop _ spec _ => spec.sources
  | _ => []

/-- A step that resolves only finite numbers to what it binds. -/
def Step.IsFinite (step : Step) : Prop := ∀ value ∈ step.sources, value.isFinite = true

/-- The value of an action is normalised where the environment is. -/
theorem Task.Gives.isNormalised {setting : Setting σ} {env : Environment} {header : StepHeader}
    {action : Action} {timeout : Number} {recorded : Value} {task : Task} {slot : Option Value}
    (h : task.Gives setting env slot) (hhost : setting.host.IsFinite) (henv : env.IsNormalised)
    (hstep : (Step.act header action).IsFinite)
    (htask : action.task env.scope timeout recorded = .ok task) :
    slot.any Value.isNormalised = true := by
  have hassigned : ∀ {name value append}, task = .assign name value append →
      value.isNormalised = true := by
    rintro name value append rfl
    obtain ⟨target, source, appended, rfl, -, -, hvalue⟩ := Action.eq_setVariable_of_task htask
    exact Value.resolve_normalised henv.scope (hstep source (List.mem_singleton.mpr rfl)) hvalue
  cases h with
  | answered hreply hresult =>
    refine Call.result_normalised (hhost _ _ _ _ hreply) ?_ hresult
    rintro seconds rfl
    obtain ⟨amount, rfl, hseconds⟩ := Action.eq_wait_of_task htask
    refine Amount.resolve_isFinite henv.scope ?_ hseconds
    cases amount with
    | none =>
      have hone : (Number.ofNat 1).isFinite = true := Number.ofNat_isFinite (by decide)
      exact Value.isFinite_iff.mpr ⟨hone, by simp [Action.standardWait, Amount.toValue,
        Value.templates]⟩
    | some given => exact hstep given.toValue (List.mem_singleton.mpr rfl)
  | assigned => exact hassigned rfl
  | extended hitems =>
    exact (Value.isNormalised_sequence _).mpr (henv.extended (hassigned rfl) hitems)
  | @halted reason => cases reason <;> rfl

/-! ### Loops -/

/-- A course that has only normalised values left to bind: the next number of a counted one is
finite, unless it is past a finite end. -/
def Course.IsNormalised : Course → Prop
  | .whileHolds _ _ => True
  | .range _ next stop step =>
    stop.isFinite = true ∧ (Cursor.isWithin next stop step = true → next.isFinite = true)
  | .sequence _ rest => ∀ item ∈ rest, item.isNormalised = true

/-- A step within a finite end leads from one finite number to another. -/
theorem Cursor.add_isFinite_of_isWithin {next stop step : Number} (hnext : next.isFinite = true)
    (hstop : stop.isFinite = true) (h : isWithin (next + step) stop step = true) :
    (next + step).isFinite = true := by
  unfold isWithin at h
  split at h
  · next hup => exact Number.add_isFinite_of_le hnext hstop hup h
  · next hdown => exact Number.add_isFinite_of_ge hnext hstop (by simpa using hdown) h

/-- A turn binds normalised values, and its course goes on to do so. -/
theorem Cursor.next_normalised {cursor : Cursor} {scope : Scope} {turn : Turn}
    (hcourse : cursor.course.IsNormalised) (h : cursor.next scope = .ok turn) :
    (∀ binding ∈ turn.bindings, binding.2.any Value.isNormalised = true) ∧
      turn.cursor.course.IsNormalised := by
  rcases next_cases h with ⟨hnone, hcursor⟩ | ⟨_, _, hwhile, rfl⟩ |
    ⟨counter, next, stop, step, hrange, hwithin, rfl⟩ | ⟨counter, item, others, hitems, rfl⟩
  · exact ⟨by simp [Turn.bindings, hnone], hcursor ▸ hcourse⟩
  · exact ⟨by simp [Turn.bindings, Cursor.turn], hcourse⟩
  · rw [hrange] at hcourse
    obtain ⟨hstop, hnext⟩ := hcourse
    refine ⟨fun binding hbinding ↦ ?_, hstop, add_isFinite_of_isWithin (hnext hwithin) hstop⟩
    cases counter with
    | none => simp [Turn.bindings, Cursor.turn] at hbinding
    | some name =>
      obtain rfl := List.mem_singleton.mp hbinding
      exact hnext hwithin
  · rw [hitems] at hcourse
    obtain ⟨hitem, hothers⟩ := List.forall_mem_cons.mp hcourse
    refine ⟨fun binding hbinding ↦ ?_, hothers⟩
    obtain rfl := List.mem_singleton.mp hbinding
    exact hitem

theorem Iteration.course_normalised {spec : Iteration} {scope : Scope} {course : Course}
    (hscope : scope.IsNormalised) (hsources : ∀ value ∈ spec.sources, value.isFinite = true)
    (h : spec.course scope = .ok course) : course.IsNormalised := by
  rcases course_cases h with ⟨_, _, rfl, rfl⟩ |
    ⟨counter, start, stop, step, first, last, pace, rfl, hfirst, hlast, -, -, rfl⟩ |
    ⟨counter, items, resolved, rfl, hitems, rfl⟩ | ⟨count, counter, turns, rfl, -, hturns, -, rfl⟩
  · trivial
  · have hstart := Amount.resolve_isFinite hscope (hsources _ (by simp [sources])) hfirst
    have hstop := Amount.resolve_isFinite hscope (hsources _ (by simp [sources])) hlast
    exact ⟨hstop, fun _ ↦ hstart⟩
  · have hresolved := Value.resolve_normalised hscope (hsources items (by simp [sources])) hitems
    exact (Value.isNormalised_sequence resolved).mp hresolved
  · exact ⟨Number.isFinite_of_isInteger hturns, fun _ ↦ Number.ofNat_isFinite (by decide)⟩

/-! ### Runs -/

/-- A run that has bound only normalised values. -/
structure Live.IsNormalised (live : Live σ) : Prop where
  /-- What the names are bound to. -/
  environment : live.environment.IsNormalised
  /-- What they have been bound to. -/
  bound : ∀ name slot, Event.bound name slot ∈ live.events → slot.any Value.isNormalised = true

theorem Live.Binds.isNormalised {bindings : List Binding} {live after : Live σ}
    (h : Live.Binds bindings live after) (hlive : live.IsNormalised)
    (hbindings : ∀ binding ∈ bindings, binding.2.any Value.isNormalised = true) :
    after.IsNormalised := by
  refine ⟨?_, fun name slot hbound ↦ ?_⟩
  · rw [h.environment]
    exact hlive.environment.replay hbindings
  · rcases h.mem_of_bound hbound with hbefore | hnew
    · exact hlive.bound name slot hbefore
    · exact hbindings (name, slot) hnew

theorem Step.resultBindings_normalised (step : Step) :
    ∀ binding ∈ step.resultBindings (some .null), binding.2.any Value.isNormalised = true := by
  intro binding hbinding
  unfold resultBindings at hbinding
  split at hbinding
  · obtain rfl := List.mem_singleton.mp hbinding
    rfl
  · cases hbinding

/-- A frame with only normalised values left to bind. -/
def Frame.IsNormalised : Frame → Prop
  | .steps _ _ _ _ => True
  | .loop _ _ cursor => cursor.course.IsNormalised

namespace Walk

variable {setting : Setting σ} {steps : List Step} {walk next first : Walk σ}

/-- A walk that has bound only normalised values, with only such left in its loops. -/
structure IsNormalised (walk : Walk σ) : Prop where
  live : walk.live.IsNormalised
  frames : ∀ frame ∈ walk.stack, frame.IsNormalised

/-- A turn binds normalised values. -/
theorem Writes.normalised {bindings : List Binding} (h : walk.Writes setting bindings)
    (hhost : setting.host.IsFinite)
    (hsteps : ∀ place step, Step.stepAt? steps place = some step → step.IsFinite)
    (hwithin : walk.Within steps) (hwalk : walk.IsNormalised) :
    ∀ binding ∈ bindings, binding.2.any Value.isNormalised = true := by
  cases h with
  | left | skipped | opened | refused => simp
  | swallowed _ _ _ => exact Step.resultBindings_normalised _
  | @done place header action timeout recorded task slot _ hnext _ htask hgives _ =>
    have hslot : slot.any Value.isNormalised = true :=
      hgives.isNormalised hhost hwalk.live.environment
        (hsteps _ _ (hwithin.stepAt?_of_next? hnext)) htask
    refine List.forall_mem_append.mpr ⟨fun binding hbinding ↦ ?_, by simpa using hslot⟩
    cases task with
    | assign name value append =>
      obtain rfl := List.mem_singleton.mp hbinding
      exact hslot
    | request call => cases hbinding
    | halt reason => cases hbinding
  | asked hstack hturn =>
    have hframe := hwalk.frames _ (hstack ▸ List.mem_cons_self)
    exact (Cursor.next_normalised hframe hturn).1

/-- A turn leaves only normalised values to bind. -/
theorem Restacks.normalised {scope : Scope} {before behind : List Frame}
    (h : Restacks scope before behind) (hscope : scope.IsNormalised)
    (hsteps : ∀ place step, Step.stepAt? steps place = some step → step.IsFinite)
    (hsound : ∀ frame ∈ before, frame.Sound steps)
    (hbefore : ∀ frame ∈ before, frame.IsNormalised) : ∀ frame ∈ behind, frame.IsNormalised := by
  cases h with
  | popped => exact (List.forall_mem_cons.mp hbefore).2
  | passed => exact List.forall_mem_cons.mpr ⟨trivial, (List.forall_mem_cons.mp hbefore).2⟩
  | branched _ =>
    exact List.forall_mem_cons.mpr ⟨trivial,
      List.forall_mem_cons.mpr ⟨trivial, (List.forall_mem_cons.mp hbefore).2⟩⟩
  | looped hfound =>
    obtain ⟨header, spec, rfl, hbegin⟩ := Step.eq_loop_of_approach hfound
    have hstep := hsteps _ _ (Work.Within.head (List.forall_mem_cons.mp hsound).1)
    have hcourse := Iteration.course_normalised hscope hstep (Iteration.course_of_beginLoop hbegin)
    exact List.forall_mem_cons.mpr ⟨hcourse,
      List.forall_mem_cons.mpr ⟨trivial, (List.forall_mem_cons.mp hbefore).2⟩⟩
  | turned hnext =>
    obtain ⟨hloop, hbelow⟩ := List.forall_mem_cons.mp hbefore
    exact List.forall_mem_cons.mpr ⟨trivial,
      List.forall_mem_cons.mpr ⟨(Cursor.next_normalised hloop hnext).2, hbelow⟩⟩

/-- A walk goes on as it was, with normalised values only. -/
theorem IsNormalised.turn (hwalk : walk.IsNormalised) (hhost : setting.host.IsFinite)
    (hsteps : ∀ place step, Step.stepAt? steps place = some step → step.IsFinite)
    (hwithin : walk.Within steps) (hturn : walk.turn setting = .going next) :
    next.IsNormalised := by
  obtain ⟨bindings, hwrites, hbinds⟩ := hwithin.writes hturn
  have hbindings := hwrites.normalised hhost hsteps hwithin hwalk
  exact ⟨hbinds.isNormalised hwalk.live hbindings, ((moves_turn walk).restacks hturn).normalised
    hwalk.live.environment.scope hsteps hwithin hwalk.frames⟩

theorem Reaches.normalised (hreaches : Reaches setting first walk) (hhost : setting.host.IsFinite)
    (hsteps : ∀ place step, Step.stepAt? steps place = some step → step.IsFinite)
    (hwithin : first.Within steps) (hfirst : first.IsNormalised) : walk.IsNormalised := by
  induction hreaches with
  | start => exact hfirst
  | turn hreaches hturn ih => exact ih.turn hhost hsteps (hreaches.within hwithin) hturn

end Walk

namespace Workflow

variable {host : Host σ} {options : RunParameters} {document : Datum} {live : Live σ}
  {validated : Validated}

/-- The variables of a document with those of the caller over them, all normalised. -/
structure StartsNormalised (w : Workflow) (options : RunParameters) : Prop where
  own : ∀ entry ∈ w.bindings.getD [], entry.2.isNormalised = true
  given : ∀ entry ∈ options.bindings, entry.2.any Value.isNormalised = true

theorem StartsNormalised.of_isEmpty {w : Workflow} (h : (w.bindings.getD []).isEmpty = true)
    (runId : Text) : w.StartsNormalised (.standard runId) := by
  refine ⟨?_, by simp [RunParameters.standard]⟩
  rw [List.isEmpty_iff.mp h]
  simp

theorem StartsNormalised.environment {w : Workflow} (h : w.StartsNormalised options) :
    (Environment.ofEntries (w.startingVariables options)).IsNormalised := by
  intro entry hentry
  rcases Entries.mem_override hentry with hown | hgiven
  · obtain ⟨before, hbefore, rfl⟩ := List.mem_map.mp hown
    exact h.own before hbefore
  · exact h.given entry hgiven

theorem firstWalk_normalised (hfresh : live.IsFresh)
    (hstart : validated.workflow.StartsNormalised options) :
    (firstWalk validated host options live).IsNormalised := by
  refine ⟨⟨hstart.environment, fun name slot hbound ↦ ?_⟩, fun frame hframe ↦ ?_⟩
  · exact absurd hbound (not_bound_firstWalk hfresh name slot)
  · rw [List.mem_singleton.mp hframe]
    trivial

/-- A run that starts with normalised variables binds nothing but normalised values, whatever the
host answers, when what it loads is normalised and neither the numbers of the document nor the
integers of an answer are too large. So at any moment all names are bound to such values, and they
are in the result. -/
theorem run_normalised (hfresh : live.IsFresh) (hhost : host.IsFinite)
    (hvalid : validate document = .ok validated)
    (hstart : validated.workflow.StartsNormalised options)
    (hsteps : ∀ place step, (place, step) ∈ validated.workflow.located → step.IsFinite) :
    (∀ walk, Walk.Reaches (validated.workflow.setting host options)
      (firstWalk validated host options live) walk → walk.live.IsNormalised) ∧
    ∀ turns result after, run host options document turns live = some (.ok result, after) →
      after.IsNormalised ∧ ∀ entry ∈ result.bindings, entry.2.isNormalised = true := by
  have hwithin := firstWalk_within validated host options live
  have hfirst : (firstWalk validated host options live).IsNormalised :=
    firstWalk_normalised hfresh hstart
  have hlocated : ∀ place step, Step.stepAt? validated.workflow.steps place = some step →
      step.IsFinite := fun place step hstep ↦ hsteps place step (Step.mem_locatedFrom hstep)
  have hreached : ∀ walk, Walk.Reaches (validated.workflow.setting host options)
      (firstWalk validated host options live) walk → walk.IsNormalised :=
    fun walk hreaches ↦ hreaches.normalised hhost hlocated hwithin hfirst
  refine ⟨fun walk hreaches ↦ (hreached walk hreaches).live, fun turns result after hrun ↦ ?_⟩
  obtain ⟨walk, ending, last, hreaches, hturn, rfl, hresult⟩ := reached_of_run hvalid hrun
  have hlast := ((hreaches.within hwithin).frugal).ending hturn
  have hafter := hlast.quietly
    (conclude_binds ending live.time (validated.workflow.setting host options) last)
  have hnormalised := hafter.isNormalised (hreached walk hreaches).live (by simp)
  obtain rfl := Except.ok.inj hresult
  exact ⟨hnormalised, hnormalised.environment.snapshotOf _⟩

/-- A host that has one value to load and answers everything else with no number at all. -/
def answering (stored : Value) : Host Unit where
  reply := fun _ call _ ↦ (⟨none, [], some 0, .ok (match call with
    | .load _ => .ofValue stored
    | _ => .number .nan)⟩, ())
  rest := fun _ _ ↦ (none, ())
  notice := fun _ _ ↦ (none, ())

theorem answering_isFinite {stored : Value} (h : stored.isNormalised = true) :
    (answering stored).IsFinite := by
  intro now call state answer hanswer
  obtain rfl := Except.ok.inj hanswer
  cases call with
  | load path => exact ⟨stored, h, rfl⟩
  | _ => trivial

/-- A table that is stored. -/
def storedTable : Value := .mapping [("rows", .number 2)]

/-- A document that loads a table, reads a title, counts to the number of rows and waits. -/
def countedRows : Datum :=
  .object [("name", .text "count"), ("version", .text "1"), ("steps", .sequence [
    .object [("name", .text "table"), ("action", .text "load"),
      ("value", .text "table.json")] [],
    .object [("name", .text "title"), ("action", .text "get_text"),
      ("selector", .text "h1")] [],
    .object [("name", .text "rows"), ("action", .text "loop"),
      ("value", .object [("type", .text "for"), ("variable", .text "n"), ("start", .number 1),
        ("end", .text "\x7b\x7b table.rows \x7d\x7d")] []),
      ("steps", .sequence [
        .object [("name", .text "keep"), ("action", .text "set_variable"),
          ("selector", .text "total"), ("value", .text "\x7b\x7b n * 2 \x7d\x7d"),
          ("append", .bool true)] []])] [],
    .object [("name", .text "pause"), ("action", .text "wait"), ("value", .number 2)] []])] []

/-- The title is no number, and null is bound for it. -/
theorem run_normalised_countedRows :
    ∃ validated result after, validate countedRows = .ok validated ∧
      (answering storedTable).IsFinite ∧
      validated.workflow.StartsNormalised (.standard "count") ∧
      (∀ place step, (place, step) ∈ validated.workflow.located → step.IsFinite) ∧
      run (answering storedTable) (.standard "count") countedRows 20 (idle 0 .quiet ()) =
        some (.ok result, after) ∧
      result.outcomes.length = 6 ∧
      (after.environment.find? "title").any Value.isNull = true ∧
      after.IsNormalised := by
  have hwritten : ((validate countedRows).toOption.any fun validated ↦
      (validated.workflow.bindings.getD []).isEmpty &&
        validated.workflow.located.all fun found ↦ found.2.sources.all Value.isFinite) = true := by
    decide +kernel
  obtain ⟨validated, hfound, hdocument⟩ := (Option.any_eq_true _ _).mp hwritten
  obtain ⟨hempty, hfinite⟩ := (Bool.and_eq_true _ _).mp hdocument
  have hvalid := validate_of_toOption hfound
  have htable : storedTable.isNormalised = true := by decide +kernel
  have hhost := answering_isFinite htable
  have hstart : validated.workflow.StartsNormalised (.standard "count") := .of_isEmpty hempty _
  have hsteps : ∀ place step, (place, step) ∈ validated.workflow.located → step.IsFinite :=
    fun place step hstep ↦ List.all_eq_true.mp (List.all_eq_true.mp hfinite (place, step) hstep)
  have hreturned : (returned? (run (answering storedTable) (.standard "count") countedRows 20
      (idle 0 .quiet ()))).map (fun found ↦
        (found.1.outcomes.length, (found.2.environment.find? "title").any Value.isNull)) =
        some (6, true) := by decide +kernel
  obtain ⟨⟨result, after⟩, hresult, hshape⟩ := Option.map_eq_some_iff.mp hreturned
  obtain ⟨hlength, hnull⟩ := Prod.mk.inj hshape
  have hrun := eq_some_of_returned? hresult
  exact ⟨validated, result, after, hvalid, hhost, hstart, hsteps, hrun, hlength, hnull,
    ((run_normalised ⟨rfl, rfl⟩ hhost hvalid hstart hsteps).2 20 result after hrun).1⟩

/-- A document that loads a number. -/
def loadedTotal : Datum :=
  .object [("name", .text "restore"), ("version", .text "1.0"), ("steps", .sequence [
    .object [("name", .text "Total"), ("action", .text "load"),
      ("value", .text "totals.json")] []])] []

/-- What is loaded is bound as it is, so not every run binds only normalised values. -/
theorem not_forall_run_normalised :
    ¬ ∀ (host : Host Unit) (options : RunParameters) (document : Datum) (validated : Validated)
        (turns : Nat) (live after : Live Unit) (result : RunResult), live.IsFresh →
      validate document = .ok validated → validated.workflow.StartsNormalised options →
      run host options document turns live = some (.ok result, after) →
      after.environment.IsNormalised := by
  intro hnormalised
  have hwritten : ((validate loadedTotal).toOption.any fun validated ↦
      (validated.workflow.bindings.getD []).isEmpty) = true := by decide +kernel
  obtain ⟨validated, hfound, hempty⟩ := (Option.any_eq_true _ _).mp hwritten
  have hstart : validated.workflow.StartsNormalised (.standard "restore") := .of_isEmpty hempty _
  have hreturned : (returned? (run (answering (.number .nan)) (.standard "restore") loadedTotal 5
      (idle 0 .quiet ()))).map (fun found ↦
        (found.2.environment.find? "total").any fun value ↦ !value.isNormalised) = some true := by
    decide +kernel
  obtain ⟨⟨result, after⟩, hresult, htotal⟩ := Option.map_eq_some_iff.mp hreturned
  obtain ⟨value, hvalue, hnot⟩ := (Option.any_eq_true _ _).mp htotal
  have hbound := hnormalised _ _ loadedTotal validated 5 (idle 0 .quiet ()) after result ⟨rfl, rfl⟩
    (validate_of_toOption hfound) hstart (eq_some_of_returned? hresult)
  simp [hbound.find? hvalue] at hnot

end Workflow

end BrowserFlow
