import BrowserFlow.Proofs.Document.Parts
import BrowserFlow.Proofs.Run.Bindings
import BrowserFlow.Proofs.Run.Templates

/-!
The names that a run leaves alone. A turn of a walk binds the result of the step
it comes to, the target of an assignment, or the variable of the loop it asks,
and nothing else (`Walk.Within.frugal`): steps that control others, steps that end
the run, guards and conditions bind nothing themselves, and a turn that ends the
run binds nothing at all. So a name that is none of these in a document is bound
throughout a run as it was at its start (`Workflow.run_frame`).
-/

set_option autoImplicit false
set_option relaxedAutoImplicit false

namespace BrowserFlow

variable {σ : Type} {setting : Setting σ}

/-! ### What a turn binds -/

namespace Iteration

/-- The variable of a loop. -/
def counter? : Iteration → Option Text
  | .whileHolds _ _ => none
  | .range counter _ _ _ => some counter
  | .forEach counter _ => some counter
  | .times _ counter => counter

end Iteration

namespace Step

/-- The variable of a step that is a loop. -/
def counter? : Step → Option Text
  | .loop _ spec _ => spec.counter?
  | _ => none

end Step

namespace Course

/-- The variable that is bound for the turns of a course. -/
def counter? : Course → Option Text
  | .whileHolds _ _ => none
  | .range counter _ _ _ => counter
  | .sequence counter _ => some counter

end Course

section Counters

variable {scope : Scope} {cursor : Cursor} {turn : Turn} {spec : Iteration} {course : Course}

/-- What a cursor can answer: there is no turn, or one that its course has. -/
theorem Cursor.next_cases (h : cursor.next scope = .ok turn) :
    (turn.binding = none ∧ turn.cursor = cursor) ∨
    (∃ condition limit, cursor.course = .whileHolds condition limit ∧
      turn = cursor.turn none cursor.course) ∨
    (∃ counter next stop step, cursor.course = .range counter next stop step ∧
      isWithin next stop step = true ∧
      turn = cursor.turn (counter.map fun name ↦ (name, .number next))
        (.range counter (next + step) stop step)) ∨
    (∃ counter item others, cursor.course = .sequence counter (item :: others) ∧
      turn = cursor.turn (some (counter, item)) (.sequence counter others)) := by
  unfold Cursor.next at h
  split at h
  · next condition limit hcourse =>
    split at h
    · obtain rfl := Except.ok.inj h
      exact .inl ⟨rfl, rfl⟩
    · split at h
      · cases h
      · exact .inr (.inl ⟨condition, limit, hcourse, (Except.ok.inj h).symm⟩)
      · obtain rfl := Except.ok.inj h
        exact .inl ⟨rfl, rfl⟩
  · next counter next stop step hcourse =>
    split at h
    · next hwithin =>
      exact .inr (.inr (.inl
        ⟨counter, next, stop, step, hcourse, hwithin, (Except.ok.inj h).symm⟩))
    · obtain rfl := Except.ok.inj h
      exact .inl ⟨rfl, rfl⟩
  · next counter rest hcourse =>
    cases rest with
    | nil =>
      obtain rfl := Except.ok.inj h
      exact .inl ⟨rfl, rfl⟩
    | cons item others =>
      exact .inr (.inr (.inr ⟨counter, item, others, hcourse, (Except.ok.inj h).symm⟩))

/-- The courses that a loop can have: numbers from resolved amounts, or resolved items. -/
theorem Iteration.course_cases (h : spec.course scope = .ok course) :
    (∃ condition limit, spec = .whileHolds condition limit ∧
      course = .whileHolds condition limit) ∨
    (∃ counter start stop step first last pace, spec = .range counter start stop step ∧
      start.resolve scope "for loop start" = .ok first ∧
      stop.resolve scope "for loop end" = .ok last ∧
      step.elim (pace = 1) (fun amount ↦ amount.resolve scope "for loop step" = .ok pace) ∧
      pace.isZero = false ∧ course = .range (some counter) first last pace) ∨
    (∃ counter items resolved, spec = .forEach counter items ∧
      items.resolve scope = .ok (.sequence resolved) ∧ course = .sequence counter resolved) ∨
    (∃ count counter turns, spec = .times count counter ∧
      count.resolve scope "repeat times" = .ok turns ∧ turns.isInteger = true ∧
      Number.le 0 turns = true ∧ course = .range counter 1 turns 1) := by
  cases spec with
  | whileHolds condition limit => exact .inl ⟨_, _, rfl, (Except.ok.inj h).symm⟩
  | range counter start stop step =>
    obtain ⟨first, hfirst, h⟩ := Except.parts_of_bind h
    obtain ⟨last, hlast, h⟩ := Except.parts_of_bind h
    have hpace : ∃ pace : Number,
        step.elim (pace = 1) (fun amount ↦ amount.resolve scope "for loop step" = .ok pace) ∧
        (if pace.isZero then .error (.mismatch .zeroStep)
          else .ok (.range (some counter) first last pace) : Except Fault Course) = .ok course := by
      cases step with
      | none =>
        obtain ⟨pace, hstep, h⟩ := Except.parts_of_bind h
        exact ⟨pace, (Except.ok.inj hstep).symm, h⟩
      | some amount =>
        obtain ⟨pace, hstep, h⟩ := Except.parts_of_bind h
        exact ⟨pace, hstep, h⟩
    obtain ⟨pace, hstep, hpace⟩ := hpace
    split at hpace
    · cases hpace
    · next hzero =>
      exact .inr (.inl ⟨_, _, _, _, first, last, pace, rfl, hfirst, hlast, hstep,
        by simpa using hzero, (Except.ok.inj hpace).symm⟩)
  | forEach counter items =>
    obtain ⟨resolved, hitems, h⟩ := Except.parts_of_bind h
    split at h
    · exact .inr (.inr (.inl ⟨_, _, _, rfl, hitems, (Except.ok.inj h).symm⟩))
    · cases h
  | times count counter =>
    obtain ⟨turns, hturns, h⟩ := Except.parts_of_bind h
    split at h
    · next hcounts =>
      obtain ⟨hinteger, hcount⟩ := (Bool.and_eq_true _ _).mp hcounts
      exact .inr (.inr (.inr
        ⟨_, _, turns, rfl, hturns, hinteger, hcount, (Except.ok.inj h).symm⟩))
    · cases h

/-- A turn leaves a cursor with the variable it had. -/
theorem Cursor.counter?_next (h : cursor.next scope = .ok turn) :
    turn.cursor.course.counter? = cursor.course.counter? := by
  rcases next_cases h with ⟨-, hcursor⟩ | ⟨_, _, -, rfl⟩ | ⟨_, _, _, _, hcourse, -, rfl⟩ |
    ⟨_, _, _, hcourse, rfl⟩
  · rw [hcursor]
  · rfl
  · rw [hcourse]
    rfl
  · rw [hcourse]
    rfl

/-- A turn binds no name but the variable of its cursor. -/
theorem Cursor.counter?_of_binding (h : cursor.next scope = .ok turn) {binding : Binding}
    (hbinding : binding ∈ turn.bindings) : cursor.course.counter? = some binding.1 := by
  rcases next_cases h with ⟨hnone, -⟩ | ⟨_, _, -, rfl⟩ | ⟨counter, _, _, _, hcourse, -, rfl⟩ |
    ⟨_, _, _, hcourse, rfl⟩
  · simp [Turn.bindings, hnone] at hbinding
  · simp [Turn.bindings, turn] at hbinding
  · cases counter with
    | none => simp [Turn.bindings, turn] at hbinding
    | some name =>
      obtain rfl := List.mem_singleton.mp hbinding
      rw [hcourse]
      rfl
  · obtain rfl := List.mem_singleton.mp hbinding
    rw [hcourse]
    rfl

theorem Iteration.counter?_of_course (h : spec.course scope = .ok course) :
    course.counter? = spec.counter? := by
  rcases course_cases h with ⟨_, _, rfl, rfl⟩ | ⟨_, _, _, _, _, _, _, rfl, -, -, -, -, rfl⟩ |
    ⟨_, _, _, rfl, -, rfl⟩ | ⟨_, _, _, rfl, -, -, -, rfl⟩ <;> rfl

theorem Iteration.course_of_beginLoop (h : spec.beginLoop scope = .ok cursor) :
    spec.course scope = .ok cursor.course := by
  unfold beginLoop at h
  split at h
  · next hcourse =>
    obtain rfl := Except.ok.inj h
    exact hcourse
  · cases h

/-- All cursors of a loop have its variable. -/
theorem Iteration.Drives.counter?_eq (h : spec.Drives cursor) :
    cursor.course.counter? = spec.counter? := by
  induction h with
  | first hbegin => exact counter?_of_course (course_of_beginLoop hbegin)
  | next _ hnext ih => exact (Cursor.counter?_next hnext).trans ih

end Counters

namespace Step

/-- Whether a step does not bind a name, as can be seen from the document: it has its result
elsewhere, and it is no loop over the name and no assignment to it; the target of an assignment has
to be written out. -/
def plainlySpares (name : Text) (step : Step) : Bool :=
  !(step.hasResult && step.resultKey == name) && step.counter? != some name &&
    match step with
    | .act _ (.setVariable target _ _) => !Template.hasPlaceholder target && target != name
    | _ => true

theorem spares_of_plainly {step : Step} {name : Text} (h : step.plainlySpares name = true) :
    (step.hasResult = true → step.resultKey ≠ name) ∧ step.counter? ≠ some name ∧
    ∀ header target source append, step = .act header (.setVariable target source append) →
      ∀ scope, Template.interpolate scope target ≠ .ok name := by
  unfold plainlySpares at h
  simp only [Bool.and_eq_true, Bool.not_eq_true', Bool.and_eq_false_iff, bne_iff_ne, ne_eq] at h
  obtain ⟨⟨hresult, hcounter⟩, htarget⟩ := h
  refine ⟨fun hhas hkey ↦ ?_, hcounter, ?_⟩
  · simp [hhas, hkey] at hresult
  · rintro header target source append rfl scope hname
    obtain ⟨hplain, hne⟩ : Template.hasPlaceholder target = false ∧ ¬target = name := by
      simpa using htarget
    rw [Template.interpolate, Template.resolve, hplain] at hname
    exact hne (Except.ok.inj hname)

end Step

/-! ### What a run leaves alone -/

/-- Names that are not written hold what they held. -/
theorem Environment.find?_replay {env : Environment} {bindings : List Binding} {name : Text}
    (h : ∀ binding ∈ bindings, binding.1 ≠ name) :
    Entries.find? (env.replay bindings).bindings name = Entries.find? env.bindings name := by
  induction bindings generalizing env with
  | nil => rfl
  | cons binding rest ih =>
    obtain ⟨hfirst, hrest⟩ := List.forall_mem_cons.mp h
    change Entries.find? ((env.set binding.1 binding.2).replay rest).bindings name = _
    rw [ih hrest]
    exact (Entries.find?_write env.bindings binding.1 name binding.2).trans (if_neg hfirst)

namespace Walk

variable {steps : List Step} {walk next first : Walk σ} {bindings : List Binding} {name : Text}

/-- A walk that comes to an assignment to a name. -/
def Targets (walk : Walk σ) (name : Text) : Prop :=
  walk.live.isCancelled = false ∧ ∃ place header target source append,
    walk.next? = some (place, .act header (.setVariable target source append)) ∧
    (Step.act header (.setVariable target source append)).approach walk.live.scope =
      .act header (.setVariable target source append) ∧
    Template.interpolate walk.live.scope target = .ok name

/-- The names that the next turn of a walk may bind. -/
inductive MayBind (walk : Walk σ) (name : Text) : Prop
  /-- The next step has its result there. -/
  | result {place : Place} {step : Step} (hnext : walk.next? = some (place, step))
      (hresult : step.hasResult = true) (hkey : step.resultKey = name)
  /-- The next step assigns to it. -/
  | target (htarget : walk.Targets name)
  /-- It is the variable of the loop that is asked. -/
  | counter {owner : Opened} {body : List Step} {cursor : Cursor} {below : List Frame}
      (hstack : walk.stack = .loop owner body cursor :: below)
      (hcounter : owner.step.counter? = some name)

/-- What leaves the names alone that a step does not bind. -/
structure Frugal (setting : Setting σ) (walk : Walk σ) : Prop where
  /-- A turn that ends the run binds nothing. -/
  ending : ∀ {ending after}, walk.turn setting = .ended ending after → walk.live.Binds [] after
  /-- A turn with which the run goes on binds what it may. -/
  going : ∀ {next}, walk.turn setting = .going next →
    ∃ bindings, walk.live.Binds bindings next.live ∧
      ∀ binding ∈ bindings, walk.MayBind binding.1
  /-- A step without a result binds nothing itself, whatever becomes of it, and no step binds
  anything when it is passed over. -/
  quiet : ∀ {place step next}, walk.next? = some (place, step) →
    step.hasResult = false ∨ step.approach walk.live.scope = .skip →
    walk.turn setting = .going next → walk.live.Binds [] next.live
  /-- Where a guard fails and the run goes on, only the result of the step is bound, to null. -/
  guard : ∀ {place step fault next}, walk.next? = some (place, step) →
    step.approach walk.live.scope = .stumble fault → walk.turn setting = .going next →
    walk.live.Binds (step.resultBindings (some .null)) next.live
  /-- A loop whose condition fails binds nothing. -/
  condition : ∀ {owner body cursor below fault next},
    walk.stack = .loop owner body cursor :: below →
    cursor.next walk.live.scope = .error fault → walk.turn setting = .going next →
    walk.live.Binds [] next.live

theorem next?_of_loop {owner : Opened} {body : List Step} {cursor : Cursor} {below : List Frame}
    (h : walk.stack = .loop owner body cursor :: below) : walk.next? = none := by
  rw [next?, h]

theorem Within.stepAt?_of_next? (hwithin : walk.Within steps) {place : Place} {step : Step}
    (hnext : walk.next? = some (place, step)) : Step.stepAt? steps place = some step := by
  unfold next? at hnext
  split at hnext
  · next first rest site index owner below hstack =>
    obtain ⟨rfl, rfl⟩ := Prod.mk.inj (Option.some.inj hnext)
    have htop : (Frame.steps (first :: rest) site index owner).Sound steps :=
      hwithin _ (hstack ▸ List.mem_cons_self)
    exact Work.Within.head htop
  · cases hnext

theorem next?_of_nil {site : Site} {index : Nat} {owner : Option Opened} {below : List Frame}
    (h : walk.stack = .steps [] site index owner :: below) : walk.next? = none := by
  rw [next?, h]

section Writes

variable {place : Place} {step : Step}

/-- A step without a result, or one that is passed over, binds nothing. -/
theorem Writes.eq_nil_of_quiet (h : walk.Writes setting bindings)
    (hnext : walk.next? = some (place, step))
    (hquiet : step.hasResult = false ∨ step.approach walk.live.scope = .skip) : bindings = [] := by
  cases h with
  | left | skipped | opened | refused => rfl
  | swallowed hother hfound _ =>
    obtain ⟨rfl, rfl⟩ := Prod.mk.inj (Option.some.inj (hother.symm.trans hnext))
    exact Step.resultBindings_of_hasResult (hquiet.resolve_right hfound) _
  | done _ hother hfound _ _ hresult =>
    obtain ⟨rfl, rfl⟩ := Prod.mk.inj (Option.some.inj (hother.symm.trans hnext))
    rcases hquiet with hquiet | hskip
    · simp [hresult] at hquiet
    · simp [hfound] at hskip
  | asked hstack _ => simp [next?_of_loop hstack] at hnext

/-- A step whose guard, condition or operands fail binds at most null, for its result. -/
theorem Writes.eq_of_stumble (h : walk.Writes setting bindings)
    (hnext : walk.next? = some (place, step))
    {fault : Fault} (hfound : step.approach walk.live.scope = .stumble fault) :
    bindings = step.resultBindings (some .null) := by
  cases h with
  | left hstack => simp [next?_of_nil hstack] at hnext
  | skipped hother hskip =>
    obtain ⟨rfl, rfl⟩ := Prod.mk.inj (Option.some.inj (hother.symm.trans hnext))
    simp [hfound] at hskip
  | swallowed hother _ _ =>
    obtain ⟨rfl, rfl⟩ := Prod.mk.inj (Option.some.inj (hother.symm.trans hnext))
    rfl
  | done _ hother hact _ _ _ =>
    obtain ⟨rfl, rfl⟩ := Prod.mk.inj (Option.some.inj (hother.symm.trans hnext))
    simp [hfound] at hact
  | opened hother hcontrol =>
    obtain ⟨rfl, rfl⟩ := Prod.mk.inj (Option.some.inj (hother.symm.trans hnext))
    exact (Step.resultBindings_of_hasResult (Step.hasResult_of_isControl hcontrol) _).symm
  | refused hstack _ => simp [next?_of_loop hstack] at hnext
  | asked hstack _ => simp [next?_of_loop hstack] at hnext

theorem Writes.eq_nil_of_refused {owner : Opened} {body : List Step} {cursor : Cursor}
    {below : List Frame} {fault : Fault} (h : walk.Writes setting bindings)
    (hstack : walk.stack = .loop owner body cursor :: below)
    (hfault : cursor.next walk.live.scope = .error fault) : bindings = [] := by
  have hnone := next?_of_loop hstack
  cases h with
  | left | skipped | opened | refused => rfl
  | swallowed hnext _ _ => simp [hnone] at hnext
  | done _ hnext _ _ _ _ => simp [hnone] at hnext
  | asked hother hturn =>
    obtain ⟨hframe, -⟩ := List.cons.inj (hother.symm.trans hstack)
    obtain ⟨rfl, rfl, rfl⟩ := Frame.loop.inj hframe
    simp [hfault] at hturn

/-- A turn binds no names but those it may bind. -/
theorem Writes.mayBind (h : walk.Writes setting bindings) (hwithin : walk.Within steps) :
    ∀ binding ∈ bindings, walk.MayBind binding.1 := by
  intro binding hbinding
  cases h with
  | left | skipped | opened | refused => cases hbinding
  | @swallowed place step hnext _ _ =>
    by_cases hresult : step.hasResult = true
    · rw [Step.resultBindings, if_pos hresult] at hbinding
      obtain rfl := List.mem_singleton.mp hbinding
      exact .result hnext hresult rfl
    · rw [Step.resultBindings, if_neg hresult] at hbinding
      cases hbinding
  | @done place header action timeout recorded task slot hgoes hnext hfound htask _ hresult =>
    rcases List.mem_append.mp hbinding with hassigned | hkey
    · cases task with
      | request _ => cases hassigned
      | halt _ => cases hassigned
      | assign target value append =>
        obtain rfl := List.mem_singleton.mp hassigned
        obtain ⟨source, _, _, rfl, htarget, -⟩ := Action.eq_setVariable_of_task htask
        exact .target ⟨hgoes, place, header, source, _, _, hnext, hfound, htarget⟩
    · obtain rfl := List.mem_singleton.mp hkey
      exact .result hnext hresult rfl
  | @asked owner body cursor below turn hstack hturn =>
    obtain ⟨-, header, spec, howner, hdrives⟩ :=
      hwithin (.loop owner body cursor) (hstack ▸ List.mem_cons_self)
    have hcounter := Cursor.counter?_of_binding hturn hbinding
    rw [hdrives.counter?_eq] at hcounter
    exact .counter hstack (howner ▸ hcounter)

end Writes

/-- A turn of a walk whose frames are within the steps binds no more than that. -/
theorem Within.written (hwithin : walk.Within steps) :
    walk.Written setting (walk.turn setting) := by
  refine (moves_turn walk).written fun owner body cursor below hstack ↦ ?_
  obtain ⟨-, header, spec, howner, -⟩ :=
    hwithin (.loop owner body cursor) (hstack ▸ List.mem_cons_self)
  rw [howner]
  rfl

theorem Within.writes (hwithin : walk.Within steps) (hturn : walk.turn setting = .going next) :
    ∃ bindings, walk.Writes setting bindings ∧ walk.live.Binds bindings next.live := by
  have hwritten : walk.Written setting (walk.turn setting) := hwithin.written
  rwa [hturn] at hwritten

/-- A walk whose frames are within the steps leaves the names alone that a step does not bind. -/
theorem Within.frugal (hwithin : walk.Within steps) : walk.Frugal setting := by
  refine ⟨?_, ?_, ?_, ?_, ?_⟩
  · intro ending after hturn
    have hwritten : walk.Written setting (walk.turn setting) := hwithin.written
    rwa [hturn] at hwritten
  · intro next hturn
    obtain ⟨bindings, hwrites, hbinds⟩ := hwithin.writes hturn
    exact ⟨bindings, hbinds, hwrites.mayBind hwithin⟩
  · intro place step next hnext hquiet hturn
    obtain ⟨bindings, hwrites, hbinds⟩ := hwithin.writes hturn
    rwa [hwrites.eq_nil_of_quiet hnext hquiet] at hbinds
  · intro place step fault next hnext hfound hturn
    obtain ⟨bindings, hwrites, hbinds⟩ := hwithin.writes hturn
    rwa [hwrites.eq_of_stumble hnext hfound] at hbinds
  · intro owner body cursor below fault next hstack hfault hturn
    obtain ⟨bindings, hwrites, hbinds⟩ := hwithin.writes hturn
    rwa [hwrites.eq_nil_of_refused hstack hfault] at hbinds

end Walk

namespace Workflow

variable {host : Host σ} {options : RunParameters} {document : Datum} {live : Live σ}
  {validated : Validated} {name : Text}

theorem announce_binds (validated : Validated) (setting : Setting σ) (live : Live σ) :
    Live.Binds [] live (announce validated setting live) := by
  have hwarned : ∀ warnings : List Text, ∀ live : Live σ, Live.Binds [] live
      (warnings.foldl (fun l warning ↦
        l.log setting.bindings .warn "Workflow warning" [("warning", .text warning)]) live) := by
    intro warnings
    induction warnings with
    | nil => exact .refl
    | cons warning rest ih => exact fun live ↦ (Live.log_binds live _ _ _ _).quietly (ih _)
  exact (hwarned validated.warnings live).quietly (Live.log_binds _ _ _ _ _)

theorem conclude_binds (ending : Ending) (startedAt : Number) (setting : Setting σ)
    (live : Live σ) : Live.Binds [] live (conclude ending startedAt setting live) := by
  unfold conclude
  dsimp only
  split
  · exact (Live.log_binds _ _ _ _ _).quietly (Live.log_binds _ _ _ _ _)
  · exact Live.log_binds _ _ _ _ _

theorem firstWalk_within (validated : Validated) (host : Host σ) (options : RunParameters)
    (live : Live σ) :
    (firstWalk validated host options live).Within validated.workflow.steps := by
  intro frame hframe
  rw [List.mem_singleton.mp hframe]
  exact Work.within_all _

/-- Nothing has been bound when a run comes to its first step. -/
theorem not_bound_firstWalk (hfresh : live.IsFresh) (name : Text) (slot : Option Value) :
    Event.bound name slot ∉ (firstWalk validated host options live).live.events := by
  intro hbound
  rcases (announce_binds validated (validated.workflow.setting host options) live).mem_of_bound
    hbound with hbefore | hnone
  · rw [hfresh.events] at hbefore
    cases hbefore
  · cases hnone

/-- A run that is over has walked to its end, and behind it nothing is bound. -/
theorem reached_of_run (hvalid : validate document = .ok validated) {turns : Nat}
    {outcome : Except Failure RunResult} {after : Live σ}
    (hrun : run host options document turns live = some (outcome, after)) :
    ∃ walk ending last,
      Walk.Reaches (validated.workflow.setting host options)
        (firstWalk validated host options live) walk ∧
      walk.turn (validated.workflow.setting host options) = .ended ending last ∧
      after = conclude ending live.time (validated.workflow.setting host options) last ∧
      outcome = .ok (validated.workflow.result options live.time ending after) := by
  rw [run_of_validate hvalid] at hrun
  cases hadvance : (firstWalk validated host options live).advance
      (validated.workflow.setting host options) turns with
  | none => simp [hadvance] at hrun
  | some found =>
    obtain ⟨result, last⟩ := found
    obtain ⟨walk, ending, hreaches, hturn, rfl⟩ := Walk.exists_ended_of_advance hadvance
    rw [hadvance] at hrun
    obtain ⟨rfl, rfl⟩ := Prod.mk.inj (Option.some.inj hrun)
    exact ⟨walk, ending, last, hreaches, hturn, rfl, rfl⟩

/-- A name that a run of a document leaves alone: it is not the key of a result, not the variable of
a loop, and no assignment comes to have it for its target. -/
structure Spares (validated : Validated) (host : Host σ) (options : RunParameters) (live : Live σ)
    (name : Text) : Prop where
  results : ∀ place step, (place, step) ∈ validated.workflow.located → step.hasResult = true →
    step.resultKey ≠ name
  counters : ∀ place step, (place, step) ∈ validated.workflow.located → step.counter? ≠ some name
  targets : ∀ walk, Walk.Reaches (validated.workflow.setting host options)
    (firstWalk validated host options live) walk → ¬walk.Targets name

/-- A name that is spared is not bound by a turn. -/
theorem Spares.not_mayBind (h : Spares validated host options live name) {walk : Walk σ}
    (hreaches : Walk.Reaches (validated.workflow.setting host options)
      (firstWalk validated host options live) walk)
    (hwithin : walk.Within validated.workflow.steps) : ¬walk.MayBind name := by
  intro hbinds
  cases hbinds with
  | result hnext hresult hkey =>
    exact h.results _ _ (Step.mem_locatedFrom (hwithin.stepAt?_of_next? hnext)) hresult hkey
  | target htarget => exact h.targets walk hreaches htarget
  | @counter owner body cursor below hstack hcounter =>
    obtain ⟨hin, -⟩ := hwithin (.loop owner body cursor) (hstack ▸ List.mem_cons_self)
    exact h.counters _ _ (Step.mem_locatedFrom hin.1) hcounter

theorem Spares.find?_of_reaches (h : Spares validated host options live name) {walk : Walk σ}
    (hreaches : Walk.Reaches (validated.workflow.setting host options)
      (firstWalk validated host options live) walk) :
    Entries.find? walk.live.environment.bindings name =
      Entries.find? (validated.workflow.startingVariables options) name := by
  induction hreaches with
  | start => rfl
  | @turn walk next hreaches hturn ih =>
    have hwithin := hreaches.within (firstWalk_within validated host options live)
    obtain ⟨bindings, hbinds, hmay⟩ := (hwithin.frugal).going hturn
    rw [hbinds.environment, Environment.find?_replay, ih]
    exact fun binding hbinding heq ↦ h.not_mayBind hreaches hwithin (heq ▸ hmay binding hbinding)

/-- A name that is spared as can be seen from the document. -/
theorem Spares.of_plainly
    (h : ∀ place step, (place, step) ∈ validated.workflow.located →
      step.plainlySpares name = true) : Spares validated host options live name := by
  refine ⟨fun place step hstep ↦ (Step.spares_of_plainly (h place step hstep)).1,
    fun place step hstep ↦ (Step.spares_of_plainly (h place step hstep)).2.1, ?_⟩
  rintro walk hreaches ⟨-, place, header, target, source, append, hnext, -, htarget⟩
  have hwithin := hreaches.within (firstWalk_within validated host options live)
  have hstep := Step.mem_locatedFrom (hwithin.stepAt?_of_next? hnext)
  exact (Step.spares_of_plainly (h _ _ hstep)).2.2 header target source append rfl _ htarget

/-- In every turn of a run only the result of the step it comes to is bound, the target of an
assignment, or the variable of the loop that is asked; a step without a result binds nothing
itself, and a turn that ends the run nothing at all. So a name that is none of these is bound
throughout the run, and at its end, as it was at its start. -/
theorem run_frame (hvalid : validate document = .ok validated) :
    (∀ walk, Walk.Reaches (validated.workflow.setting host options)
      (firstWalk validated host options live) walk →
      walk.Frugal (validated.workflow.setting host options)) ∧
    ∀ name, Spares validated host options live name →
      (∀ walk, Walk.Reaches (validated.workflow.setting host options)
        (firstWalk validated host options live) walk →
        Entries.find? walk.live.environment.bindings name =
          Entries.find? (validated.workflow.startingVariables options) name) ∧
      ∀ turns outcome after, run host options document turns live = some (outcome, after) →
        Entries.find? after.environment.bindings name =
          Entries.find? (validated.workflow.startingVariables options) name := by
  have hfrugal : ∀ walk, Walk.Reaches (validated.workflow.setting host options)
      (firstWalk validated host options live) walk →
      walk.Frugal (validated.workflow.setting host options) := fun walk hreaches ↦
    (hreaches.within (firstWalk_within validated host options live)).frugal
  refine ⟨hfrugal, fun name hspares ↦
    ⟨fun walk ↦ hspares.find?_of_reaches, fun turns outcome after hrun ↦ ?_⟩⟩
  obtain ⟨walk, ending, last, hreaches, hturn, rfl, -⟩ := reached_of_run hvalid hrun
  have hlast := (hfrugal walk hreaches).ending hturn
  have hafter := hlast.quietly
    (conclude_binds ending live.time (validated.workflow.setting host options) last)
  rw [hafter.environment]
  exact hspares.find?_of_reaches hreaches

/-- A document with a loop over an assignment and a click that may fail, and a variable that no step
binds. -/
def tallyingLoop : Datum :=
  .object [("name", .text "tally"), ("version", .text "1"),
    ("variables", .object [("kept", .text "before")] []),
    ("steps", .sequence [
      .object [("name", .text "twice"), ("action", .text "loop"),
        ("value", .object [("type", .text "repeat"), ("times", .number 2),
          ("variable", .text "n")] []),
        ("steps", .sequence [
          .object [("name", .text "count"), ("action", .text "set_variable"),
            ("selector", .text "total"), ("value", .text "\x7b\x7b n \x7d\x7d"),
            ("append", .bool true)] [],
          .object [("name", .text "try"), ("action", .text "click"),
            ("selector", .text "#a"), ("on_error", .text "continue")] []])] []])] []

/-- The variable is bound at the end of the run as it was at its start. -/
theorem run_frame_tallyingLoop :
    ∃ validated result after, validate tallyingLoop = .ok validated ∧
      Spares validated refusing (.standard "tally") (idle 0 .quiet ()) "kept" ∧
      run refusing (.standard "tally") tallyingLoop 12 (idle 0 .quiet ()) =
        some (.ok result, after) ∧
      result.outcomes.length = 5 ∧
      Entries.find? after.environment.bindings "kept" =
        Entries.find? (validated.workflow.startingVariables (.standard "tally")) "kept" ∧
      Entries.has after.environment.bindings "kept" = true := by
  have hwritten : ((validate tallyingLoop).toOption.any fun validated ↦
      validated.workflow.located.all fun found ↦ found.2.plainlySpares "kept") = true := by
    decide +kernel
  obtain ⟨validated, hfound, hspares⟩ := (Option.any_eq_true _ _).mp hwritten
  have hvalid := validate_of_toOption hfound
  have hspares : Spares validated refusing (.standard "tally") (idle 0 .quiet ()) "kept" :=
    .of_plainly fun place step hstep ↦ List.all_eq_true.mp hspares (place, step) hstep
  have hreturned : (returned? (run refusing (.standard "tally") tallyingLoop 12
      (idle 0 .quiet ()))).map (fun found ↦
        (found.1.outcomes.length, Entries.has found.2.environment.bindings "kept")) =
        some (5, true) := by decide +kernel
  obtain ⟨⟨result, after⟩, hresult, hshape⟩ := Option.map_eq_some_iff.mp hreturned
  obtain ⟨hlength, hbound⟩ := Prod.mk.inj hshape
  have hrun := eq_some_of_returned? hresult
  exact ⟨validated, result, after, hvalid, hspares, hrun, hlength,
    ((run_frame hvalid).2 "kept" hspares).2 12 _ after hrun, hbound⟩

end Workflow

end BrowserFlow
