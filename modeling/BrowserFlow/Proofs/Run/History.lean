import BrowserFlow.Proofs.Run.Agreement

/-!
What the parts of a run add to its history. A run grows when events of some kind
are added and nothing is recorded (`Live.Grows`), and it records an outcome when
events of some kind, then the outcome, and then at most remarks are added
(`Live.Records`). Every small step of a run is one or the other: requests,
bindings and waits grow it, and a step that is closed, passed over, carried out
or that stumbles records one outcome, which agrees with how the run goes on
(`perform_reports`, `stumbled_reports`, `passedOver_reports`). What holds of each
outcome that is added holds of all of them in the end (`Live.Gains`).
-/

set_option autoImplicit false
set_option relaxedAutoImplicit false

namespace BrowserFlow

variable {σ : Type}

/-- A mark of a run: a step is visited, or its outcome recorded. -/
inductive Mark where
  /-- A step is visited. -/
  | visited (place : Place)
  /-- An outcome is recorded. -/
  | recorded (outcome : Outcome)

namespace Event

/-- The mark that an event is. -/
def mark? : Event → Option Mark
  | .visited place => some (.visited place)
  | .recorded _ outcome => some (.recorded outcome)
  | _ => none

/-- Whether an event is only about the run: an entry of the log, or that it is cancelled. -/
def isRemark : Event → Bool
  | .logged _ => true
  | .aborted _ => true
  | _ => false

/-- An event that is neither the visit of a step nor its outcome. -/
def Unmarked (event : Event) : Prop := event.mark? = none

/-- An event that is only about the run. -/
def Remark (event : Event) : Prop := event.isRemark = true

theorem Remark.unmarked {event : Event} (h : event.Remark) : event.Unmarked := by
  cases event <;> simp_all [Remark, Unmarked, isRemark, mark?]

end Event

/-! ### Small steps as equations -/

/-- A signal behind a reason to cancel the run, if there is one; the first reason stays. -/
def Signal.heed (reason : Option Datum) (signal : Signal) : Signal :=
  match reason, signal with
  | some why, .quiet => .raised why
  | _, _ => signal

/-- What happens at a reason to cancel the run, if there is one: it is cancelled once at most. -/
def Signal.abortion (reason : Option Datum) (signal : Signal) : List Event :=
  match reason, signal with
  | some why, .quiet => [.aborted why]
  | _, _ => []

theorem Signal.eq_aborted_of_mem {reason : Option Datum} {signal : Signal} {event : Event}
    (h : event ∈ signal.abortion reason) : ∃ why, event = .aborted why := by
  unfold abortion at h
  split at h
  · exact ⟨_, List.mem_singleton.mp h⟩
  · cases h

theorem Signal.remark_of_mem {reason : Option Datum} {signal : Signal} {event : Event}
    (h : event ∈ signal.abortion reason) : event.Remark := by
  obtain ⟨why, rfl⟩ := eq_aborted_of_mem h
  rfl

/-- What looks for other events than cancellations finds none at a reason to cancel. -/
theorem Signal.filterMap_abortion {α : Type} {found : Event → Option α}
    (hfound : ∀ why, found (.aborted why) = none) (reason : Option Datum) (signal : Signal) :
    (signal.abortion reason).filterMap found = [] :=
  List.filterMap_eq_nil_iff.mpr fun event hevent ↦ by
    obtain ⟨why, rfl⟩ := eq_aborted_of_mem hevent
    exact hfound why

/-- A cancelled run stays cancelled. -/
theorem Signal.isRaised_heed (reason : Option Datum) {signal : Signal}
    (h : signal.isRaised = true) : (signal.heed reason).isRaised = true := by
  cases signal with
  | raised why => cases reason <;> rfl
  | absent => cases h
  | quiet => cases h

/-- What the host says to the log, as events. -/
def Remark.events (time : Number) (remarks : List Remark) : List Event :=
  remarks.map fun remark ↦ .logged ⟨time, remark.level, remark.message, [], []⟩

/-- What looks for other events than entries of the log finds none in what the host says. -/
theorem Remark.filterMap_events {α : Type} {found : Event → Option α}
    (hfound : ∀ entry, found (.logged entry) = none) (time : Number) (remarks : List Remark) :
    (events time remarks).filterMap found = [] :=
  List.filterMap_eq_nil_iff.mpr fun event hevent ↦ by
    obtain ⟨remark, -, rfl⟩ := List.mem_map.mp hevent
    exact hfound _

theorem Remark.remark_of_mem {time : Number} {remarks : List Remark} {event : Event}
    (h : event ∈ events time remarks) : event.Remark := by
  obtain ⟨_, _, rfl⟩ := List.mem_map.mp h
  rfl

namespace Live

theorem abort_eq (live : Live σ) (reason : Option Datum) :
    live.abort reason = { live with
      signal := live.signal.heed reason
      events := live.events ++ live.signal.abortion reason } := by
  obtain ⟨environment, now, clock, signal, host, outcomes, events⟩ := live
  cases reason with
  | none => simp [abort, Signal.heed, Signal.abortion]
  | some why => cases signal <;> simp [abort, Signal.heed, Signal.abortion, note]

/-- The host is told an outcome that is recorded, which may cancel the run. -/
theorem record_eq (setting : Setting σ) (outcome : Outcome) (live : Live σ) :
    live.record setting outcome = { live with
      outcomes := live.outcomes ++ [outcome]
      host := (setting.host.notice outcome live.host).2
      signal := live.signal.heed (setting.host.notice outcome live.host).1
      events := live.events ++ (.recorded live.time outcome :: .logged ⟨live.time, .debug,
        "Step finished", setting.bindings, Datum.ofEntries outcome.entries⟩ ::
          live.signal.abortion (setting.host.notice outcome live.host).1) } := by
  have hrecord : live.record setting outcome =
      abort (setting.host.notice outcome live.host).1 _ := rfl
  rw [hrecord, abort_eq]
  simp [log, note, time]

theorem record_outcomes (setting : Setting σ) (outcome : Outcome) (live : Live σ) :
    (live.record setting outcome).outcomes = live.outcomes ++ [outcome] := by
  rw [record_eq]

theorem pause_eq (setting : Setting σ) (milliseconds : Number) (live : Live σ) :
    live.pause setting milliseconds = { live with
      now := live.now + milliseconds
      host := (setting.host.rest milliseconds live.host).2
      signal := live.signal.heed (setting.host.rest milliseconds live.host).1
      events := live.events ++ (.rested milliseconds ::
        live.signal.abortion (setting.host.rest milliseconds live.host).1) } := by
  unfold pause
  dsimp only
  rw [abort_eq]
  simp [note]

theorem settle_eq {header : StepHeader} {reply : Reply} {live after : Live σ}
    {answer : Except Datum Datum} (h : live.settle header reply = some (answer, after)) :
    ∃ now, after = { live with now := now } := by
  unfold settle at h
  dsimp only at h
  split at h
  · simp at h
  · exact ⟨_, (Prod.mk.inj (Option.some.inj h)).2.symm⟩
  · exact ⟨_, (Prod.mk.inj (Option.some.inj h)).2.symm⟩
  · split at h <;> exact ⟨_, (Prod.mk.inj (Option.some.inj h)).2.symm⟩

theorem remarks_eq (remarks : List Remark) (live : Live σ) :
    remarks.foldl (fun l remark ↦ l.log [] remark.level remark.message []) live =
      { live with events := live.events ++ Remark.events live.time remarks } := by
  induction remarks generalizing live with
  | nil => simp [Remark.events]
  | cons remark rest ih =>
    rw [List.foldl_cons, ih]
    simp [Remark.events, log, note, time]

/-- A request is made to the host, which may speak and cancel the run before it answers. -/
theorem ask_eq {setting : Setting σ} {header : StepHeader} {call : Call} {live after : Live σ}
    {answer : Except Datum Datum} (h : live.ask setting header call = some (answer, after)) :
    ∃ now, after = { live with
      now := now
      host := (setting.host.reply live.now call live.host).2
      signal := live.signal.heed (setting.host.reply live.now call live.host).1.abort
      events := live.events ++ (.called call ::
        (Remark.events live.time (setting.host.reply live.now call live.host).1.remarks ++
          live.signal.abortion (setting.host.reply live.now call live.host).1.abort)) } := by
  unfold ask at h
  dsimp only at h
  rw [remarks_eq, abort_eq] at h
  obtain ⟨now, rfl⟩ := settle_eq h
  exact ⟨now, by simp [note, time]⟩

end Live

namespace Live

/-! ### Growing and recording -/

/-- A run that has grown by events of a kind: nothing was recorded, and a cancelled run stays
cancelled. -/
structure Grows (kind : Event → Prop) (live after : Live σ) : Prop where
  outcomes : after.outcomes = live.outcomes
  events : ∃ news, after.events = live.events ++ news ∧ ∀ event ∈ news, kind event
  cancelled : live.isCancelled = true → after.isCancelled = true

/-- A run that has recorded one outcome, with events of a kind before it and only remarks behind. -/
structure Records (kind : Event → Prop) (outcome : Outcome) (live after : Live σ) : Prop where
  outcomes : after.outcomes = live.outcomes ++ [outcome]
  events : ∃ before time later,
    after.events = live.events ++ (before ++ .recorded time outcome :: later) ∧
      (∀ event ∈ before, kind event) ∧ ∀ event ∈ later, event.Remark
  cancelled : live.isCancelled = true → after.isCancelled = true

variable {kind other : Event → Prop} {outcome : Outcome} {live middle after : Live σ}

theorem Grows.refl (live : Live σ) : Grows kind live live :=
  ⟨rfl, ⟨[], by simp, by simp⟩, id⟩

theorem Grows.trans (hfirst : Grows kind live middle) (hlast : Grows kind middle after) :
    Grows kind live after := by
  obtain ⟨first, hfirstEvents, hfirstKind⟩ := hfirst.events
  obtain ⟨last, hlastEvents, hlastKind⟩ := hlast.events
  refine ⟨hlast.outcomes.trans hfirst.outcomes, ⟨first ++ last, ?_, ?_⟩,
    hlast.cancelled ∘ hfirst.cancelled⟩
  · rw [hlastEvents, hfirstEvents, List.append_assoc]
  · intro event hevent
    rcases List.mem_append.mp hevent with h | h
    · exact hfirstKind event h
    · exact hlastKind event h

theorem Grows.mono (himp : ∀ event, kind event → other event) (h : Grows kind live after) :
    Grows other live after := by
  obtain ⟨news, hevents, hkind⟩ := h.events
  exact ⟨h.outcomes, ⟨news, hevents, fun event hevent ↦ himp event (hkind event hevent)⟩,
    h.cancelled⟩

theorem Grows.unmarked (h : Grows Event.Remark live after) : Grows Event.Unmarked live after :=
  h.mono fun _ ↦ Event.Remark.unmarked

theorem Grows.records (hgrows : Grows kind live middle)
    (hrecords : Records kind outcome middle after) : Records kind outcome live after := by
  obtain ⟨news, hnews, hkind⟩ := hgrows.events
  obtain ⟨before, time, later, hevents, hbefore, hlater⟩ := hrecords.events
  refine ⟨by rw [hrecords.outcomes, hgrows.outcomes],
    ⟨news ++ before, time, later, ?_, ?_, hlater⟩, hrecords.cancelled ∘ hgrows.cancelled⟩
  · rw [hevents, hnews]
    simp
  · intro event hevent
    rcases List.mem_append.mp hevent with h | h
    · exact hkind event h
    · exact hbefore event h

theorem Records.grows (hrecords : Records kind outcome live middle)
    (hgrows : Grows Event.Remark middle after) : Records kind outcome live after := by
  obtain ⟨before, time, later, hevents, hbefore, hlater⟩ := hrecords.events
  obtain ⟨news, hnews, hkind⟩ := hgrows.events
  refine ⟨by rw [hgrows.outcomes, hrecords.outcomes],
    ⟨before, time, later ++ news, ?_, hbefore, ?_⟩, hgrows.cancelled ∘ hrecords.cancelled⟩
  · rw [hnews, hevents]
    simp
  · intro event hevent
    rcases List.mem_append.mp hevent with h | h
    · exact hlater event h
    · exact hkind event h

/-! ### Small steps -/

theorem note_grows (live : Live σ) {event : Event} (h : kind event) :
    Grows kind live (live.note event) :=
  ⟨rfl, ⟨[event], rfl, by simpa using h⟩, id⟩

theorem log_grows (live : Live σ) (bindings : Entries Datum) (level : Level) (message : Text)
    (details : Entries Datum) : Grows Event.Remark live (live.log bindings level message details) :=
  live.note_grows rfl

theorem bind_grows (live : Live σ) (name : Text) (slot : Option Value) :
    Grows Event.Unmarked live (live.bind name slot) :=
  ⟨rfl, ⟨[.bound name slot], rfl, by simp [Event.Unmarked, Event.mark?]⟩, id⟩

/-- Recording an outcome adds it before everything else. -/
theorem record_records (setting : Setting σ) (outcome : Outcome) (live : Live σ) :
    Records kind outcome live (live.record setting outcome) := by
  rw [record_eq]
  exact ⟨rfl, ⟨[], live.time, _, rfl, by simp,
    List.forall_mem_cons.mpr ⟨rfl, fun _ ↦ Signal.remark_of_mem⟩⟩, Signal.isRaised_heed _⟩

theorem pause_grows (setting : Setting σ) (milliseconds : Number) (live : Live σ) :
    Grows Event.Unmarked live (live.pause setting milliseconds) := by
  rw [pause_eq]
  exact ⟨rfl, ⟨_, rfl, List.forall_mem_cons.mpr
    ⟨rfl, fun _ hevent ↦ (Signal.remark_of_mem hevent).unmarked⟩⟩, Signal.isRaised_heed _⟩

theorem takeTurn_grows (setting : Setting σ) (step : Step) (turn : Turn) (live : Live σ) :
    Grows Event.Unmarked live (live.takeTurn setting step turn) := by
  unfold takeTurn
  dsimp only
  rcases turn.binding with _ | ⟨name, value⟩
  · split
    · exact (log_grows live _ _ _ _).unmarked
    · exact .refl live
  · have hbound : Grows Event.Unmarked live (live.bind name (some value)) := live.bind_grows _ _
    split
    · exact hbound.trans (log_grows _ _ _ _ _).unmarked
    · exact hbound

theorem bindResult_grows (step : Step) (slot : Option Value) (live : Live σ) :
    Grows Event.Unmarked live (live.bindResult step slot).2 := by
  unfold bindResult
  split
  · exact live.bind_grows _ _
  · exact .refl live

theorem bindResult_key (step : Step) (slot : Option Value) (live : Live σ) (key : Text) :
    (live.bindResult step slot).1 = some key ↔ key = step.resultKey ∧ step.hasResult = true := by
  unfold bindResult
  split
  · next hresult => simp [hresult, eq_comm]
  · next hresult => simp [hresult]

/-! ### Attempts -/

theorem ask_grows {setting : Setting σ} {header : StepHeader} {call : Call}
    {answer : Except Datum Datum} (h : live.ask setting header call = some (answer, after)) :
    Grows Event.Unmarked live after := by
  obtain ⟨now, rfl⟩ := ask_eq h
  refine ⟨rfl, ⟨_, rfl, List.forall_mem_cons.mpr ⟨rfl, List.forall_mem_append.mpr ⟨?_, ?_⟩⟩⟩,
    Signal.isRaised_heed _⟩
  · exact fun event hevent ↦ (Remark.remark_of_mem hevent).unmarked
  · exact fun event hevent ↦ (Signal.remark_of_mem hevent).unmarked

theorem attempt_grows {setting : Setting σ} {header : StepHeader} {task : Task}
    {answer : Except Datum (Option Value)}
    (h : live.attempt setting header task = some (answer, after)) :
    Grows Event.Unmarked live after := by
  rcases attempt_cases h with ⟨_, _, -, hask⟩ | ⟨-, ⟨name, slot, rfl⟩ | rfl⟩
  · exact ask_grows hask
  · exact live.bind_grows name slot
  · exact .refl after

end Live

/-! ### What a step reports -/

/-- An outcome that is of a step at a place. -/
def Outcome.IsOf (step : Step) (place : Place) (outcome : Outcome) : Prop :=
  outcome.step = step.name ∧ outcome.kind = step.kind ∧ outcome.place = place

/-- How the run goes on agrees with what a step under a policy has reported. -/
def Passage.Accords (policy : Recovery) (outcome : Outcome) : Passage → Prop
  | .through => outcome.status = .failed → policy = .continue
  | .atEnd .completed => outcome.status ≠ .failed
  | .atEnd (.failed fault) =>
    outcome.status = .failed ∧ outcome.error = some fault.info ∧ policy ≠ .continue
  | .atEnd (.cancelled _) => outcome.status = .failed ∧ policy ≠ .continue

/-- The fault that a step was given up with. -/
def Attempted.fault? {β : Type} : Attempted β → Option Fault
  | .done _ _ => none
  | .failed _ fault _ => some fault

/-- How a step that was carried out has ended. -/
def Attempted.ending {β : Type} : Attempted β → StepEnding
  | .done attempts _ => if attempts > 1 then .retried else .success
  | .failed _ _ _ => .failed

namespace Live

variable {setting : Setting σ} {kind : Event → Prop} {live after : Live σ}

theorem askLoop_grows (owner : Opened) (live : Live σ) :
    Grows Event.Unmarked live (live.askLoop owner) :=
  live.note_grows rfl

/-- A turn that a loop begins, from the question to its cursor on. -/
theorem startTurn_grows (setting : Setting σ) (owner : Opened) (turn : Turn) (live : Live σ) :
    Grows Event.Unmarked live ((live.askLoop owner).takeTurn setting owner.step turn) :=
  (live.askLoop_grows owner).trans (takeTurn_grows setting owner.step turn _)

theorem finishLoop_grows (setting : Setting σ) (owner : Opened) (turn : Turn) (live : Live σ) :
    Grows Event.Remark live (live.finishLoop setting owner turn) :=
  log_grows live _ _ _ _

theorem close_records (status : StepEnding) (fault : Option Fault) (owner : Opened)
    (live : Live σ) :
    Records kind (live.outcome owner.step owner.place owner.startedAt status 1 fault none) live
      (live.close setting status fault owner) :=
  record_records setting _ live

/-- A guard, a condition or operands that fail are reported as a failure of their step, which has
not been attempted; where the run goes on, the name of its value is with it. -/
theorem stumbled_reports (setting : Setting σ) (owner : Opened) (fault : Fault) (live : Live σ) :
    ∃ outcome, Records Event.Unmarked outcome live (live.stumbled setting owner fault).2 ∧
      outcome.IsOf owner.step owner.place ∧
      (live.stumbled setting owner fault).1.Accords owner.step.header.policy outcome ∧
      outcome.error = some fault.info ∧ outcome.attempts = 0 ∧ outcome.status = .failed ∧
      ∀ key, outcome.resultKey = some key ↔ key = owner.step.resultKey ∧
        owner.step.hasResult = true ∧ (live.stumbled setting owner fault).1 = .through := by
  unfold stumbled stumble
  dsimp only
  by_cases hpolicy : owner.step.header.policy = .continue
  · rw [if_pos hpolicy]
    have htold := (log_grows live setting.bindings .warn "Step failed, continuing"
      [("step", .text owner.step.name), ("kind", .text fault.kind.name),
        ("error", .failure (.fault fault))]).unmarked
    exact ⟨_, (htold.trans (bindResult_grows _ _ _)).records (record_records _ _ _),
      ⟨rfl, rfl, rfl⟩, fun _ ↦ hpolicy, rfl, rfl, rfl,
      fun key ↦ (bindResult_key owner.step (some .null) _ key).trans (by simp)⟩
  · rw [if_neg hpolicy]
    exact ⟨_, record_records _ _ _, ⟨rfl, rfl, rfl⟩, ⟨rfl, rfl, hpolicy⟩, rfl, rfl, rfl,
      by simp [outcome]⟩

/-- A step whose guard does not hold is reported as passed over. -/
theorem passedOver_reports (setting : Setting σ) (step : Step) (place : Place) (live : Live σ) :
    Records Event.Unmarked (step.passedOver place) live
        (live.record setting (step.passedOver place)) ∧
      (step.passedOver place).IsOf step place ∧
      Passage.through.Accords step.header.policy (step.passedOver place) :=
  ⟨record_records setting _ live, ⟨rfl, rfl, rfl⟩, fun h ↦ by simp [Step.passedOver] at h⟩

theorem conclude_reports (setting : Setting σ) {header : StepHeader} (action : Action)
    (place : Place) (startedAt : Number) {attempted : Attempted (Option Value)}
    (hends : ∀ count fault ends, attempted = .failed count fault ends →
      ends = decide (header.policy ≠ .continue)) (live : Live σ) :
    ∃ outcome,
      Records Event.Unmarked outcome live
        (live.conclude setting (.act header action) place startedAt attempted).2 ∧
      outcome.IsOf (.act header action) place ∧
      ((live.conclude setting (.act header action) place startedAt attempted).1.passage
        (live.conclude setting (.act header action) place startedAt attempted).2).Accords
          header.policy outcome ∧
      outcome.error = attempted.fault?.map Fault.info ∧
      outcome.attempts = attempted.attempts ∧
      outcome.status = attempted.ending ∧
      ∀ key, outcome.resultKey = some key ↔ key = (Step.act header action).resultKey ∧
        (Step.act header action).hasResult = true ∧
        (live.conclude setting (.act header action) place startedAt attempted).1 = .goesOn := by
  cases attempted with
  | failed count fault ends =>
    cases ends with
    | true =>
      have hpolicy : header.policy ≠ .continue := by simpa using hends count fault true rfl
      refine ⟨_, record_records setting _ live, ⟨rfl, rfl, rfl⟩, ?_, rfl, rfl, rfl,
        by simp [conclude, outcome]⟩
      change (Passage.atEnd (if _ then cancellation _ else .failed fault)).Accords _ _
      split
      · exact ⟨rfl, hpolicy⟩
      · exact ⟨rfl, rfl, hpolicy⟩
    | false =>
      have hpolicy : header.policy = .continue := by simpa using hends count fault false rfl
      exact ⟨_, (bindResult_grows (.act header action) (some .null) live).records
        (record_records setting _ _), ⟨rfl, rfl, rfl⟩, fun _ ↦ hpolicy, rfl, rfl, rfl,
        fun key ↦ (bindResult_key _ (some .null) live key).trans (by simp [conclude])⟩
  | done count value =>
    have hstatus : (if count > 1 then StepEnding.retried else StepEnding.success) ≠ .failed := by
      split <;> simp
    have hbound := bindResult_grows (.act header action) value live
    have hrecords := hbound.records (record_records setting
      ((live.bindResult (.act header action) value).2.outcome (.act header action) place
        startedAt (if count > 1 then .retried else .success) count none
        (live.bindResult (.act header action) value).1) _)
    unfold conclude
    dsimp only
    by_cases hresult : (Step.act header action).hasResult = true
    · rw [if_pos hresult]
      exact ⟨_, hrecords, ⟨rfl, rfl, rfl⟩, fun h ↦ absurd h hstatus, rfl, rfl, rfl,
        fun key ↦ (bindResult_key _ value live key).trans (by simp)⟩
    · rw [if_neg hresult]
      exact ⟨_, hrecords.grows (log_grows _ _ _ _ _), ⟨rfl, rfl, rfl⟩, hstatus, rfl, rfl, rfl,
        fun key ↦ (bindResult_key _ value live key).trans (by simp [hresult])⟩

/-- While an action is carried out nothing is recorded. -/
theorem carryOut_grows {header : StepHeader} {action : Action}
    {result : Except Failure (Attempted (Option Value))}
    (h : Policy.carryOut (surroundings setting) header setting.retry
      (undertaking setting header action live) live = some (result, after)) :
    Grows Event.Unmarked live after :=
  Policy.carryOut_keeps Grows.refl Grows.trans
    (fun level message details live ↦ (log_grows live [] level message details).unmarked)
    (fun milliseconds live ↦ pause_grows setting milliseconds live)
    (fun _ _ _ _ hattempt ↦ attempt_grows hattempt) h

/-- An action is reported once, by an outcome that agrees with how the run goes on and shows the
fault that the action was given up with, how often it was attempted, how it has ended and, where the
run goes on, the name of its value. -/
theorem perform_reports {header : StepHeader} {action : Action} {place : Place}
    {startedAt : Number} {ended : ActionEnd}
    (h : live.perform setting header action place startedAt = some (.ok ended, after)) :
    ∃ outcome, Records Event.Unmarked outcome live after ∧
      outcome.IsOf (.act header action) place ∧
      (ended.passage after).Accords header.policy outcome ∧
      ∃ attempted middle, Policy.carryOut (surroundings setting) header setting.retry
          (undertaking setting header action live) live = some (.ok attempted, middle) ∧
        outcome.error = attempted.fault?.map Fault.info ∧
        outcome.attempts = attempted.attempts ∧ outcome.status = attempted.ending ∧
        ∀ key, outcome.resultKey = some key ↔ key = (Step.act header action).resultKey ∧
          (Step.act header action).hasResult = true ∧ ended = .goesOn := by
  obtain ⟨attempted, middle, hcarried, hended, rfl⟩ := perform_cases h
  obtain rfl := Except.ok.inj hended
  have hgrows := carryOut_grows hcarried
  have hends : ∀ count fault ends, attempted = .failed count fault ends →
      ends = decide (header.policy ≠ .continue) := by
    rintro count fault ends rfl
    exact Policy.ends_of_carryOut hcarried
  obtain ⟨outcome, hrecords, hof, haccords, hshows⟩ :=
    conclude_reports setting action place startedAt hends middle
  exact ⟨outcome, hgrows.records hrecords, hof, haccords, attempted, middle, hcarried, hshows⟩

/-! ### Further outcomes -/

/-- A run with further outcomes, all of a kind. -/
def Gains (kind : Outcome → Prop) (live after : Live σ) : Prop :=
  ∃ news, after.outcomes = live.outcomes ++ news ∧ ∀ outcome ∈ news, kind outcome

section Gains

variable {kind : Outcome → Prop} {outcome : Outcome} {middle : Live σ}

theorem Gains.of_eq (h : after.outcomes = live.outcomes) : Gains kind live after :=
  ⟨[], by simp [h], by simp⟩

theorem Gains.of_append (h : after.outcomes = live.outcomes ++ [outcome]) (hkind : kind outcome) :
    Gains kind live after :=
  ⟨[outcome], h, by simpa using hkind⟩

theorem Gains.trans (hfirst : Gains kind live middle) (hlast : Gains kind middle after) :
    Gains kind live after := by
  obtain ⟨first, hmiddle, hfirst⟩ := hfirst
  obtain ⟨last, hafter, hlast⟩ := hlast
  exact ⟨first ++ last, by rw [hafter, hmiddle, List.append_assoc],
    List.forall_mem_append.mpr ⟨hfirst, hlast⟩⟩

theorem Gains.forall_mem (h : Gains kind live after)
    (hlive : ∀ outcome ∈ live.outcomes, kind outcome) :
    ∀ outcome ∈ after.outcomes, kind outcome := by
  obtain ⟨news, hafter, hnews⟩ := h
  rw [hafter]
  exact List.forall_mem_append.mpr ⟨hlive, hnews⟩

/-- Each open step that is closed adds its outcome. -/
theorem closeAll_gains {status : StepEnding} {fault : Option Fault} (stack : List Frame)
    (hkind : ∀ owner ∈ stack.filterMap Frame.owner?, ∀ live : Live σ,
      kind (live.outcome owner.step owner.place owner.startedAt status 1 fault none))
    (live : Live σ) : Gains kind live (live.closeAll setting status fault stack) := by
  unfold closeAll
  generalize stack.filterMap Frame.owner? = owners at hkind
  induction owners generalizing live with
  | nil => exact .of_eq rfl
  | cons owner rest ih =>
    obtain ⟨hclosed, hrest⟩ := List.forall_mem_cons.mp hkind
    have hrecorded : Gains kind live (live.close setting status fault owner) :=
      .of_append (record_outcomes _ _ _) (hclosed live)
    exact hrecorded.trans (ih _ hrest)

end Gains

/-- A run before anything has happened. -/
structure IsFresh (live : Live σ) : Prop where
  outcomes : live.outcomes = []
  events : live.events = []

end Live

/-! ### Before the first step and behind the last -/

namespace Workflow

theorem announce_grows (validated : Validated) (setting : Setting σ) (live : Live σ) :
    Live.Grows Event.Remark live (announce validated setting live) := by
  have hwarned : ∀ warnings : List Text, ∀ live : Live σ, Live.Grows Event.Remark live
      (warnings.foldl (fun l warning ↦
        l.log setting.bindings .warn "Workflow warning" [("warning", .text warning)]) live) := by
    intro warnings
    induction warnings with
    | nil => exact .refl
    | cons warning rest ih => exact fun live ↦ (Live.log_grows live _ _ _ _).trans (ih _)
  exact (hwarned validated.warnings live).trans (Live.log_grows _ _ _ _ _)

theorem opening_grows (validated : Validated) (host : Host σ) (options : RunParameters)
    (live : Live σ) : Live.Grows Event.Remark live (opening validated host options live) := by
  obtain ⟨houtcomes, hevents, hcancelled⟩ :=
    announce_grows validated (validated.workflow.setting host options) live
  exact ⟨houtcomes, hevents, hcancelled⟩

theorem conclude_grows (ending : Ending) (startedAt : Number) (setting : Setting σ)
    (live : Live σ) :
    Live.Grows Event.Remark live (conclude ending startedAt setting live) := by
  unfold conclude
  dsimp only
  split
  · exact (Live.log_grows _ _ _ _ _).trans (Live.log_grows _ _ _ _ _)
  · exact Live.log_grows _ _ _ _ _

end Workflow

end BrowserFlow
