import BrowserFlow.Proofs.Run.History
import BrowserFlow.Proofs.Run.Turns

/-!
What the parts of a run bind. A run binds names one after the other: the bindings
are among its events, and its environment is the one before with the bindings
written over it (`Live.Binds`). Requests, waits, outcomes and entries of the log
bind nothing; an attempt that fails binds nothing (`Live.attempt_error_binds`), and
one that succeeds only what an assignment assigns (`Live.attempt_ok_binds`); what
its value can be says `Task.Gives`. An action whose step has a result binds the
result behind that, or null when it has failed and the run goes on, and an action
that ends the run binds nothing (`Live.perform_binds`). `Walk.Writes` says what a
turn of a walk binds, and `Walk.Moves.written` that a turn binds no more.
-/

set_option autoImplicit false
set_option relaxedAutoImplicit false

namespace BrowserFlow

variable {σ : Type}

/-- A name with what it is bound to, which may be nothing. -/
abbrev Binding := Text × Option Value

/-- The binding that an event is. -/
def Event.binding? : Event → Option Binding
  | .bound name slot => some (name, slot)
  | _ => none

/-- An environment with bindings written over it, one after the other. -/
def Environment.replay (env : Environment) (bindings : List Binding) : Environment :=
  bindings.foldl (fun env binding ↦ env.set binding.1 binding.2) env

theorem Environment.replay_append (env : Environment) (first others : List Binding) :
    env.replay (first ++ others) = (env.replay first).replay others :=
  List.foldl_append

/-- What a step with a result binds for its value. -/
def Step.resultBindings (step : Step) (slot : Option Value) : List Binding :=
  if step.hasResult then [(step.resultKey, slot)] else []

theorem Step.resultBindings_of_hasResult {step : Step} (h : step.hasResult = false)
    (slot : Option Value) : step.resultBindings slot = [] := by
  rw [resultBindings, if_neg (by simp [h])]

theorem Step.hasResult_of_isControl {step : Step} (h : step.isControl = true) :
    step.hasResult = false := by
  cases step with
  | act header action => cases h
  | branch header condition steps otherwise => rfl
  | loop header spec steps => rfl

/-- What a task binds by itself when its value is this one. -/
def Task.bindings (slot : Option Value) : Task → List Binding
  | .assign name _ _ => [(name, slot)]
  | _ => []

/-- How a task comes to its value: from the answer to its request, from what it assigns, or from the
reason that the run is over. -/
inductive Task.Gives (setting : Setting σ) (env : Environment) : Task → Option Value → Prop
  /-- A request is answered. -/
  | answered {call : Call} {now : Number} {state : σ} {answer : Datum} {slot : Option Value}
      (hreply : (setting.host.reply now call state).1.answer = .ok answer)
      (hresult : call.result answer = .ok slot) : Gives setting env (.request call) slot
  /-- A value is assigned. -/
  | assigned {name : Text} {value : Value} :
      Gives setting env (.assign name value false) (some value)
  /-- A value is added to a sequence. -/
  | extended {name : Text} {value : Value} {items : List Value}
      (hitems : env.extended name value = .ok items) :
      Gives setting env (.assign name value true) (some (.sequence items))
  /-- The run is over. -/
  | halted {reason : Option Text} :
      Gives setting env (.halt reason) (some ((reason.map Value.text).getD .null))

/-- What is bound for a turn of a loop. -/
def Turn.bindings (turn : Turn) : List Binding :=
  turn.binding.toList.map fun (name, value) ↦ (name, some value)

namespace Live

/-- A run that has bound some names, one after the other. -/
structure Binds (bindings : List Binding) (live after : Live σ) : Prop where
  events : ∃ news, after.events = live.events ++ news ∧ news.filterMap Event.binding? = bindings
  environment : after.environment = live.environment.replay bindings

variable {bindings others : List Binding} {live middle after : Live σ} {setting : Setting σ}

theorem Binds.refl (live : Live σ) : Binds [] live live := ⟨⟨[], by simp, rfl⟩, rfl⟩

theorem Binds.trans (hfirst : Binds bindings live middle) (hothers : Binds others middle after) :
    Binds (bindings ++ others) live after := by
  obtain ⟨first, hfirstEvents, hfirstBindings⟩ := hfirst.events
  obtain ⟨last, hlastEvents, hlastBindings⟩ := hothers.events
  refine ⟨⟨first ++ last, ?_, ?_⟩, ?_⟩
  · rw [hlastEvents, hfirstEvents, List.append_assoc]
  · rw [List.filterMap_append, hfirstBindings, hlastBindings]
  · rw [hothers.environment, hfirst.environment, Environment.replay_append]

theorem Binds.environment_eq (h : Binds [] live after) : after.environment = live.environment :=
  h.environment

/-- What has been bound was bound before, or is one of the bindings. -/
theorem Binds.mem_of_bound (h : Binds bindings live after) {name : Text} {slot : Option Value}
    (hbound : Event.bound name slot ∈ after.events) :
    Event.bound name slot ∈ live.events ∨ (name, slot) ∈ bindings := by
  obtain ⟨news, hevents, hnews⟩ := h.events
  rw [hevents] at hbound
  rcases List.mem_append.mp hbound with hbefore | hnew
  · exact .inl hbefore
  · exact .inr (hnews ▸ List.mem_filterMap.mpr ⟨_, hnew, rfl⟩)

/-- What binds nothing can come behind any bindings. -/
theorem Binds.quietly (hfirst : Binds bindings live middle) (hothers : Binds [] middle after) :
    Binds bindings live after := by
  have hall := hfirst.trans hothers
  rwa [List.append_nil] at hall

/-! ### Small steps -/

theorem note_binds (live : Live σ) {event : Event} (h : event.binding? = none) :
    Binds [] live (live.note event) :=
  ⟨⟨[event], rfl, by simp [h]⟩, rfl⟩

theorem bind_binds (live : Live σ) (name : Text) (slot : Option Value) :
    Binds [(name, slot)] live (live.bind name slot) :=
  ⟨⟨[.bound name slot], rfl, rfl⟩, rfl⟩

theorem log_binds (live : Live σ) (bindings : Entries Datum) (level : Level) (message : Text)
    (details : Entries Datum) : Binds [] live (live.log bindings level message details) :=
  live.note_binds rfl

theorem record_binds (setting : Setting σ) (outcome : Outcome) (live : Live σ) :
    Binds [] live (live.record setting outcome) := by
  rw [record_eq]
  refine ⟨⟨_, rfl, ?_⟩, rfl⟩
  rw [List.filterMap_cons_none rfl, List.filterMap_cons_none rfl,
    Signal.filterMap_abortion fun _ ↦ rfl]

theorem pause_binds (setting : Setting σ) (milliseconds : Number) (live : Live σ) :
    Binds [] live (live.pause setting milliseconds) := by
  rw [pause_eq]
  refine ⟨⟨_, rfl, ?_⟩, rfl⟩
  rw [List.filterMap_cons_none rfl, Signal.filterMap_abortion fun _ ↦ rfl]

theorem enter_binds (place : Place) (live : Live σ) : Binds [] live (live.enter place) :=
  live.note_binds rfl

theorem askLoop_binds (owner : Opened) (live : Live σ) : Binds [] live (live.askLoop owner) :=
  live.note_binds rfl

theorem finishLoop_binds (setting : Setting σ) (owner : Opened) (turn : Turn) (live : Live σ) :
    Binds [] live (live.finishLoop setting owner turn) :=
  live.log_binds _ _ _ _

theorem close_binds (setting : Setting σ) (status : StepEnding) (fault : Option Fault)
    (owner : Opened) (live : Live σ) : Binds [] live (live.close setting status fault owner) :=
  record_binds setting _ live

theorem release_binds (setting : Setting σ) (owner : Option Opened) (passage : Passage)
    (live : Live σ) : Binds [] live (live.release setting owner passage) := by
  cases owner with
  | none => exact .refl live
  | some opened => exact close_binds setting _ _ opened live

theorem closeAll_binds (setting : Setting σ) (status : StepEnding) (fault : Option Fault)
    (stack : List Frame) (live : Live σ) :
    Binds [] live (live.closeAll setting status fault stack) := by
  unfold closeAll
  generalize stack.filterMap Frame.owner? = owners
  induction owners generalizing live with
  | nil => exact .refl live
  | cons owner rest ih => exact (close_binds setting status fault owner live).quietly (ih _)

/-- A step with a result binds it, and no other step anything. -/
theorem bindResult_binds (step : Step) (slot : Option Value) (live : Live σ) :
    Binds (step.resultBindings slot) live (live.bindResult step slot).2 := by
  unfold bindResult Step.resultBindings
  split
  · exact live.bind_binds _ _
  · exact .refl live

theorem takeTurn_binds (setting : Setting σ) (step : Step) (turn : Turn) (live : Live σ) :
    Binds turn.bindings live (live.takeTurn setting step turn) := by
  unfold takeTurn Turn.bindings
  dsimp only
  rcases turn.binding with _ | ⟨name, value⟩
  · split
    · exact live.log_binds _ _ _ _
    · exact .refl live
  · split
    · exact (live.bind_binds name (some value)).quietly (log_binds _ _ _ _ _)
    · exact live.bind_binds name (some value)

/-- A guard, a condition or operands that fail bind nothing; where the run goes on, a step that has
a result is bound to null in its place. -/
theorem stumbled_binds (setting : Setting σ) (owner : Opened) (fault : Fault) (live : Live σ) :
    (owner.step.header.policy = .continue ∧
      (live.stumbled setting owner fault).1 = .through ∧
      Binds (owner.step.resultBindings (some .null)) live (live.stumbled setting owner fault).2) ∨
    ((live.stumbled setting owner fault).1 = .atEnd (.failed fault) ∧
      Binds [] live (live.stumbled setting owner fault).2) := by
  unfold stumbled stumble
  by_cases hpolicy : owner.step.header.policy = .continue
  · simp only [if_pos hpolicy]
    have htold := live.log_binds setting.bindings .warn "Step failed, continuing"
      [("step", .text owner.step.name), ("kind", .text fault.kind.name),
        ("error", .failure (.fault fault))]
    have hbound := htold.trans (bindResult_binds owner.step (some .null) _)
    exact .inl ⟨hpolicy, rfl, hbound.quietly (record_binds setting _ _)⟩
  · simp only [if_neg hpolicy]
    exact .inr ⟨rfl, record_binds setting _ live⟩

/-! ### Attempts -/

/-- What a request is answered with in time is the answer of the reply. -/
theorem answer_of_settle {header : StepHeader} {reply : Reply} {answer : Datum}
    (h : live.settle header reply = some (.ok answer, after)) : reply.answer = .ok answer := by
  unfold settle at h
  dsimp only at h
  split at h
  · simp at h
  · exact (Prod.mk.inj (Option.some.inj h)).1
  · simp at h
  · split at h
    · simp at h
    · exact (Prod.mk.inj (Option.some.inj h)).1

theorem ask_binds {header : StepHeader} {call : Call} {answer : Except Datum Datum}
    (h : live.ask setting header call = some (answer, after)) : Binds [] live after := by
  obtain ⟨now, rfl⟩ := ask_eq h
  refine ⟨⟨_, rfl, ?_⟩, rfl⟩
  rw [List.filterMap_cons_none rfl, List.filterMap_append, Remark.filterMap_events fun _ ↦ rfl,
    Signal.filterMap_abortion fun _ ↦ rfl, List.append_nil]

/-- An attempt that fails binds nothing. -/
theorem attempt_error_binds {header : StepHeader} {task : Task} {thrown : Datum}
    (h : live.attempt setting header task = some (.error thrown, after)) : Binds [] live after := by
  obtain ⟨_, -, ⟨_, -, hask⟩ | ⟨_, _, _, -, hask, -⟩ | ⟨_, _, _, -, -, -, rfl⟩⟩ := attempt_error h
  · exact ask_binds hask
  · exact ask_binds hask
  · exact .refl after

/-- An attempt that succeeds binds what its task assigns. -/
theorem attempt_ok_binds {header : StepHeader} {task : Task} {slot : Option Value}
    (h : live.attempt setting header task = some (.ok slot, after)) :
    Binds (task.bindings slot) live after := by
  rcases attempt_ok h with ⟨call, answer, rfl, hask, -⟩ | ⟨name, value, rfl, rfl, rfl⟩ |
    ⟨name, value, items, rfl, -, rfl, rfl⟩ | ⟨reason, rfl, -, rfl⟩
  · exact ask_binds hask
  · exact live.bind_binds _ _
  · exact live.bind_binds _ _
  · exact .refl after

theorem attempt_ok_gives {header : StepHeader} {task : Task} {slot : Option Value}
    (h : live.attempt setting header task = some (.ok slot, after)) :
    task.Gives setting live.environment slot := by
  rcases attempt_ok h with ⟨call, answer, rfl, hask, hresult⟩ | ⟨name, value, rfl, rfl, -⟩ |
    ⟨name, value, items, rfl, hitems, rfl, -⟩ | ⟨reason, rfl, rfl, -⟩
  · exact .answered (answer_of_settle hask) hresult
  · exact .assigned
  · exact .extended hitems
  · exact .halted

end Live

/-! ### Tasks -/

/-- The kind of action that comes to a task. -/
def Task.kind : Task → ActionKind
  | .request call => call.kind
  | .assign _ _ _ => .setVariable
  | .halt _ => .stop

namespace Action

variable {action : Action} {scope : Scope} {timeout : Number} {recorded : Value}

/-- An action comes to a task of its own kind. -/
theorem kind_of_task {task : Task} (h : action.task scope timeout recorded = .ok task) :
    task.kind = action.kind := by
  cases action with
  | navigate | click | hover | getText | evaluate | executeScript | load | waitFor | screenshot =>
    obtain ⟨_, -, h⟩ := Except.parts_of_bind h
    obtain rfl := Except.ok.inj h
    rfl
  | getAttribute | setInputFiles =>
    obtain ⟨_, -, h⟩ := Except.parts_of_bind h
    obtain ⟨_, -, h⟩ := Except.parts_of_bind h
    obtain rfl := Except.ok.inj h
    rfl
  | type selector input =>
    obtain ⟨field, -, h⟩ := Except.parts_of_bind h
    cases input <;>
    · obtain ⟨_, -, h⟩ := Except.parts_of_bind h
      obtain rfl := Except.ok.inj h
      rfl
  | wait seconds =>
    obtain ⟨length, -, h⟩ := Except.parts_of_bind h
    split at h
    · cases h
    · obtain rfl := Except.ok.inj h
      rfl
  | extract selector fields =>
    obtain ⟨element, -, h⟩ := Except.parts_of_bind h
    cases fields with
    | none =>
      obtain rfl := Except.ok.inj h
      rfl
    | some specs =>
      obtain ⟨_, -, h⟩ := Except.parts_of_bind h
      obtain rfl := Except.ok.inj h
      rfl
  | save path data =>
    obtain ⟨target, -, h⟩ := Except.parts_of_bind h
    cases data with
    | none =>
      obtain rfl := Except.ok.inj h
      rfl
    | some content =>
      obtain ⟨_, -, h⟩ := Except.parts_of_bind h
      obtain rfl := Except.ok.inj h
      rfl
  | setVariable target source append =>
    obtain ⟨name, -, h⟩ := Except.parts_of_bind h
    split at h
    · obtain ⟨_, -, h⟩ := Except.parts_of_bind h
      obtain rfl := Except.ok.inj h
      rfl
    · cases h
  | stop reason =>
    cases reason with
    | none =>
      obtain rfl := Except.ok.inj h
      rfl
    | some source =>
      obtain ⟨_, -, h⟩ := Except.parts_of_bind h
      obtain rfl := Except.ok.inj h
      rfl

/-- Only an assignment is prepared as one: its target, which has to be a name, and its value are
resolved before it is. -/
theorem eq_setVariable_of_task {name : Text} {value : Value} {append : Bool}
    (h : action.task scope timeout recorded = .ok (.assign name value append)) :
    ∃ target source appended, action = .setVariable target source appended ∧
      Template.interpolate scope target = .ok name ∧ name.isName = true ∧
      source.resolve scope = .ok value := by
  have hkind := kind_of_task h
  cases action with
  | setVariable target source appended =>
    obtain ⟨found, hfound, h⟩ := Except.parts_of_bind h
    split at h
    · next hname =>
      obtain ⟨resolved, hvalue, h⟩ := Except.parts_of_bind h
      obtain ⟨rfl, rfl, -⟩ := Task.assign.inj (Except.ok.inj h)
      exact ⟨target, source, appended, rfl, hfound, hname, hvalue⟩
    · cases h
  | _ => simp [Task.kind, kind] at hkind

/-- Only a wait is prepared as one, when its length is resolved. -/
theorem eq_wait_of_task {seconds : Number}
    (h : action.task scope timeout recorded = .ok (.request (.wait seconds))) :
    ∃ amount, action = .wait amount ∧
      (amount.getD standardWait).resolve scope "wait duration" = .ok seconds := by
  have hkind := kind_of_task h
  cases action with
  | wait amount =>
    obtain ⟨length, hlength, h⟩ := Except.parts_of_bind h
    split at h
    · cases h
    · obtain rfl := Call.wait.inj (Task.request.inj (Except.ok.inj h))
      exact ⟨amount, rfl, hlength⟩
  | _ => simp [Task.kind, Call.kind, kind] at hkind

end Action

/-! ### Actions -/

/-- What holds behind a step that was carried out: one thing of its value when it is done, and
another when it has failed. -/
def Attempted.Leads {W β : Type} (during : W → Prop) (done : β → W → Prop) (after : W) :
    Attempted β → Prop
  | .done _ value => done value after
  | .failed _ _ _ => during after

namespace Policy

variable {W α β : Type} {around : Surroundings W} {header : StepHeader} {standard : RetryPlan}
  {undertaking : Undertaking W α β} {w after : W}

theorem giveUp_leads {during : W → Prop} {done : β → W → Prop}
    (hlog : ∀ level message details w, during w → during (around.log level message details w))
    (made : Nat) (fault : Fault) (hw : during w) :
    (giveUp (β := β) around header made fault w).1.Leads during done
      (giveUp (β := β) around header made fault w).2 := by
  unfold giveUp
  split
  · exact hlog _ _ _ w hw
  · exact hw

theorem Tries.leads {plan : RetryPlan} {attempt : W → Option (Except Datum β × W)}
    {during : W → Prop} {done : β → W → Prop}
    (hlog : ∀ level message details w, during w → during (around.log level message details w))
    (hpause : ∀ milliseconds w, during w → during (around.pause milliseconds w))
    (hfail : ∀ w thrown after, during w → attempt w = some (.error thrown, after) → during after)
    (hdone : ∀ w value after, during w → attempt w = some (.ok value, after) → done value after)
    {left made : Nat} {result : Except Failure (Attempted β)}
    (h : Tries around header plan attempt left made w result after) (hw : during w) :
    ∀ attempted, result = .ok attempted → attempted.Leads during done after := by
  induction h with
  | done hattempt =>
    rintro attempted hresult
    obtain rfl := Except.ok.inj hresult
    exact hdone _ _ _ hw hattempt
  | unnamed _ _ => simp
  | spent hattempt _ =>
    rintro attempted hresult
    obtain rfl := Except.ok.inj hresult
    exact giveUp_leads hlog _ _ (hfail _ _ _ hw hattempt)
  | halted hattempt _ _ =>
    rintro attempted hresult
    obtain rfl := Except.ok.inj hresult
    exact giveUp_leads hlog _ _ (hfail _ _ _ hw hattempt)
  | again hattempt _ _ _ ih =>
    exact ih (hpause _ _ (hlog _ _ _ _ (hfail _ _ _ hw hattempt)))

/-- What log entries, pauses and attempts that fail keep holds behind a step that has failed; what
an attempt that succeeds leads to from there holds behind a step that is done. -/
theorem carryOut_leads (during : W → Prop) (done : α → β → W → Prop)
    (hlog : ∀ level message details w, during w → during (around.log level message details w))
    (hpause : ∀ milliseconds w, during w → during (around.pause milliseconds w))
    (hfail : ∀ task w thrown after, undertaking.prepared = .ok task → during w →
      undertaking.attempt task w = some (.error thrown, after) → during after)
    (hdone : ∀ task w value after, undertaking.prepared = .ok task → during w →
      undertaking.attempt task w = some (.ok value, after) → done task value after)
    {attempted : Attempted β}
    (h : carryOut around header standard undertaking w = some (.ok attempted, after))
    (hw : during w) :
    attempted.Leads during (fun value after ↦ ∃ task, undertaking.prepared = .ok task ∧
      done task value after) after := by
  rcases carryOut_cases h with ⟨_, _, _, _, hresult, -⟩ | ⟨_, fault, _, _, hresult, rfl⟩ |
    ⟨task, htask, htries⟩
  · simp at hresult
  · obtain rfl := Except.ok.inj hresult
    exact giveUp_leads hlog _ _ hw
  · refine htries.leads hlog hpause (fun w thrown after ↦ hfail task w thrown after htask) ?_ hw
      attempted rfl
    exact fun w value after hw hattempt ↦ ⟨task, htask, hdone task w value after htask hw hattempt⟩

end Policy

namespace Live

variable {setting : Setting σ} {live after : Live σ} {header : StepHeader} {action : Action}

/-- What an action is prepared for is its task, with the outcomes before it as its record. -/
theorem task_of_prepared {task : Task}
    (h : (undertaking setting header action live).prepared = .ok task) :
    action.task live.scope (header.timeout.getD setting.waitForTimeout)
      (.sequence (live.outcomes.map Outcome.toValue)) = .ok task := by
  unfold undertaking at h
  dsimp only at h
  cases htask : action.task live.scope (header.timeout.getD setting.waitForTimeout)
      (.sequence (live.outcomes.map Outcome.toValue)) with
  | ok found =>
    rw [htask] at h
    exact congrArg Except.ok (Except.ok.inj h)
  | error fault =>
    rw [htask] at h
    cases h

/-- An action is prepared when its task has no fault. -/
theorem undertaking_task {task : Task}
    (h : (undertaking setting header action live).prepared = .ok task) :
    ∃ timeout recorded, action.task live.scope timeout recorded = .ok task :=
  ⟨_, _, task_of_prepared h⟩

/-- What an action binds when it leaves the run like this: nothing when the run is over. Otherwise
the value of its task, when there is one, and the result of its step. -/
inductive PerformBinds (setting : Setting σ) (header : StepHeader) (action : Action)
    (live : Live σ) : ActionEnd → List Binding → Prop
  /-- The run fails. -/
  | fails {fault : Fault} : PerformBinds setting header action live (.fails fault) []
  /-- The run is over. -/
  | stops : PerformBinds setting header action live .stops []
  /-- The action has failed, and the run goes on. -/
  | swallowed (hpolicy : header.policy = .continue) :
      PerformBinds setting header action live .goesOn
        ((Step.act header action).resultBindings (some .null))
  /-- The action is done. -/
  | done {timeout : Number} {recorded : Value} {task : Task} {slot : Option Value}
      (htask : action.task live.scope timeout recorded = .ok task)
      (hgives : task.Gives setting live.environment slot)
      (hresult : (Step.act header action).hasResult = true) :
      PerformBinds setting header action live .goesOn
        (task.bindings slot ++ [((Step.act header action).resultKey, slot)])

theorem task_of_isStop {scope : Scope} {timeout : Number} {recorded : Value} {task : Task}
    (hstop : action.isStop = true) (htask : action.task scope timeout recorded = .ok task) :
    ∃ reason, task = .halt reason := by
  have hkind : task.kind = action.kind := Action.kind_of_task htask
  obtain ⟨source, rfl⟩ : ∃ source, action = .stop source := by
    cases action with
    | stop source => exact ⟨source, rfl⟩
    | _ => cases hstop
  cases task with
  | halt reason => exact ⟨reason, rfl⟩
  | assign name value append => simp [Task.kind, Action.kind] at hkind
  | request call => cases call <;> simp [Task.kind, Call.kind, Action.kind] at hkind

/-- All attempts at an action bind nothing when it has failed in the end, and otherwise what the
last one binds. -/
theorem carryOut_binds {attempted : Attempted (Option Value)} {middle : Live σ}
    (h : Policy.carryOut (surroundings setting) header setting.retry
      (undertaking setting header action live) live = some (.ok attempted, middle)) :
    attempted.Leads (Binds [] live) (fun slot after ↦ ∃ task,
      (undertaking setting header action live).prepared = .ok task ∧
        Binds (Task.bindings slot task) live after ∧
        Task.Gives setting live.environment task slot) middle :=
  Policy.carryOut_leads (Binds [] live)
    (fun task slot after ↦ Binds (Task.bindings slot task) live after ∧
      Task.Gives setting live.environment task slot)
    (fun _ _ _ w hw ↦ hw.quietly (log_binds w _ _ _ _))
    (fun _ w hw ↦ hw.quietly (pause_binds setting _ w))
    (fun _ _ _ _ _ hw hattempt ↦ hw.quietly (attempt_error_binds hattempt))
    (fun _ _ _ _ _ hw hattempt ↦ ⟨hw.trans (attempt_ok_binds hattempt),
      hw.environment_eq ▸ attempt_ok_gives hattempt⟩) h (.refl live)

/-- An action binds no more than that. -/
theorem perform_binds {place : Place} {startedAt : Number} {ended : ActionEnd}
    (h : live.perform setting header action place startedAt = some (.ok ended, after)) :
    ∃ bindings, PerformBinds setting header action live ended bindings ∧
      Binds bindings live after := by
  obtain ⟨attempted, middle, hcarried, hended, rfl⟩ := perform_cases h
  obtain rfl := Except.ok.inj hended
  have hleads := carryOut_binds hcarried
  cases attempted with
  | failed count fault ends =>
    have hquiet : Binds [] live middle := hleads
    have hends := Policy.ends_of_carryOut hcarried
    cases ends with
    | true => exact ⟨[], .fails, hquiet.quietly (record_binds setting _ middle)⟩
    | false =>
      have hpolicy : header.policy = .continue := by simpa using hends.symm
      have hbound := hquiet.trans (bindResult_binds (.act header action) (some .null) middle)
      exact ⟨_, .swallowed hpolicy, hbound.quietly (record_binds setting _ _)⟩
  | done count slot =>
    obtain ⟨task, hprepared, hbinds, hgives⟩ := hleads
    obtain ⟨timeout, recorded, htask⟩ := undertaking_task hprepared
    have hbound := (hbinds.trans (bindResult_binds (.act header action) slot middle)).quietly
      (record_binds setting (outcome (.act header action) place startedAt
        (if count > 1 then .retried else .success) count none
        (middle.bindResult (.act header action) slot).1
        (middle.bindResult (.act header action) slot).2) _)
    unfold conclude
    dsimp only
    by_cases hresult : (Step.act header action).hasResult = true
    · rw [Step.resultBindings, if_pos hresult] at hbound
      rw [if_pos hresult]
      exact ⟨_, .done htask hgives hresult, hbound⟩
    · have hstop : action.isStop = true := by simpa [Step.hasResult] using hresult
      obtain ⟨reason, rfl⟩ := task_of_isStop hstop htask
      rw [Step.resultBindings, if_neg hresult] at hbound
      rw [if_neg hresult]
      exact ⟨[], .stops, hbound.quietly (log_binds _ _ _ _ _)⟩

end Live

/-! ### Turns of a walk -/

namespace Walk

variable {setting : Setting σ} {walk next : Walk σ} {bindings : List Binding}

/-- The step that a walk comes to next, with its place, when the steps of a list are on top. -/
def next? (walk : Walk σ) : Option (Place × Step) :=
  match walk.stack with
  | .steps (step :: _) site index _ :: _ => some (⟨site, index⟩, step)
  | _ => none

/-- What a turn binds with which a walk goes on. -/
inductive Writes (setting : Setting σ) (walk : Walk σ) : List Binding → Prop
  /-- No steps are left of a list. -/
  | left {site : Site} {index : Nat} {owner : Option Opened} {below : List Frame}
      (hstack : walk.stack = .steps [] site index owner :: below) : Writes setting walk []
  /-- The guard of the next step does not hold. -/
  | skipped {place : Place} {step : Step} (hnext : walk.next? = some (place, step))
      (hfound : step.approach walk.live.scope = .skip) : Writes setting walk []
  /-- The next step fails and the run goes on. -/
  | swallowed {place : Place} {step : Step} (hnext : walk.next? = some (place, step))
      (hfound : step.approach walk.live.scope ≠ .skip) (hpolicy : step.header.policy = .continue) :
      Writes setting walk (step.resultBindings (some .null))
  /-- The next step is an action with a result that is done. -/
  | done {place : Place} {header : StepHeader} {action : Action} {timeout : Number}
      {recorded : Value} {task : Task} {slot : Option Value}
      (hgoes : walk.live.isCancelled = false)
      (hnext : walk.next? = some (place, .act header action))
      (hfound : (Step.act header action).approach walk.live.scope = .act header action)
      (htask : action.task walk.live.scope timeout recorded = .ok task)
      (hgives : task.Gives setting walk.live.environment slot)
      (hresult : (Step.act header action).hasResult = true) :
      Writes setting walk (task.bindings slot ++ [((Step.act header action).resultKey, slot)])
  /-- The next step is opened. -/
  | opened {place : Place} {step : Step} (hnext : walk.next? = some (place, step))
      (hcontrol : step.isControl = true) : Writes setting walk []
  /-- The condition of a loop fails and the run goes on. -/
  | refused {owner : Opened} {body : List Step} {cursor : Cursor} {below : List Frame}
      {fault : Fault} (hstack : walk.stack = .loop owner body cursor :: below)
      (hfault : cursor.next walk.live.scope = .error fault) : Writes setting walk []
  /-- A loop is asked for a turn. -/
  | asked {owner : Opened} {body : List Step} {cursor : Cursor} {below : List Frame} {turn : Turn}
      (hstack : walk.stack = .loop owner body cursor :: below)
      (hturn : cursor.next walk.live.scope = .ok turn) : Writes setting walk turn.bindings

/-- What the run binds on the way to what a turn of a walk comes to. A turn that ends the walk binds
nothing. -/
def Written (setting : Setting σ) (walk : Walk σ) : Progress σ → Prop
  | .going next => ∃ bindings, walk.Writes setting bindings ∧ walk.live.Binds bindings next.live
  | .ended _ after => walk.live.Binds [] after
  | .broken _ _ => True
  | .stuck => True

theorem progress_written {live : Live σ} {below : List Frame} {passage : Passage}
    (hends : passage ≠ .through → walk.live.Binds [] live)
    (hgoes : passage = .through →
      ∃ bindings, walk.Writes setting bindings ∧ walk.live.Binds bindings live) :
    walk.Written setting (passage.progress setting ⟨live, below⟩) := by
  cases passage with
  | through => exact hgoes rfl
  | atEnd ending => exact (hends (by simp)).quietly (Live.closeAll_binds setting _ _ below live)

/-- A step that stumbles binds nothing, or null for its result when the run goes on. -/
theorem stumbled_written {live : Live σ} {owner : Opened} {below : List Frame} (fault : Fault)
    (hbefore : walk.live.Binds [] live)
    (hwrites : owner.step.header.policy = .continue →
      walk.Writes setting (owner.step.resultBindings (some .null))) :
    walk.Written setting ((live.stumbled setting owner fault).1.progress setting
      ⟨(live.stumbled setting owner fault).2, below⟩) := by
  rcases live.stumbled_binds setting owner fault with
    ⟨hpolicy, hpassage, hbinds⟩ | ⟨hpassage, hbinds⟩
  · exact progress_written (fun hne ↦ absurd hpassage hne)
      fun _ ↦ ⟨_, hwrites hpolicy, hbefore.trans hbinds⟩
  · exact progress_written (fun _ ↦ hbefore.quietly hbinds)
      fun heq ↦ absurd (hpassage.symm.trans heq) (by simp)

/-- A turn of a walk binds no more than that, when only steps that control others are loops. -/
theorem Moves.written {progress : Progress σ} (h : Moves setting walk progress)
    (hcontrol : ∀ owner body cursor below, walk.stack = .loop owner body cursor :: below →
      owner.step.isControl = true) : walk.Written setting progress := by
  cases h with
  | done => exact .refl _
  | @left live site index owner below =>
    exact ⟨[], .left rfl, Live.release_binds setting owner .through live⟩
  | @cancelled live => exact progress_written (fun _ ↦ .refl live) (by simp)
  | @skipped live step rest site index owner below hgoes hfound =>
    exact ⟨[], .skipped rfl hfound, (live.enter_binds _).quietly (Live.record_binds setting _ _)⟩
  | @stumbled live step rest site index owner below fault hgoes hfound =>
    have hheld : step.approach live.scope ≠ .skip := by simp [hfound]
    exact stumbled_written fault (live.enter_binds _) fun hpolicy ↦ .swallowed rfl hheld hpolicy
  | @acted live after step rest site index owner below header action ended hgoes hfound hperform =>
    obtain rfl := Step.eq_act_of_approach hfound
    obtain ⟨bindings, hbindings, hbinds⟩ := Live.perform_binds hperform
    have hall := (live.enter_binds ⟨site, index⟩).trans hbinds
    cases hbindings with
    | fails => exact progress_written (fun _ ↦ hall) (by simp [ActionEnd.passage])
    | stops => exact progress_written (fun _ ↦ hall) (by simp [ActionEnd.passage])
    | swallowed hpolicy => exact ⟨_, .swallowed rfl (by simp [hfound]) hpolicy, hall⟩
    | done htask hgives hresult => exact ⟨_, .done hgoes rfl hfound htask hgives hresult, hall⟩
  | stuck => trivial
  | @branched live step rest site index owner below side chosen hgoes hfound =>
    obtain ⟨_, _, _, _, rfl, -⟩ := Step.eq_branch_of_approach hfound
    exact ⟨[], .opened rfl rfl, live.enter_binds _⟩
  | @looped live step rest site index owner below body cursor hgoes hfound =>
    obtain ⟨_, _, rfl, -⟩ := Step.eq_loop_of_approach hfound
    exact ⟨[], .opened rfl rfl, live.enter_binds _⟩
  | @halted live => exact progress_written (fun _ ↦ .refl live) (by simp)
  | @refused live owner body cursor below fault hgoes hnext =>
    refine stumbled_written fault (live.askLoop_binds owner) fun hpolicy ↦ ?_
    have hresult := Step.hasResult_of_isControl (hcontrol owner body cursor below rfl)
    rw [Step.resultBindings_of_hasResult hresult]
    exact .refused rfl hnext
  | @turned live owner body cursor below turn hgoes hnext hturn =>
    exact ⟨_, .asked rfl hnext, (live.askLoop_binds owner).trans
      (Live.takeTurn_binds setting owner.step turn _)⟩
  | @finished live owner body cursor below turn hgoes hnext hturn =>
    exact ⟨_, .asked rfl hnext, (((live.askLoop_binds owner).trans
      (Live.takeTurn_binds setting owner.step turn _)).quietly
        (Live.finishLoop_binds setting owner turn _)).quietly
          (Live.close_binds setting _ _ owner _)⟩

end Walk

end BrowserFlow
