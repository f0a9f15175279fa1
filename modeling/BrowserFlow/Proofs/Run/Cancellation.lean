import BrowserFlow.Proofs.Run.Trace
import BrowserFlow.Proofs.Run.Turns
import Mathlib.Data.List.Basic

/-!
What a cancelled run still asks for. A run looks at its signal before every step
and every turn of a loop, and behind an attempt that has failed, but not between
a pause and the attempt behind it. So a run that is cancelled while it pauses
makes that one attempt, and in every other case no request follows the
cancellation (`Ceases`). Every small step heeds the signal in this sense
(`Live.Heeds`), the attempts of an action do (`Live.perform_heeds`), and so does
every turn of a walk (`Walk.Moves.heeds`). Main statement: whatever the host
does, the requests of a run cease with its cancellation, at every walk on the
way and at the end (`Workflow.run_ceases`).
-/

set_option autoImplicit false
set_option relaxedAutoImplicit false

namespace BrowserFlow

variable {σ : Type}

/-! ### Requests and cancellations -/

namespace Event

/-- Whether an event is a request. -/
def isCall : Event → Bool
  | .called _ => true
  | _ => false

/-- Whether an event is the cancellation of the run. -/
def isAbortion : Event → Bool
  | .aborted _ => true
  | _ => false

/-- An event that is neither a request nor a cancellation. -/
def Quiet (event : Event) : Prop := event.isCall = false ∧ event.isAbortion = false

theorem eq_called_of_isCall {event : Event} (h : event.isCall = true) :
    ∃ call, event = .called call := by
  cases event <;> simp_all [isCall]

theorem eq_aborted_of_isAbortion {event : Event} (h : event.isAbortion = true) :
    ∃ reason, event = .aborted reason := by
  cases event <;> simp_all [isAbortion]

/-- Two events that follow each other break the others apart. -/
theorem exists_eq_append_of_getElem? {events : List Event} {index : Nat} {first second : Event}
    (hfirst : events[index]? = some first) (hsecond : events[index + 1]? = some second) :
    ∃ earlier later, events = earlier ++ first :: second :: later := by
  obtain ⟨hindex, rfl⟩ := List.getElem?_eq_some_iff.mp hfirst
  obtain ⟨hnext, rfl⟩ := List.getElem?_eq_some_iff.mp hsecond
  refine ⟨events.take index, events.drop (index + 2), ?_⟩
  rw [← List.drop_eq_getElem_cons hnext, ← List.drop_eq_getElem_cons hindex,
    List.take_append_drop]

theorem recorded_quiet (time : Number) (outcome : Outcome) : (recorded time outcome).Quiet :=
  ⟨rfl, rfl⟩

theorem bound_quiet (name : Text) (slot : Option Value) : (bound name slot).Quiet := ⟨rfl, rfl⟩

theorem rested_quiet (milliseconds : Number) : (rested milliseconds).Quiet := ⟨rfl, rfl⟩

end Event

/-- What can follow the cancellation of a run, by what came before: no request; or a single one and
at once, when the run was pausing before an attempt. -/
def Ceases (earlier later : List Event) : Prop :=
  (∀ event ∈ later, event.isCall = false) ∨
    ∃ before milliseconds call rest, earlier = before ++ [.rested milliseconds] ∧
      later = .called call :: rest ∧ ∀ event ∈ rest, event.isCall = false

theorem Ceases.prepend {earlier later : List Event} (h : Ceases earlier later)
    (before : List Event) : Ceases (before ++ earlier) later := by
  rcases h with h | ⟨start, milliseconds, call, rest, rfl, rfl, hrest⟩
  · exact .inl h
  · exact .inr ⟨before ++ start, milliseconds, call, rest, (List.append_assoc _ _ _).symm, rfl,
      hrest⟩

theorem Ceases.append {earlier later news : List Event} (h : Ceases earlier later)
    (hnews : ∀ event ∈ news, event.isCall = false) : Ceases earlier (later ++ news) := by
  rcases h with h | ⟨start, milliseconds, call, rest, rfl, rfl, hrest⟩
  · exact .inl (List.forall_mem_append.mpr ⟨h, hnews⟩)
  · exact .inr ⟨start, milliseconds, call, rest ++ news, rfl, rfl,
      List.forall_mem_append.mpr ⟨hrest, hnews⟩⟩

namespace Live

variable {setting : Setting σ} {live middle after : Live σ}

/-- How a run goes on that heeds its signal. -/
inductive Heeds (live after : Live σ) : Prop
  /-- The run was cancelled: nothing is asked for. -/
  | over (news : List Event) (hbefore : live.isCancelled = true)
      (hafter : after.isCancelled = true) (hevents : after.events = live.events ++ news)
      (hquiet : ∀ event ∈ news, event.Quiet)
  /-- The run is not cancelled. -/
  | going (news : List Event) (hbefore : live.isCancelled = false)
      (hafter : after.isCancelled = false) (hevents : after.events = live.events ++ news)
      (hnews : ∀ event ∈ news, event.isAbortion = false)
  /-- The run is cancelled on the way, once, and its requests cease. -/
  | breaks (earlier : List Event) (reason : Datum) (later : List Event)
      (hbefore : live.isCancelled = false) (hafter : after.isCancelled = true)
      (hevents : after.events = live.events ++ (earlier ++ .aborted reason :: later))
      (hearlier : ∀ event ∈ earlier, event.isAbortion = false)
      (hlater : ∀ event ∈ later, event.isAbortion = false) (hceases : Ceases earlier later)

theorem Heeds.trans (hfirst : live.Heeds middle) (hlast : middle.Heeds after) :
    live.Heeds after := by
  rcases hfirst with ⟨news, hbefore, hmiddle, hnews, hquiet⟩ |
    ⟨news, hbefore, hmiddle, hnews, hgoing⟩ |
    ⟨earlier, reason, later, hbefore, hmiddle, hnews, hearlier, hlater, hceases⟩
  · rcases hlast with ⟨more, _, hafter, hmore, hstill⟩ | ⟨_, hgoes, _⟩ | ⟨_, _, _, hgoes, _⟩
    · refine .over (news ++ more) hbefore hafter ?_ ?_
      · rw [hmore, hnews, List.append_assoc]
      · exact List.forall_mem_append.mpr ⟨hquiet, hstill⟩
    · simp [hmiddle] at hgoes
    · simp [hmiddle] at hgoes
  · rcases hlast with ⟨_, hover, _⟩ | ⟨more, _, hafter, hmore, hstill⟩ |
      ⟨earlier, reason, later, _, hafter, hmore, hearlier, hlater, hceases⟩
    · simp [hmiddle] at hover
    · refine .going (news ++ more) hbefore hafter ?_ ?_
      · rw [hmore, hnews, List.append_assoc]
      · exact List.forall_mem_append.mpr ⟨hgoing, hstill⟩
    · refine .breaks (news ++ earlier) reason later hbefore hafter ?_ ?_ hlater
        (hceases.prepend news)
      · simp [hmore, hnews]
      · exact List.forall_mem_append.mpr ⟨hgoing, hearlier⟩
  · rcases hlast with ⟨more, _, hafter, hmore, hstill⟩ | ⟨_, hgoes, _⟩ | ⟨_, _, _, hgoes, _⟩
    · refine .breaks earlier reason (later ++ more) hbefore hafter ?_ hearlier ?_
        (hceases.append fun event h ↦ (hstill event h).1)
      · simp [hmore, hnews]
      · exact List.forall_mem_append.mpr ⟨hlater, fun event h ↦ (hstill event h).2⟩
    · simp [hmiddle] at hgoes
    · simp [hmiddle] at hgoes

/-! ### Small steps -/

/-- What neither adds an event nor touches the signal. -/
theorem Heeds.of_same (hevents : after.events = live.events)
    (hsignal : after.signal = live.signal) : live.Heeds after := by
  have hcancelled : after.isCancelled = live.isCancelled := by rw [isCancelled, hsignal]; rfl
  cases hbefore : live.isCancelled with
  | true => exact .over [] hbefore (hcancelled.trans hbefore) (by simp [hevents]) (by simp)
  | false => exact .going [] hbefore (hcancelled.trans hbefore) (by simp [hevents]) (by simp)

theorem Heeds.refl (live : Live σ) : live.Heeds live := .of_same rfl rfl

theorem host_heeds (live : Live σ) (host : σ) : live.Heeds { live with host := host } :=
  .of_same rfl rfl

theorem note_heeds (live : Live σ) {event : Event} (hquiet : event.Quiet) :
    live.Heeds (live.note event) := by
  cases hbefore : live.isCancelled with
  | true => exact .over [event] hbefore hbefore rfl (by simpa using hquiet)
  | false => exact .going [event] hbefore hbefore rfl (by simpa using hquiet.2)

theorem log_heeds (live : Live σ) (bindings : Entries Datum) (level : Level) (message : Text)
    (details : Entries Datum) : live.Heeds (live.log bindings level message details) :=
  live.note_heeds ⟨rfl, rfl⟩

/-- A run is left as it is, or it is cancelled now. -/
theorem abort_cases (live : Live σ) (reason : Option Datum) :
    live.abort reason = live ∨ ∃ why, live.isCancelled = false ∧
      live.abort reason = { live with signal := .raised why }.note (.aborted why) := by
  unfold abort
  split
  · next why hsignal => exact .inr ⟨why, by rw [isCancelled, hsignal]; rfl, rfl⟩
  · exact .inl rfl

theorem abort_heeds (live : Live σ) (reason : Option Datum) : live.Heeds (live.abort reason) := by
  rcases live.abort_cases reason with h | ⟨why, hbefore, h⟩ <;> rw [h]
  · exact .refl live
  · exact .breaks [] why [] hbefore rfl rfl (by simp) (by simp) (.inl (by simp))

theorem bind_heeds (name : Text) (slot : Option Value) (live : Live σ) :
    live.Heeds (live.bind name slot) := by
  have hset : live.Heeds { live with environment := live.environment.set name slot } :=
    .of_same rfl rfl
  exact hset.trans (note_heeds _ (Event.bound_quiet name slot))

theorem bindResult_heeds (step : Step) (slot : Option Value) (live : Live σ) :
    live.Heeds (live.bindResult step slot).2 := by
  unfold bindResult
  split
  · exact bind_heeds _ _ _
  · exact .refl live

theorem record_heeds (setting : Setting σ) (outcome : Outcome) (live : Live σ) :
    live.Heeds (live.record setting outcome) := by
  have hkept : live.Heeds { live with outcomes := live.outcomes ++ [outcome] } := .of_same rfl rfl
  have hnoted := hkept.trans (note_heeds _ (Event.recorded_quiet live.time outcome))
  have hlogged := hnoted.trans (log_heeds _ setting.bindings .debug "Step finished"
    (Datum.ofEntries outcome.entries))
  exact (hlogged.trans (host_heeds _ (setting.host.notice outcome live.host).2)).trans
    (abort_heeds _ (setting.host.notice outcome live.host).1)

theorem leave_heeds (setting : Setting σ) (owner : Opened) (passage : Passage) (live : Live σ) :
    live.Heeds (live.leave setting owner passage) :=
  record_heeds setting _ live

theorem release_heeds (setting : Setting σ) (owner : Option Opened) (passage : Passage)
    (live : Live σ) : live.Heeds (live.release setting owner passage) := by
  cases owner with
  | none => exact .refl live
  | some opened => exact leave_heeds setting opened passage live

theorem closeAll_heeds (setting : Setting σ) (status : StepEnding) (fault : Option Fault)
    (stack : List Frame) (live : Live σ) :
    live.Heeds (live.closeAll setting status fault stack) := by
  unfold closeAll
  generalize stack.filterMap Frame.owner? = owners
  induction owners generalizing live with
  | nil => exact .refl live
  | cons owner rest ih => exact (record_heeds setting _ live).trans (ih _)

theorem stumbled_heeds (setting : Setting σ) (owner : Opened) (fault : Fault) (live : Live σ) :
    live.Heeds (live.stumbled setting owner fault).2 := by
  unfold stumbled stumble
  dsimp only
  split
  · exact ((log_heeds live _ _ _ _).trans (bindResult_heeds _ _ _)).trans (record_heeds _ _ _)
  · exact record_heeds _ _ _

theorem conclude_heeds (setting : Setting σ) (step : Step) (place : Place) (startedAt : Number)
    (attempted : Attempted (Option Value)) (live : Live σ) :
    live.Heeds (live.conclude setting step place startedAt attempted).2 := by
  cases attempted with
  | failed count fault ends =>
    cases ends with
    | true => exact record_heeds _ _ _
    | false => exact (bindResult_heeds _ _ _).trans (record_heeds _ _ _)
  | done count value =>
    have hkept := (bindResult_heeds step value live).trans (record_heeds setting
      ((live.bindResult step value).2.outcome step place startedAt
        (if count > 1 then .retried else .success) count none (live.bindResult step value).1) _)
    unfold conclude
    dsimp only
    split
    · exact hkept
    · exact hkept.trans (log_heeds _ _ _ _ _)

theorem askLoop_heeds (owner : Opened) (live : Live σ) : live.Heeds (live.askLoop owner) :=
  live.note_heeds ⟨rfl, rfl⟩

theorem startTurn_heeds (setting : Setting σ) (owner : Opened) (turn : Turn) (live : Live σ) :
    live.Heeds ((live.askLoop owner).takeTurn setting owner.step turn) := by
  refine (live.askLoop_heeds owner).trans ?_
  unfold takeTurn
  dsimp only
  rcases turn.binding with _ | ⟨name, value⟩
  · split
    · exact log_heeds _ _ _ _ _
    · exact .refl _
  · split
    · exact (bind_heeds _ _ _).trans (log_heeds _ _ _ _ _)
    · exact bind_heeds _ _ _

/-! ### Attempts -/

theorem remarks_heed (remarks : List Remark) (live : Live σ) :
    live.Heeds (remarks.foldl (fun l remark ↦ l.log [] remark.level remark.message []) live) := by
  induction remarks generalizing live with
  | nil => exact .refl live
  | cons remark rest ih => exact (log_heeds live _ _ _ _).trans (ih _)

theorem settle_heeds {header : StepHeader} {reply : Reply} {answer : Except Datum Datum}
    (h : live.settle header reply = some (answer, after)) : live.Heeds after := by
  unfold settle at h
  dsimp only at h
  split at h
  · simp at h
  · obtain ⟨-, rfl⟩ := Prod.mk.inj (Option.some.inj h)
    exact .of_same rfl rfl
  · obtain ⟨-, rfl⟩ := Prod.mk.inj (Option.some.inj h)
    exact .of_same rfl rfl
  · split at h <;>
    · obtain ⟨-, rfl⟩ := Prod.mk.inj (Option.some.inj h)
      exact .of_same rfl rfl

/-- Once a request is made, what comes of it heeds the signal. -/
theorem ask_heeds {header : StepHeader} {call : Call} {answer : Except Datum Datum}
    (h : live.ask setting header call = some (answer, after)) :
    ∃ host, ({ live with host := host }.note (.called call)).Heeds after := by
  unfold ask at h
  dsimp only at h
  exact ⟨_, ((remarks_heed _ _).trans (abort_heeds _ _)).trans (settle_heeds h)⟩

/-- An attempt heeds the signal, but for the request that it may begin with. -/
theorem attempt_heeds {header : StepHeader} {task : Task} {answer : Except Datum (Option Value)}
    (h : live.attempt setting header task = some (answer, after)) :
    live.Heeds after ∨
      ∃ host call, ({ live with host := host }.note (.called call)).Heeds after := by
  rcases attempt_cases h with ⟨call, _, -, hask⟩ | ⟨-, ⟨name, slot, rfl⟩ | rfl⟩
  · obtain ⟨host, hheeds⟩ := ask_heeds hask
    exact .inr ⟨host, call, hheeds⟩
  · exact .inl (bind_heeds _ _ _)
  · exact .inl (.refl after)

/-- An attempt of a run that is not cancelled heeds the signal. -/
theorem attempt_heeds_of_going {header : StepHeader} {task : Task}
    {answer : Except Datum (Option Value)} (hgoes : live.isCancelled = false)
    (h : live.attempt setting header task = some (answer, after)) : live.Heeds after := by
  rcases attempt_heeds h with hheeds | ⟨host, call, hheeds⟩
  · exact hheeds
  · have hcalled : live.Heeds ({ live with host := host }.note (.called call)) :=
      .going [.called call] hgoes hgoes rfl (by simp [Event.isAbortion])
    exact hcalled.trans hheeds

/-- What a cancelled run does in one more attempt: it begins with a request, or makes none. -/
structure Lasts (live after : Live σ) : Prop where
  cancelled : after.isCancelled = true
  events : ∃ news, after.events = live.events ++ news ∧
    ((∀ event ∈ news, event.Quiet) ∨
      ∃ call rest, news = .called call :: rest ∧ ∀ event ∈ rest, event.Quiet)

theorem Lasts.refl (hcancelled : live.isCancelled = true) : live.Lasts live :=
  ⟨hcancelled, [], by simp, .inl (by simp)⟩

theorem Lasts.heeds (hlasts : live.Lasts middle) (hheeds : middle.Heeds after) :
    live.Lasts after := by
  obtain ⟨hcancelled, news, hnews, hcase⟩ := hlasts
  rcases hheeds with ⟨more, _, hafter, hmore, hquiet⟩ | ⟨_, hgoes, _⟩ | ⟨_, _, _, hgoes, _⟩
  · refine ⟨hafter, news ++ more, by rw [hmore, hnews, List.append_assoc], ?_⟩
    rcases hcase with hnone | ⟨call, rest, rfl, hrest⟩
    · exact .inl (List.forall_mem_append.mpr ⟨hnone, hquiet⟩)
    · exact .inr ⟨call, rest ++ more, rfl, List.forall_mem_append.mpr ⟨hrest, hquiet⟩⟩
  · simp [hcancelled] at hgoes
  · simp [hcancelled] at hgoes

theorem attempt_lasts {header : StepHeader} {task : Task} {answer : Except Datum (Option Value)}
    (hcancelled : live.isCancelled = true)
    (h : live.attempt setting header task = some (answer, after)) : live.Lasts after := by
  rcases attempt_heeds h with hheeds | ⟨host, call, hheeds⟩
  · exact (Lasts.refl hcancelled).heeds hheeds
  · have hasked : live.Lasts ({ live with host := host }.note (.called call)) :=
      ⟨hcancelled, [.called call], rfl, .inr ⟨call, [], rfl, by simp⟩⟩
    exact hasked.heeds hheeds

theorem giveUp_heeds {header : StepHeader} {made : Nat} {fault : Fault} (live : Live σ) :
    live.Heeds
      (Policy.giveUp (β := Option Value) (surroundings setting) header made fault live).2 :=
  Policy.giveUp_keeps Heeds.refl
    (fun level message details live ↦ log_heeds live [] level message details) made fault live

/-- A cancelled run makes one attempt and no more: behind one that fails it looks at its signal. -/
theorem tries_last {header : StepHeader} {plan : RetryPlan} {task : Task} {left made : Nat}
    {result : Except Failure (Attempted (Option Value))} (hcancelled : live.isCancelled = true)
    (h : Policy.Tries (surroundings setting) header plan (attempt setting header task) left made
      live result after) : live.Lasts after := by
  cases h with
  | done hattempt => exact attempt_lasts hcancelled hattempt
  | unnamed hattempt _ => exact attempt_lasts hcancelled hattempt
  | spent hattempt _ => exact (attempt_lasts hcancelled hattempt).heeds (giveUp_heeds _)
  | halted hattempt _ _ => exact (attempt_lasts hcancelled hattempt).heeds (giveUp_heeds _)
  | again hattempt _ hgoes _ =>
    have hstays := (attempt_lasts hcancelled hattempt).cancelled
    rw [show isCancelled _ = false from hgoes] at hstays
    simp at hstays

/-- A pause in which the run is cancelled. -/
theorem pause_events {milliseconds : Number} (hgoes : live.isCancelled = false)
    (hpaused : (live.pause setting milliseconds).isCancelled = true) :
    ∃ why, (live.pause setting milliseconds).events =
      live.events ++ [.rested milliseconds, .aborted why] := by
  unfold pause at hpaused ⊢
  dsimp only at hpaused ⊢
  generalize hwaiting : note _ _ = waiting at hpaused ⊢
  have hsignal : waiting.isCancelled = false := hwaiting ▸ hgoes
  rcases waiting.abort_cases (setting.host.rest milliseconds live.host).1 with h | ⟨why, -, h⟩
  · rw [h] at hpaused
    exact absurd (hsignal.symm.trans hpaused) (by simp)
  · refine ⟨why, ?_⟩
    rw [h, ← hwaiting]
    simp [note]

/-- A pause in which the run is cancelled, with the one attempt behind it. -/
theorem Heeds.of_pause {milliseconds : Number} (hgoes : live.isCancelled = false)
    (hpaused : (live.pause setting milliseconds).isCancelled = true)
    (hlasts : (live.pause setting milliseconds).Lasts after) : live.Heeds after := by
  obtain ⟨hcancelled, news, hnews, hcase⟩ := hlasts
  obtain ⟨why, hwhy⟩ := pause_events hgoes hpaused
  refine .breaks [.rested milliseconds] why news hgoes hcancelled (by simp [hnews, hwhy])
    (by simp [Event.isAbortion]) ?_ ?_
  · rcases hcase with hnone | ⟨call, rest, rfl, hrest⟩
    · exact fun event h ↦ (hnone event h).2
    · exact List.forall_mem_cons.mpr ⟨rfl, fun event h ↦ (hrest event h).2⟩
  · rcases hcase with hnone | ⟨call, rest, rfl, hrest⟩
    · exact .inl fun event h ↦ (hnone event h).1
    · exact .inr ⟨[], milliseconds, call, rest, rfl, rfl, fun event h ↦ (hrest event h).1⟩

theorem pause_heeds (setting : Setting σ) (milliseconds : Number) (live : Live σ) :
    live.Heeds (live.pause setting milliseconds) := by
  have hhost := host_heeds live (setting.host.rest milliseconds live.host).2
  have hwaiting := hhost.trans (note_heeds _ (Event.rested_quiet milliseconds))
  have haborted := hwaiting.trans (abort_heeds _ (setting.host.rest milliseconds live.host).1)
  unfold pause
  exact haborted.trans (.of_same rfl rfl)

/-- The attempts of a run that is not cancelled heed the signal. -/
theorem tries_heed {header : StepHeader} {plan : RetryPlan} {task : Task} {left made : Nat}
    {result : Except Failure (Attempted (Option Value))} (hgoes : live.isCancelled = false)
    (h : Policy.Tries (surroundings setting) header plan (attempt setting header task) left made
      live result after) : live.Heeds after := by
  induction h with
  | done hattempt => exact attempt_heeds_of_going hgoes hattempt
  | unnamed hattempt _ => exact attempt_heeds_of_going hgoes hattempt
  | spent hattempt _ => exact (attempt_heeds_of_going hgoes hattempt).trans (giveUp_heeds _)
  | halted hattempt _ _ => exact (attempt_heeds_of_going hgoes hattempt).trans (giveUp_heeds _)
  | @again left made w middle after thrown fault result hattempt _ hmiddle hrest ih =>
    have htold := log_heeds middle [] .warn "Step attempt failed, retrying"
      (Policy.retriedDetails header.name plan made fault)
    refine (attempt_heeds_of_going hgoes hattempt).trans (htold.trans ?_)
    -- The signal is not looked at here: the next attempt is made even if the pause was cancelled.
    cases hpaused : isCancelled ((surroundings setting).pause plan.pause _) with
    | true => exact .of_pause hmiddle hpaused (tries_last hpaused hrest)
    | false => exact (pause_heeds setting _ _).trans (ih hpaused)

section CarryOut

variable {header : StepHeader} {standard : RetryPlan} {prepared : Except Datum Task}
  {result : Except Failure (Attempted (Option Value))}

/-- A step that is carried out before the run is cancelled heeds the signal. -/
theorem carryOut_heeds (hgoes : live.isCancelled = false)
    (h : Policy.carryOut (surroundings setting) header standard
      ⟨prepared, attempt setting header⟩ live = some (result, after)) : live.Heeds after := by
  rcases Policy.carryOut_cases h with
    ⟨_, _, -, -, -, rfl⟩ | ⟨_, _, -, -, -, rfl⟩ | ⟨_, -, htries⟩
  · exact .refl _
  · exact giveUp_heeds live
  · exact tries_heed hgoes htries

/-- A step that is carried out when the run is cancelled is attempted once. -/
theorem carryOut_lasts (hcancelled : live.isCancelled = true)
    (h : Policy.carryOut (surroundings setting) header standard
      ⟨prepared, attempt setting header⟩ live = some (result, after)) : live.Lasts after := by
  rcases Policy.carryOut_cases h with
    ⟨_, _, -, -, -, rfl⟩ | ⟨_, _, -, -, -, rfl⟩ | ⟨_, -, htries⟩
  · exact .refl hcancelled
  · exact (Lasts.refl hcancelled).heeds (giveUp_heeds live)
  · exact tries_last hcancelled htries

end CarryOut

/-- An action that a run comes to before it is cancelled heeds the signal. -/
theorem perform_heeds {header : StepHeader} {action : Action} {place : Place}
    {startedAt : Number} {ended : ActionEnd} (hgoes : live.isCancelled = false)
    (h : live.perform setting header action place startedAt = some (.ok ended, after)) :
    live.Heeds after := by
  obtain ⟨attempted, middle, hcarried, -, rfl⟩ := perform_cases h
  exact (carryOut_heeds hgoes hcarried).trans
    (conclude_heeds setting _ place startedAt attempted middle)

end Live

/-! ### Walks -/

/-- What a turn comes to with the signal heeded since a run. -/
def Progress.Heeds (live : Live σ) : Progress σ → Prop
  | .going walk => live.Heeds walk.live
  | .ended _ after => live.Heeds after
  | .broken _ after => live.Heeds after
  | .stuck => True

namespace Walk

variable {setting : Setting σ} {walk : Walk σ}

theorem progress_heeds {live : Live σ} (passage : Passage) (hwalk : live.Heeds walk.live) :
    (passage.progress setting walk).Heeds live := by
  cases passage with
  | through => exact hwalk
  | atEnd ending => exact hwalk.trans (Live.closeAll_heeds setting _ _ walk.stack walk.live)

/-- Every turn of a walk heeds the signal. -/
theorem Moves.heeds {progress : Progress σ} (h : Moves setting walk progress) :
    progress.Heeds walk.live := by
  cases h with
  | done => exact .refl _
  | left => exact Live.release_heeds setting _ _ _
  | cancelled _ => exact progress_heeds _ (.refl _)
  | skipped _ _ => exact (Live.note_heeds _ ⟨rfl, rfl⟩).trans (Live.record_heeds setting _ _)
  | stumbled _ _ =>
    exact progress_heeds _ ((Live.note_heeds _ ⟨rfl, rfl⟩).trans
      (Live.stumbled_heeds setting _ _ _))
  | acted hgoes _ hperform =>
    exact progress_heeds _ ((Live.note_heeds _ ⟨rfl, rfl⟩).trans
      (Live.perform_heeds hgoes hperform))
  | stuck => trivial
  | branched _ _ => exact Live.note_heeds _ ⟨rfl, rfl⟩
  | looped _ _ => exact Live.note_heeds _ ⟨rfl, rfl⟩
  | halted _ => exact progress_heeds _ (.refl _)
  | refused _ _ =>
    exact progress_heeds _ ((Live.askLoop_heeds _ _).trans (Live.stumbled_heeds setting _ _ _))
  | turned _ _ _ => exact Live.startTurn_heeds setting _ _ _
  | finished _ _ _ =>
    exact ((Live.startTurn_heeds setting _ _ _).trans (Live.log_heeds _ _ _ _ _)).trans
      (Live.leave_heeds setting _ _ _)

/-- All turns of a walk heed the signal. -/
theorem Reaches.heeds {first : Walk σ} (hreaches : Reaches setting first walk) :
    first.live.Heeds walk.live := by
  induction hreaches with
  | start => exact .refl _
  | @turn walk next _ hturn ih =>
    have hnext : Moves setting walk (.going next) := hturn ▸ moves_turn walk
    exact ih.trans hnext.heeds

end Walk

/-! ### The requests of a run -/

/-- A run whose requests have ceased with its cancellation, seen from its events. They tell when it
was cancelled, and a run that began cancelled makes no request. -/
structure Live.Ceased (live after : Live σ) : Prop where
  noted : live.isCancelled = false → after.isCancelled = true →
    ∃ reason, Event.aborted reason ∈ after.events
  none : live.isCancelled = true → ∀ event ∈ after.events, event.isCall = false
  ceases : ∀ earlier reason later,
    after.events = earlier ++ .aborted reason :: later → Ceases earlier later

theorem Live.Heeds.ceased {live after : Live σ} (hfresh : live.IsFresh) (h : live.Heeds after) :
    live.Ceased after := by
  rcases h with ⟨news, hbefore, hafter, hevents, hquiet⟩ |
    ⟨news, hbefore, hafter, hevents, hnews⟩ |
    ⟨earlier, reason, later, hbefore, hafter, hevents, hearlier, hlater, hceases⟩ <;>
    rw [hfresh.events, List.nil_append] at hevents
  · refine ⟨by simp [hbefore], fun _ event h ↦ (hquiet event (hevents ▸ h)).1, ?_⟩
    intro earlier reason later heq
    have hmem : Event.aborted reason ∈ news := by simp [← hevents, heq]
    exact absurd (hquiet _ hmem).2 (by simp [Event.isAbortion])
  · refine ⟨by simp [hafter], by simp [hbefore], ?_⟩
    intro earlier reason later heq
    have hmem : Event.aborted reason ∈ news := by simp [← hevents, heq]
    exact absurd (hnews _ hmem) (by simp [Event.isAbortion])
  · refine ⟨fun _ _ ↦ ⟨reason, by simp [hevents]⟩, by simp [hbefore], ?_⟩
    -- A run is cancelled once, so there is one way only to break its events there.
    intro first why rest heq
    have habortion : (Event.aborted why).isAbortion ≠ false := by simp [Event.isAbortion]
    have hfirst : Event.aborted why ∉ earlier := fun h ↦ habortion (hearlier _ h)
    have hrest : Event.aborted why ∉ later := fun h ↦ habortion (hlater _ h)
    obtain ⟨rfl, -, rfl⟩ :=
      (List.append_cons_inj_of_notMem hfirst hrest).mp (hevents.symm.trans heq)
    exact hceases

namespace Workflow

variable {host : Host σ} {options : RunParameters} {document : Datum} {live : Live σ}

theorem opening_heeds (validated : Validated) (host : Host σ) (options : RunParameters)
    (live : Live σ) : live.Heeds (opening validated host options live) := by
  have hwarned : ∀ (setting : Setting σ) (warnings : List Text) (live : Live σ), live.Heeds
      (warnings.foldl (fun l warning ↦
        l.log setting.bindings .warn "Workflow warning" [("warning", .text warning)]) live) := by
    intro setting warnings
    induction warnings with
    | nil => exact .refl
    | cons warning rest ih => exact fun live ↦ (Live.log_heeds live _ _ _ _).trans (ih _)
  have hannounced : live.Heeds
      (announce validated (validated.workflow.setting host options) live) :=
    (hwarned _ validated.warnings live).trans (Live.log_heeds _ _ _ _ _)
  exact hannounced.trans (.of_same rfl rfl)

theorem conclude_heeds (ending : Ending) (startedAt : Number) (setting : Setting σ)
    (live : Live σ) : live.Heeds (conclude ending startedAt setting live) := by
  unfold conclude
  dsimp only
  split
  · exact (Live.log_heeds _ _ _ _ _).trans (Live.log_heeds _ _ _ _ _)
  · exact Live.log_heeds _ _ _ _ _

/-- Requests cease with the cancellation of a run, however the host behaves. A step that is carried
out when the run is cancelled makes one request at most; one that is carried out before heeds the
signal. Whether or not a run comes to an end, no request follows its cancellation, but for the
attempt behind a pause in which it was cancelled. -/
theorem run_ceases (hfresh : live.IsFresh) :
    (∀ (setting : Setting σ) header standard prepared attempted (before after : Live σ),
      Policy.carryOut (Live.surroundings setting) header standard
          ⟨prepared, Live.attempt setting header⟩ before = some (attempted, after) →
        (before.isCancelled = true → before.Lasts after) ∧
        (before.isCancelled = false → before.Heeds after)) ∧
    (∀ validated, validate document = .ok validated → ∀ walk,
      Walk.Reaches (validated.workflow.setting host options)
        (firstWalk validated host options live) walk → live.Ceased walk.live) ∧
    ∀ turns outcome after, run host options document turns live = some (outcome, after) →
      live.Ceased after := by
  refine ⟨fun setting header standard prepared attempted before after hcarried ↦
    ⟨fun hcancelled ↦ Live.carryOut_lasts hcancelled hcarried,
      fun hgoes ↦ Live.carryOut_heeds hgoes hcarried⟩, ?_, ?_⟩
  · intro validated _ walk hreaches
    exact ((opening_heeds validated host options live).trans hreaches.heeds).ceased hfresh
  · intro turns outcome after hrun
    cases hvalid : validate document with
    | error fault =>
      rw [run, hvalid] at hrun
      obtain ⟨-, rfl⟩ := Prod.mk.inj (Option.some.inj hrun)
      exact (Live.Heeds.refl live).ceased hfresh
    | ok validated =>
      rw [run_of_validate hvalid] at hrun
      split at hrun
      · cases hrun
      · next hwalk =>
        obtain ⟨_, _, _, _, herror⟩ := Walk.reaches_of_advance hwalk
        cases herror
      · next ending middle hwalk =>
        obtain ⟨last, _, hreaches, hmoves, -⟩ := Walk.reaches_of_advance hwalk
        obtain ⟨-, rfl⟩ := Prod.mk.inj (Option.some.inj hrun)
        have hmiddle : live.Heeds middle :=
          ((opening_heeds validated host options live).trans hreaches.heeds).trans hmoves.heeds
        exact (hmiddle.trans (conclude_heeds _ _ _ middle)).ceased hfresh

/-- A document with one click that is tried again. -/
def retriedClick : Datum :=
  .object [("name", .text "clicks"), ("version", .text "1"), ("steps", .sequence [
    .object [("name", .text "insist"), ("action", .text "click"), ("selector", .text "#a"),
      ("on_error", .text "retry")] []])] []

/-- A host that refuses every request and cancels the run while it pauses. -/
def cancelling : Host Unit where
  reply := fun _ _ _ ↦ (⟨none, [], some 0, .error (.text "refused")⟩, ())
  rest := fun _ _ ↦ (some (.text "stop"), ())
  notice := fun _ _ ↦ (none, ())

/-- A click whose run is cancelled in its pause is tried once more. -/
theorem exists_run_retriedClick :
    ∃ result after earlier reason call later, run cancelling (.standard "clicks") retriedClick 5
        (idle 0 .quiet ()) = some (.ok result, after) ∧
      after.events = earlier ++ .aborted reason :: .called call :: later := by
  have hreturned : (returned? (run cancelling (.standard "clicks") retriedClick 5
      (idle 0 .quiet ()))).map (fun found ↦ (found.2.events[5]?.map Event.isAbortion,
        found.2.events[6]?.map Event.isCall)) = some (some true, some true) := by decide +kernel
  obtain ⟨⟨result, after⟩, hfound, hshape⟩ := Option.map_eq_some_iff.mp hreturned
  obtain ⟨hfifth, hsixth⟩ := Prod.mk.inj hshape
  obtain ⟨fifth, hfifth, habortion⟩ := Option.map_eq_some_iff.mp hfifth
  obtain ⟨sixth, hsixth, hcall⟩ := Option.map_eq_some_iff.mp hsixth
  obtain ⟨reason, rfl⟩ := Event.eq_aborted_of_isAbortion habortion
  obtain ⟨call, rfl⟩ := Event.eq_called_of_isCall hcall
  obtain ⟨earlier, later, hevents⟩ := Event.exists_eq_append_of_getElem? hfifth hsixth
  exact ⟨result, after, earlier, reason, call, later, eq_some_of_returned? hfound, hevents⟩

/-- Not every request of a run comes before its cancellation. -/
theorem not_forall_run_silent :
    ¬ ∀ (host : Host Unit) (options : RunParameters) (document : Datum) (turns : Nat)
        (live after : Live Unit) (result : RunResult), live.IsFresh →
      run host options document turns live = some (.ok result, after) →
      ∀ earlier reason later, after.events = earlier ++ .aborted reason :: later →
        ∀ event ∈ later, event.isCall = false := by
  intro hsilent
  obtain ⟨result, after, earlier, reason, call, later, hrun, hevents⟩ := exists_run_retriedClick
  have hcall := hsilent cancelling (.standard "clicks") retriedClick 5 (idle 0 .quiet ()) after
    result ⟨rfl, rfl⟩ hrun earlier reason (.called call :: later) hevents (.called call)
    List.mem_cons_self
  simp [Event.isCall] at hcall

/-- The attempt behind the pause is the last request of the run. -/
theorem run_ceases_retriedClick :
    ∃ result after earlier reason later, run cancelling (.standard "clicks") retriedClick 5
        (idle 0 .quiet ()) = some (.ok result, after) ∧
      after.events = earlier ++ .aborted reason :: later ∧ Ceases earlier later := by
  obtain ⟨result, after, earlier, reason, call, later, hrun, hevents⟩ := exists_run_retriedClick
  have hceased := (run_ceases ⟨rfl, rfl⟩).2.2 5 (.ok result) after hrun
  exact ⟨result, after, earlier, reason, .called call :: later, hrun, hevents,
    hceased.ceases _ _ _ hevents⟩

end Workflow

end BrowserFlow
