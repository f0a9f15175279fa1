import BrowserFlow.Proofs.Run.Deeds
import BrowserFlow.Proofs.Value.Ordered

/-!
Three views of the outcomes of a run: those that the host is told, those that are
recorded among the events, and those that the result shows. Each deed of a run
adds the same outcomes to all three (`Live.Deed.tells`), so they never drift
apart (`Live.IsFresh.faithful`). An action makes the same request at each of its
attempts, and its outcome counts them (`Live.perform_calls`); when it saves the
record so far, the request is that of the outcomes before it
(`Walk.turn_save`). Main statement: this holds at every point of every run,
whether it comes to an end or not (`Workflow.run_reports`).
-/

set_option autoImplicit false
set_option relaxedAutoImplicit false

namespace BrowserFlow

variable {σ : Type} {setting : Setting σ}

/-- A host that has been told outcomes, one after the other, and that has answered requests and
waited in between. -/
inductive Host.Told (host : Host σ) (first : σ) : List Outcome → σ → Prop
  /-- Nothing has been told. -/
  | start : Told host first [] first
  /-- A request is answered. -/
  | replied {told : List Outcome} {state : σ} (now : Number) (call : Call)
      (h : Told host first told state) : Told host first told (host.reply now call state).2
  /-- The run waits. -/
  | rested {told : List Outcome} {state : σ} (milliseconds : Number)
      (h : Told host first told state) : Told host first told (host.rest milliseconds state).2
  /-- An outcome is told. -/
  | noticed {told : List Outcome} {state : σ} (outcome : Outcome)
      (h : Told host first told state) :
      Told host first (told ++ [outcome]) (host.notice outcome state).2

theorem Host.Told.trans {host : Host σ} {first middle last : σ} {told others : List Outcome}
    (hfirst : Told host first told middle) (hothers : Told host middle others last) :
    Told host first (told ++ others) last := by
  induction hothers with
  | start => rwa [List.append_nil]
  | replied now call _ ih => exact .replied now call ih
  | rested milliseconds _ ih => exact .rested milliseconds ih
  | noticed outcome _ ih =>
    rw [← List.append_assoc]
    exact .noticed outcome ih

/-- A host that writes down what it is told, and nothing else, has written down just that. -/
theorem Host.Told.heard {host : Host σ} (heard : σ → List Outcome)
    (hreply : ∀ now call state, heard (host.reply now call state).2 = heard state)
    (hrest : ∀ milliseconds state, heard (host.rest milliseconds state).2 = heard state)
    (hnotice : ∀ outcome state, heard (host.notice outcome state).2 = heard state ++ [outcome])
    {first last : σ} {told : List Outcome} (h : Told host first told last) :
    heard last = heard first ++ told := by
  induction h with
  | start => rw [List.append_nil]
  | replied now call _ ih => rw [hreply, ih]
  | rested milliseconds _ ih => rw [hrest, ih]
  | noticed outcome _ ih => rw [hnotice, ih, List.append_assoc]

namespace Event

/-- The outcome that an event records. -/
def outcome? : Event → Option Outcome
  | .recorded _ outcome => some outcome
  | _ => none

/-- The request that an event makes. -/
def call? : Event → Option Call
  | .called call => some call
  | _ => none

end Event

namespace Outcome

/-- The keys of an outcome. -/
def fieldKeys : List Text :=
  ["step", "action", "path", "status", "attempts", "durationMs", "error", "resultKey"]

theorem keys_entries (outcome : Outcome) :
    (Entries.keys outcome.entries).Sublist fieldKeys := Entries.keys_present_sublist _

theorem areOrderedEntries_entries (outcome : Outcome) :
    Value.areOrderedEntries outcome.entries = true := by
  have herror : ∀ info : FaultReport, info.toValue.isOrdered = true := fun info ↦
    Value.isOrdered_mapping.mpr ⟨(by decide : Entries.KeysInOrder ["kind", "message"]), rfl⟩
  unfold entries Entries.present
  rcases outcome.error with _ | info <;> rcases outcome.resultKey with _ | key <;>
    simp [Value.areOrderedEntries, Value.isOrdered, herror]

/-- What reports show of an outcome has its keys in order, at every depth. -/
theorem isOrdered_toValue (outcome : Outcome) : outcome.toValue.isOrdered = true := by
  have hfields : Entries.KeysInOrder fieldKeys := by decide
  exact Value.isOrdered_mapping.mpr
    ⟨hfields.sublist outcome.keys_entries, outcome.areOrderedEntries_entries⟩

end Outcome

namespace Live

variable {live middle after : Live σ} {told others : List Outcome}

/-! ### Outcomes -/

/-- The outcomes among the events of a run. -/
def recordings (live : Live σ) : List Outcome := live.events.filterMap Event.outcome?

/-- The requests that a run has made. -/
def calls (live : Live σ) : List Call := live.events.filterMap Event.call?

/-- A run that has told some outcomes, which are now the last of its outcomes in every view. -/
structure Tells (setting : Setting σ) (told : List Outcome) (live after : Live σ) : Prop where
  host : setting.host.Told live.host told after.host
  outcomes : after.outcomes = live.outcomes ++ told
  recordings : after.recordings = live.recordings ++ told

theorem Tells.refl (live : Live σ) : Tells setting [] live live :=
  ⟨.start, (List.append_nil _).symm, (List.append_nil _).symm⟩

theorem Tells.trans (hfirst : Tells setting told live middle)
    (hothers : Tells setting others middle after) :
    Tells setting (told ++ others) live after := by
  refine ⟨hfirst.host.trans hothers.host, ?_, ?_⟩
  · rw [hothers.outcomes, hfirst.outcomes, List.append_assoc]
  · rw [hothers.recordings, hfirst.recordings, List.append_assoc]

/-- Events that record nothing tell nothing, whatever the host does meanwhile. -/
theorem Tells.of_events {news : List Event} (hevents : after.events = live.events ++ news)
    (hquiet : news.filterMap Event.outcome? = []) (houtcomes : after.outcomes = live.outcomes)
    (hhost : setting.host.Told live.host [] after.host) : Tells setting [] live after := by
  refine ⟨hhost, by rw [houtcomes, List.append_nil], ?_⟩
  change after.events.filterMap Event.outcome? = live.events.filterMap Event.outcome? ++ []
  rw [hevents, List.filterMap_append, hquiet]

/-- A deed tells what it records. -/
theorem Deed.tells {steps : List Step} {asks : Call → Prop}
    (h : Deed setting steps asks live after) : ∃ told, Tells setting told live after := by
  cases h with
  | begun => exact ⟨[], .start, (List.append_nil _).symm, (List.append_nil _).symm⟩
  | visited | asked | said | retried | tolerated | bound =>
    exact ⟨[], .of_events rfl rfl rfl .start⟩
  | requested _ hask =>
    obtain ⟨now, rfl⟩ := ask_eq hask
    refine ⟨[], .of_events rfl ?_ rfl (.replied _ _ .start)⟩
    rw [List.filterMap_cons_none rfl, List.filterMap_append, Remark.filterMap_events fun _ ↦ rfl,
      Signal.filterMap_abortion fun _ ↦ rfl, List.append_nil]
  | paused milliseconds live =>
    rw [pause_eq]
    refine ⟨[], .of_events rfl ?_ rfl (.rested _ .start)⟩
    rw [List.filterMap_cons_none rfl, Signal.filterMap_abortion fun _ ↦ rfl]
  | recorded outcome live =>
    have hrecorded : (Event.recorded live.time outcome).outcome? = some outcome := rfl
    rw [record_eq]
    refine ⟨[outcome], .noticed outcome .start, rfl, ?_⟩
    rw [recordings, recordings, List.filterMap_append, List.filterMap_cons_some hrecorded,
      List.filterMap_cons_none rfl, Signal.filterMap_abortion fun _ ↦ rfl]

theorem Does.tells {steps : List Step} {asks : Call → Prop}
    (h : Does setting steps asks live after) : ∃ told, Tells setting told live after := by
  induction h with
  | refl => exact ⟨[], .refl live⟩
  | tail _ hdeed ih =>
    obtain ⟨told, htold⟩ := ih
    obtain ⟨others, hothers⟩ := hdeed.tells
    exact ⟨told ++ others, htold.trans hothers⟩

/-! ### Requests -/

theorem log_calls (live : Live σ) (bindings : Entries Datum) (level : Level) (message : Text)
    (details : Entries Datum) : (live.log bindings level message details).calls = live.calls := by
  simp [calls, log, note, Event.call?]

theorem pause_calls (setting : Setting σ) (milliseconds : Number) (live : Live σ) :
    (live.pause setting milliseconds).calls = live.calls := by
  rw [calls, pause_eq, List.filterMap_append, List.filterMap_cons_none rfl,
    Signal.filterMap_abortion fun _ ↦ rfl, List.append_nil, calls]

theorem enter_calls (place : Place) (live : Live σ) : (live.enter place).calls = live.calls := by
  simp [calls, enter, note, Event.call?]

theorem record_calls (setting : Setting σ) (outcome : Outcome) (live : Live σ) :
    (live.record setting outcome).calls = live.calls := by
  rw [calls, record_eq, List.filterMap_append, List.filterMap_cons_none rfl,
    List.filterMap_cons_none rfl, Signal.filterMap_abortion fun _ ↦ rfl, List.append_nil, calls]

/-- An attempt at a request makes it once. -/
theorem attempt_calls {header : StepHeader} {call : Call} {answer : Except Datum (Option Value)}
    (h : live.attempt setting header (.request call) = some (answer, after)) :
    after.calls = live.calls ++ [call] := by
  rcases attempt_cases h with ⟨_, _, hrequest, hask⟩ | ⟨hother, -⟩
  · obtain rfl := Task.request.inj hrequest
    obtain ⟨now, rfl⟩ := ask_eq hask
    have hcall : (Event.called call).call? = some call := rfl
    rw [calls, List.filterMap_append, List.filterMap_cons_some hcall, List.filterMap_append,
      Remark.filterMap_events fun _ ↦ rfl, Signal.filterMap_abortion fun _ ↦ rfl, List.append_nil,
      calls]
  · exact absurd rfl (hother call)

/-- Deeds without requests make none. -/
theorem Does.calls_eq {steps : List Step} (h : Does setting steps (fun _ ↦ False) live after) :
    after.calls = live.calls := by
  induction h with
  | refl => rfl
  | tail _ hdeed ih =>
    rw [← ih]
    cases hdeed with
    | begun => rfl
    | visited | asked | said | retried | tolerated | bound =>
      simp [calls, note, log, bind, Event.call?]
    | requested hasks _ => exact hasks.elim
    | paused milliseconds => exact pause_calls setting milliseconds _
    | recorded outcome => exact record_calls setting outcome _

theorem stumbled_calls (owner : Opened) (fault : Fault) (live : Live σ) :
    (live.stumbled setting owner fault).2.calls = live.calls := by
  have hdoes : Does setting [] (fun _ ↦ False) live (live.stumbled setting owner fault).2 :=
    stumbled_does owner fault live
  exact hdoes.calls_eq

/-- An action makes one and the same request at each of its attempts, and its outcome counts them;
without a task there is none. -/
theorem perform_calls {header : StepHeader} {action : Action} {place : Place} {startedAt : Number}
    {ended : ActionEnd} (call : Call)
    (htask : ∀ task, (undertaking setting header action live).prepared = .ok task →
      task = .request call)
    (h : live.perform setting header action place startedAt = some (.ok ended, after)) :
    ∃ own : Outcome, own.IsOf (.act header action) place ∧
      after.outcomes = live.outcomes ++ [own] ∧
      after.calls = live.calls ++ List.replicate own.attempts call ∧
      (own.attempts ≠ 0 →
        ∃ task, (undertaking setting header action live).prepared = .ok task) := by
  obtain ⟨own, hrecords, hof, -, attempted, middle, hcarried, -, hattempts, -⟩ := perform_reports h
  have hquiet : after.calls = middle.calls := by
    obtain ⟨found, before, hfound, -, rfl⟩ := perform_cases h
    obtain ⟨hfound, rfl⟩ := Prod.mk.inj (Option.some.inj (hcarried.symm.trans hfound))
    have hdoes : Does setting [] (fun _ ↦ False) middle (middle.conclude setting
        (.act header action) place startedAt found).2 := conclude_does _ _ _ _ middle
    exact hdoes.calls_eq
  obtain ⟨hcalls, hprepared⟩ := Policy.carryOut_counts
    (fun count w ↦ w.calls = live.calls ++ List.replicate count call ∧ (count ≠ 0 →
      ∃ task, (undertaking setting header action live).prepared = .ok task))
    (fun level message details count w hw ↦
      ⟨(log_calls w [] level message details).trans hw.1, hw.2⟩)
    (fun milliseconds count w hw ↦ ⟨(pause_calls setting milliseconds w).trans hw.1, hw.2⟩)
    (fun task count w answer after hprepared hw hattempt ↦ by
      refine ⟨?_, fun _ ↦ ⟨task, hprepared⟩⟩
      rw [attempt_calls (htask task hprepared ▸ hattempt), hw.1, List.append_assoc,
        List.replicate_succ'])
    hcarried ⟨(List.append_nil _).symm, fun h ↦ absurd rfl h⟩
  rw [← hattempts] at hcalls hprepared
  exact ⟨own, hof, hrecords.outcomes, hquiet.trans hcalls, hprepared⟩

/-- The record of the outcomes so far, as a value. -/
def history (live : Live σ) : Value := .sequence (live.outcomes.map Outcome.toValue)

/-- A record without numbers that are not finite is its own normal form. -/
theorem normal_history (live : Live σ) (h : live.history.isNormalised = true) :
    (Datum.ofValue live.history).normal = .ok live.history :=
  Datum.normal_ofValue h (Value.isOrdered_sequence.mpr (by simp [Outcome.isOrdered_toValue]))

/-- A step that saves the record so far asks for just that at each of its attempts. -/
theorem perform_save {header : StepHeader} {path : Text} {place : Place} {startedAt : Number}
    {ended : ActionEnd}
    (h : live.perform setting header (.save path none) place startedAt = some (.ok ended, after)) :
    ∃ (own : Outcome) (target : Text), own.IsOf (.act header (.save path none)) place ∧
      after.outcomes = live.outcomes ++ [own] ∧
      after.calls = live.calls ++ List.replicate own.attempts (.save target live.history) ∧
      (own.attempts ≠ 0 → Template.interpolate live.scope path = .ok target) := by
  have hprepared : ∀ task, (undertaking setting header (.save path none) live).prepared = .ok task →
      ∃ target, Template.interpolate live.scope path = .ok target ∧
        task = .request (.save target live.history) := by
    intro task htask
    obtain ⟨target, hpath, htarget⟩ := Except.parts_of_bind (task_of_prepared htask)
    exact ⟨target, hpath, (Except.ok.inj htarget).symm⟩
  cases hpath : Template.interpolate live.scope path with
  | ok target =>
    obtain ⟨own, hof, houtcomes, hcalls, -⟩ := perform_calls (.save target live.history)
      (fun task htask ↦ by
        obtain ⟨found, hfound, rfl⟩ := hprepared task htask
        rw [Except.ok.inj (hpath.symm.trans hfound)]) h
    exact ⟨own, target, hof, houtcomes, hcalls, fun _ ↦ rfl⟩
  | error fault =>
    have hnone : ∀ task,
        (undertaking setting header (.save path none) live).prepared ≠ .ok task := by
      intro task htask
      obtain ⟨found, hfound, -⟩ := hprepared task htask
      rw [hpath] at hfound
      cases hfound
    obtain ⟨own, hof, houtcomes, hcalls, hattempts⟩ := perform_calls (.save path live.history)
      (fun task htask ↦ absurd htask (hnone task)) h
    refine ⟨own, path, hof, houtcomes, hcalls, fun hcount ↦ ?_⟩
    obtain ⟨task, htask⟩ := hattempts hcount
    exact absurd htask (hnone task)

end Live

namespace Walk

variable {walk : Walk σ} {behind : Live σ}

/-- What becomes of a run in which a walk comes to a step that saves the record so far: at each of
its attempts it asks for the record of the outcomes before it, and for nothing else. -/
structure Saves (walk : Walk σ) (header : StepHeader) (path : Text) (place : Place)
    (behind : Live σ) (count : Nat) (target : Text) : Prop where
  calls : behind.calls =
    walk.live.calls ++ List.replicate count (.save target walk.live.history)
  target : count ≠ 0 → Template.interpolate walk.live.scope path = .ok target
  outcome : walk.live.isCancelled = false → ∃ own closed,
    behind.outcomes = walk.live.outcomes ++ own :: closed ∧
    own.IsOf (.act header (.save path none)) place ∧ own.attempts = count

/-- What a turn closes it closes without requests. -/
theorem progress_quiet {live : Live σ} {below : List Frame} {passage : Passage}
    (h : (passage.progress setting ⟨live, below⟩).live? = some behind) :
    behind.calls = live.calls ∧ ∃ closed, behind.outcomes = live.outcomes ++ closed := by
  have hdoes : Live.Does setting [] (fun _ ↦ False) live behind := progress_does .refl h
  obtain ⟨closed, htells⟩ := hdoes.tells
  exact ⟨hdoes.calls_eq, closed, htells.outcomes⟩

theorem turn_save {header : StepHeader} {path : Text} {place : Place}
    (hnext : walk.next? = some (place, .act header (.save path none)))
    (hbehind : (walk.turn setting).live? = some behind) :
    ∃ count target, walk.Saves header path place behind count target := by
  have hmoves : Moves setting walk (walk.turn setting) := moves_turn walk
  generalize walk.turn setting = progress at hmoves hbehind
  cases hmoves with
  | done | left | halted | refused | turned | finished => cases hnext
  | stuck => cases hbehind
  | cancelled hcancelled =>
    obtain ⟨hcalls, -⟩ := progress_quiet hbehind
    exact ⟨0, path, by simpa using hcalls, fun h ↦ absurd rfl h,
      fun hgoes ↦ by simp [hcancelled] at hgoes⟩
  | @skipped live step rest site index owner below hgoes hfound =>
    obtain ⟨rfl, rfl⟩ := Prod.mk.inj (Option.some.inj hnext)
    obtain rfl := Option.some.inj hbehind
    refine ⟨0, path, ?_, fun h ↦ absurd rfl h, fun _ ↦
      ⟨_, [], (Live.passedOver_reports setting _ _ _).1.outcomes, ⟨rfl, rfl, rfl⟩, rfl⟩⟩
    rw [Live.record_calls, Live.enter_calls, List.replicate_zero, List.append_nil]
  | @stumbled live step rest site index owner below fault hgoes hfound =>
    obtain ⟨rfl, rfl⟩ := Prod.mk.inj (Option.some.inj hnext)
    obtain ⟨own, hrecords, hof, -, -, hattempts, -⟩ := Live.stumbled_reports setting
      (live.opened (.act header (.save path none)) ⟨site, index⟩) fault (live.enter ⟨site, index⟩)
    obtain ⟨hquiet, closed, hclosed⟩ := progress_quiet hbehind
    refine ⟨0, path, ?_, fun h ↦ absurd rfl h, fun _ ↦ ⟨own, closed, ?_, hof, hattempts⟩⟩
    · rw [hquiet, Live.stumbled_calls, Live.enter_calls, List.replicate_zero, List.append_nil]
    · rw [hclosed, hrecords.outcomes, List.append_assoc]
      rfl
  | @acted live after step rest site index owner below header' action ended hgoes hfound
      hperform =>
    obtain ⟨rfl, rfl⟩ := Prod.mk.inj (Option.some.inj hnext)
    obtain ⟨rfl, rfl⟩ := Step.act.inj (Step.eq_act_of_approach hfound)
    obtain ⟨own, target, hof, houtcomes, hcalls, htarget⟩ := Live.perform_save hperform
    obtain ⟨hquiet, closed, hclosed⟩ := progress_quiet hbehind
    refine ⟨own.attempts, target, ?_, htarget, fun _ ↦ ⟨own, closed, ?_, hof, rfl⟩⟩
    · rw [hquiet, hcalls, live.enter_calls]
      rfl
    · rw [hclosed, houtcomes, List.append_assoc]
      rfl
  | branched hgoes hfound =>
    obtain ⟨_, _, _, _, rfl, -⟩ := Step.eq_branch_of_approach hfound
    cases hnext
  | looped hgoes hfound =>
    obtain ⟨_, _, rfl, -⟩ := Step.eq_loop_of_approach hfound
    cases hnext

end Walk

/-! ### Runs -/

namespace Live

/-- A run of which the host has been told the outcomes so far, which are those among its events. -/
structure Faithful (host : Host σ) (first : σ) (live : Live σ) : Prop where
  told : host.Told first live.outcomes live.host
  recorded : live.recordings = live.outcomes

theorem IsFresh.faithful {live after : Live σ} {steps : List Step} {asks : Call → Prop}
    (hfresh : live.IsFresh) (h : Does setting steps asks live after) :
    Faithful setting.host live.host after := by
  obtain ⟨told, htells⟩ := h.tells
  have houtcomes : after.outcomes = told := by
    rw [htells.outcomes, hfresh.outcomes, List.nil_append]
  have hrecordings : after.recordings = told := by
    rw [htells.recordings, recordings, hfresh.events, List.filterMap_nil, List.nil_append]
  exact ⟨houtcomes ▸ htells.host, hrecordings.trans houtcomes.symm⟩

theorem Does.keeps_outcomes {live after : Live σ} {steps : List Step} {asks : Call → Prop}
    (h : Does setting steps asks live after) : live.outcomes <+: after.outcomes := by
  obtain ⟨told, htells⟩ := h.tells
  exact ⟨told, htells.outcomes.symm⟩

end Live

namespace Workflow

variable {host : Host σ} {options : RunParameters} {document : Datum} {validated : Validated}
  {live : Live σ}

/-- At every point of every run the host has been told the outcomes that are recorded, in their
order; they stay the first outcomes of all that follows, to the result of the run. Whenever the
next step saves the record so far, it asks at each of its attempts for the record of just the
outcomes before it. -/
theorem run_reports (hfresh : live.IsFresh) (hvalid : validate document = .ok validated) :
    (∀ walk, Walk.Reaches (validated.workflow.setting host options)
        (firstWalk validated host options live) walk →
      Live.Faithful host live.host walk.live ∧
      (∀ later, Walk.Reaches (validated.workflow.setting host options) walk later →
        walk.live.outcomes <+: later.live.outcomes) ∧
      ∀ header path place behind,
        walk.next? = some (place, .act header (.save path none)) →
        (walk.turn (validated.workflow.setting host options)).live? = some behind →
        ∃ count target, walk.Saves header path place behind count target ∧
          (walk.live.history.isNormalised = true →
            (Datum.ofValue walk.live.history).normal = .ok walk.live.history)) ∧
    ∀ turns result after, run host options document turns live = some (.ok result, after) →
      Live.Faithful host live.host after ∧ result.outcomes = after.outcomes ∧
      ∀ walk, Walk.Reaches (validated.workflow.setting host options)
          (firstWalk validated host options live) walk →
        walk.live.outcomes <+: result.outcomes := by
  have hopening := opening_does validated host options validated.workflow.steps (fun _ ↦ True) live
  have hwithin := firstWalk_within validated host options live
  constructor
  · intro walk hreaches
    refine ⟨hfresh.faithful (hopening.trans (hreaches.does hwithin)), fun later hlater ↦
      (hlater.does (hreaches.within hwithin)).keeps_outcomes, ?_⟩
    intro header path place behind hnext hbehind
    obtain ⟨count, target, hsaves⟩ := Walk.turn_save hnext hbehind
    exact ⟨count, target, hsaves, walk.live.normal_history⟩
  · intro turns result after hrun
    obtain ⟨hall, ending, rfl⟩ := run_does hvalid hrun .start
    refine ⟨hfresh.faithful (hopening.trans hall), rfl, fun walk hreaches ↦ ?_⟩
    exact (run_does hvalid hrun hreaches).1.keeps_outcomes

/-- A document that saves the record so far twice in each turn of a loop. That the first of the two
fails is tolerated, and the second is attempted anew. -/
def savingLoop : Datum :=
  .object [("name", .text "diary"), ("version", .text "1"), ("steps", .sequence [
    .object [("name", .text "again"), ("action", .text "loop"),
      ("value", .object [("type", .text "repeat"), ("times", .number 2),
        ("variable", .text "n")] []),
      ("steps", .sequence [
        .object [("name", .text "try"), ("action", .text "save"), ("value", .text "draft.json"),
          ("on_error", .text "continue")] [],
        .object [("name", .text "keep"), ("action", .text "save"),
          ("value", .text "page-\x7b\x7b n \x7d\x7d.json"),
          ("on_error", .text "retry")] []])] []])] []

/-- A host that grants every other request, and that writes down the outcomes it is told. -/
def wavering : Host (Bool × List Outcome) where
  reply := fun _ _ state ↦ (⟨none, [], some 0,
    if state.1 then .ok .absent else .error (.text "full")⟩, (!state.1, state.2))
  rest := fun _ state ↦ (none, state)
  notice := fun outcome state ↦ (none, (state.1, state.2 ++ [outcome]))

/-- How many outcomes there are before a step that saves the record so far, if a walk comes to one,
and how many requests there have been before the step and behind it. -/
def saving? (setting : Setting σ) (walk : Walk σ) : Option (Nat × Nat × Nat) :=
  match walk.next?, (walk.turn setting).live? with
  | some (_, .act _ (.save _ none)), some behind =>
    some (walk.live.outcomes.length, walk.live.calls.length, behind.calls.length)
  | _, _ => none

theorem eq_of_saving? {setting : Setting σ} {walk : Walk σ} {outcomes before after : Nat}
    (h : saving? setting walk = some (outcomes, before, after)) :
    ∃ header path place behind, walk.next? = some (place, .act header (.save path none)) ∧
      (walk.turn setting).live? = some behind ∧ walk.live.outcomes.length = outcomes ∧
      walk.live.calls.length = before ∧ behind.calls.length = after := by
  unfold saving? at h
  split at h
  · next place header path behind hnext hbehind =>
    obtain ⟨rfl, rest⟩ := Prod.mk.inj (Option.some.inj h)
    obtain ⟨rfl, rfl⟩ := Prod.mk.inj rest
    exact ⟨header, path, place, behind, hnext, hbehind, rfl, rfl, rfl⟩
  · cases h

/-- The host has written down the outcomes of the result. In the first turn, the second step has
saved the outcome of the first one at both of its attempts. -/
theorem run_reports_savingLoop :
    (∃ result after, run wavering (.standard "diary") savingLoop 20 (idle 0 .quiet (true, [])) =
        some (.ok result, after) ∧ result.outcomes.length = 5 ∧ after.host.2 = result.outcomes) ∧
    ∃ (walk : Walk (Bool × List Outcome)) (header : StepHeader) (path target : Text) (place : Place)
      (behind : Live (Bool × List Outcome)),
      walk.live.outcomes.length = 1 ∧ walk.Saves header path place behind 2 target := by
  have hreached : ((validate savingLoop).toOption.map fun validated ↦
      ((firstWalk validated wavering (.standard "diary") (idle 0 .quiet (true, []))).ahead
        (validated.workflow.setting wavering (.standard "diary")) 3).bind
          (saving? (validated.workflow.setting wavering (.standard "diary")))) =
      some (some (1, 1, 3)) := by decide +kernel
  have hreturned : (returned? (run wavering (.standard "diary") savingLoop 20
      (idle 0 .quiet (true, [])))).map (fun found ↦ found.1.outcomes.length) = some 5 := by
    decide +kernel
  obtain ⟨validated, hvalid, hsaving⟩ := Option.map_eq_some_iff.mp hreached
  have hfresh : (idle 0 .quiet (true, []) : Live (Bool × List Outcome)).IsFresh := ⟨rfl, rfl⟩
  obtain ⟨hwalks, hends⟩ := @run_reports _ wavering (.standard "diary") savingLoop validated _
    hfresh (validate_of_toOption hvalid)
  constructor
  · obtain ⟨⟨result, after⟩, hresult, hlength⟩ := Option.map_eq_some_iff.mp hreturned
    have hrun := eq_some_of_returned? hresult
    obtain ⟨hfaithful, houtcomes, -⟩ := hends 20 result after hrun
    refine ⟨result, after, hrun, hlength, ?_⟩
    rw [houtcomes, hfaithful.told.heard Prod.snd (fun _ _ _ ↦ rfl) (fun _ _ ↦ rfl)
      (fun _ _ ↦ rfl)]
    rfl
  · obtain ⟨walk, hahead, hcounts⟩ := Option.bind_eq_some_iff.mp hsaving
    obtain ⟨header, path, place, behind, hnext, hbehind, houtcomes, hbefore, hafter⟩ :=
      eq_of_saving? hcounts
    obtain ⟨-, -, hsaves⟩ := hwalks walk (Walk.reaches_of_ahead hahead)
    obtain ⟨count, target, hsaves, -⟩ := hsaves header path place behind hnext hbehind
    have hcount : count = 2 := by
      have hlength := congrArg List.length hsaves.calls
      rw [List.length_append, List.length_replicate] at hlength
      omega
    exact ⟨walk, header, path, target, place, behind, houtcomes, hcount ▸ hsaves⟩

end Workflow

end BrowserFlow
