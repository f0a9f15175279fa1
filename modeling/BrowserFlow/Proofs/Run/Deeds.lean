import BrowserFlow.Proofs.Run.Frame
import Mathlib.Logic.Relation

/-!
Runs as chains of deeds. A deed is one thing that a run does by itself: a step is
visited, a loop asked, a request made, a name bound, an outcome recorded, a wait
begun, or something said to the log. `Live.Deed` has a rule for each, which tells
what is said and on whose account: entries of the run itself leave alone what the
run says on all of its entries, and entries about attempts are of a step of the
workflow whose policy asks for them. Whatever a run comes to, from its first
entry of the log to its last, it comes to by deeds (`Walk.Reaches.does`,
`Workflow.run_does`), so what every deed keeps is kept by whole runs.
-/

set_option autoImplicit false
set_option relaxedAutoImplicit false

namespace BrowserFlow

variable {σ : Type} {setting : Setting σ} {steps : List Step} {asks : Call → Prop}

/-- The keys of what a run says on all of its entries. -/
def LogEntry.runKeys : List Text := ["runId", "workflow"]

namespace Live

/-- One thing that a run over some steps does, which makes no other requests than these. -/
inductive Deed (setting : Setting σ) (steps : List Step) (asks : Call → Prop) :
    Live σ → Live σ → Prop
  /-- The variables of the run are bound at its start. -/
  | begun (environment : Environment) (live : Live σ) :
      Deed setting steps asks live { live with environment := environment }
  /-- A step is visited. -/
  | visited (place : Place) (live : Live σ) :
      Deed setting steps asks live (live.note (.visited place))
  /-- A loop is asked for a turn. -/
  | asked (place : Place) (live : Live σ) : Deed setting steps asks live (live.note (.asked place))
  /-- The run says something about itself. -/
  | said (level : Level) (message : Text) (details : Entries Datum) (live : Live σ)
      (hdetails : ∀ detail ∈ details, detail.1 ∉ LogEntry.runKeys) :
      Deed setting steps asks live (live.log setting.bindings level message details)
  /-- An attempt at a step has failed, and another one follows. -/
  | retried {place : Place} {header : StepHeader} {action : Action}
      (hstep : Step.stepAt? steps place = some (.act header action))
      (hpolicy : header.policy = .retry) (made : Nat) (fault : Fault) (live : Live σ) :
      Deed setting steps asks live (live.log [] .warn "Step attempt failed, retrying"
        (Policy.retriedDetails header.name (header.plan setting.retry) made fault))
  /-- A step has failed, and the run goes on. -/
  | tolerated {place : Place} {header : StepHeader} {action : Action}
      (hstep : Step.stepAt? steps place = some (.act header action))
      (hpolicy : header.policy = .continue) (made : Nat) (fault : Fault) (live : Live σ) :
      Deed setting steps asks live (live.log [] .warn "Step failed, continuing"
        (Policy.continuedDetails header.name made fault))
  /-- A request is made. -/
  | requested {header : StepHeader} {call : Call} {answer : Except Datum Datum}
      {live after : Live σ} (hasks : asks call)
      (hask : live.ask setting header call = some (answer, after)) :
      Deed setting steps asks live after
  /-- A name is bound. -/
  | bound (name : Text) (slot : Option Value) (live : Live σ) :
      Deed setting steps asks live (live.bind name slot)
  /-- The run waits before another attempt. -/
  | paused (milliseconds : Number) (live : Live σ) :
      Deed setting steps asks live (live.pause setting milliseconds)
  /-- An outcome is recorded. -/
  | recorded (outcome : Outcome) (live : Live σ) :
      Deed setting steps asks live (live.record setting outcome)

/-- A run that comes from one state to another by deeds. -/
abbrev Does (setting : Setting σ) (steps : List Step) (asks : Call → Prop) :
    Live σ → Live σ → Prop :=
  Relation.ReflTransGen (Deed setting steps asks)

variable {live middle after : Live σ}

theorem Deed.does (h : Deed setting steps asks live after) : Does setting steps asks live after :=
  .single h

/-! ### Small steps -/

/-- What a run says about itself under other keys than those of all of its entries. -/
theorem said_does (keys : List Text) {level : Level} {message : Text} {details : Entries Datum}
    (hkeys : Entries.keys details = keys) (h : ∀ key ∈ keys, key ∉ LogEntry.runKeys) :
    Does setting steps asks live (live.log setting.bindings level message details) :=
  .single (.said level message details live fun _ hdetail ↦
    h _ (hkeys ▸ List.mem_map_of_mem hdetail))

theorem bindResult_does (step : Step) (slot : Option Value) (live : Live σ) :
    Does setting steps asks live (live.bindResult step slot).2 := by
  unfold bindResult
  split
  · exact .single (.bound _ _ live)
  · exact .refl

theorem takeTurn_does (step : Step) (turn : Turn) (live : Live σ) :
    Does setting steps asks live (live.takeTurn setting step turn) := by
  have hstopped : ∀ (limit : Number) (live : Live σ), Does setting steps asks live
      (live.log setting.bindings .warn "Loop stopped at max_iterations"
        [("step", .text step.name), ("limit", .number limit)]) :=
    fun _ _ ↦ said_does ["step", "limit"] rfl (by decide)
  unfold takeTurn
  rcases turn.binding with _ | ⟨name, value⟩ <;> rcases turn.limit with _ | limit
  · exact .refl
  · exact hstopped limit live
  · exact .single (.bound name (some value) live)
  · exact .head (.bound name (some value) live) (hstopped limit _)

theorem finishLoop_does (owner : Opened) (turn : Turn) (live : Live σ) :
    Does setting steps asks live (live.finishLoop setting owner turn) :=
  said_does ["step", "iterations"] rfl (by decide)

theorem closeAll_does (status : StepEnding) (fault : Option Fault) (stack : List Frame)
    (live : Live σ) : Does setting steps asks live (live.closeAll setting status fault stack) := by
  unfold closeAll
  generalize stack.filterMap Frame.owner? = owners
  induction owners generalizing live with
  | nil => exact .refl
  | cons owner rest ih => exact .head (.recorded _ live) (ih _)

theorem release_does (owner : Option Opened) (passage : Passage) (live : Live σ) :
    Does setting steps asks live (live.release setting owner passage) := by
  cases owner with
  | none => exact .refl
  | some opened => exact .single (.recorded _ live)

theorem stumbled_does (owner : Opened) (fault : Fault) (live : Live σ) :
    Does setting steps asks live (live.stumbled setting owner fault).2 := by
  unfold stumbled stumble
  by_cases hpolicy : owner.step.header.policy = .continue
  · simp only [if_pos hpolicy]
    have htold : Does setting steps asks live (live.log setting.bindings .warn
        "Step failed, continuing" [("step", .text owner.step.name),
          ("kind", .text fault.kind.name), ("error", .failure (.fault fault))]) :=
      said_does ["step", "kind", "error"] rfl (by decide)
    exact (htold.trans (bindResult_does owner.step (some .null) _)).tail (.recorded _ _)
  · simp only [if_neg hpolicy]
    exact .single (.recorded _ live)

/-! ### Actions -/

theorem attempt_does {header : StepHeader} {task : Task} {answer : Except Datum (Option Value)}
    (hasks : ∀ call, task = .request call → asks call)
    (h : live.attempt setting header task = some (answer, after)) :
    Does setting steps asks live after := by
  rcases attempt_cases h with ⟨call, _, rfl, hask⟩ | ⟨-, ⟨name, slot, rfl⟩ | rfl⟩
  · exact .single (.requested (hasks call rfl) hask)
  · exact .single (.bound name slot live)
  · exact .refl

theorem conclude_does (step : Step) (place : Place) (startedAt : Number)
    (attempted : Attempted (Option Value)) (live : Live σ) :
    Does setting steps asks live (live.conclude setting step place startedAt attempted).2 := by
  cases attempted with
  | failed count fault ends =>
    cases ends with
    | true => exact .single (.recorded _ live)
    | false => exact (bindResult_does step (some .null) live).tail (.recorded _ _)
  | done count value =>
    have hbound : Does setting steps asks live (live.bindResult step value).2 :=
      bindResult_does step value live
    have hrecorded := hbound.tail (.recorded ((live.bindResult step value).2.outcome step place
      startedAt (if count > 1 then .retried else .success) count none
        (live.bindResult step value).1) _)
    unfold conclude
    dsimp only
    split
    · exact hrecorded
    · exact hrecorded.trans (said_does ["step", "path", "reason"] rfl (by decide))

/-- An action is carried out by deeds; its requests are that of its task, and entries about its
attempts are of its own step. -/
theorem perform_does {header : StepHeader} {action : Action} {place : Place} {startedAt : Number}
    {result : Except Failure ActionEnd}
    (hstep : Step.stepAt? steps place = some (.act header action))
    (hasks : ∀ task call, (undertaking setting header action live).prepared = .ok task →
      task = .request call → asks call)
    (h : live.perform setting header action place startedAt = some (result, after)) :
    Does setting steps asks live after := by
  obtain ⟨attempted, middle, hcarried, -, rfl⟩ := perform_cases h
  have hattempts : Does setting steps asks live middle :=
    Policy.carryOut_follows (R := Does setting steps asks) (fun _ ↦ .refl) .trans
      (fun hpolicy made fault live ↦ .single (.tolerated hstep hpolicy made fault live))
      (fun hpolicy made fault live ↦ .single (.retried hstep hpolicy made fault live))
      (fun milliseconds live ↦ .single (.paused milliseconds live))
      (fun task live answer after hprepared hattempt ↦
        attempt_does (fun call ↦ hasks task call hprepared) hattempt) hcarried
  exact hattempts.trans (conclude_does _ _ _ _ middle)

end Live

/-! ### Walks -/

/-- The run in which something comes of a turn of a walk; of a request that never returns there is
none. -/
def Progress.live? : Progress σ → Option (Live σ)
  | .going walk => some walk.live
  | .ended _ live => some live
  | .broken _ live => some live
  | .stuck => none

namespace Walk

variable {walk first : Walk σ} {live : Live σ}

theorem progress_does {below : List Frame} {passage : Passage} {before behind : Live σ}
    (hbefore : Live.Does setting steps asks before live)
    (h : (passage.progress setting ⟨live, below⟩).live? = some behind) :
    Live.Does setting steps asks before behind := by
  cases passage with
  | through =>
    obtain rfl := Option.some.inj h
    exact hbefore
  | atEnd ending =>
    obtain rfl := Option.some.inj h
    exact hbefore.trans (Live.closeAll_does _ _ _ live)

/-- A turn of a walk is done by deeds. -/
theorem Moves.does {progress : Progress σ} {behind : Live σ} (h : Moves setting walk progress)
    (hwithin : walk.Within steps) (hbehind : progress.live? = some behind) :
    Live.Does setting steps (fun _ ↦ True) walk.live behind := by
  cases h with
  | done =>
    obtain rfl := Option.some.inj hbehind
    exact .refl
  | left =>
    obtain rfl := Option.some.inj hbehind
    exact Live.release_does _ _ _
  | cancelled | halted => exact progress_does .refl hbehind
  | skipped =>
    obtain rfl := Option.some.inj hbehind
    exact .tail (.single (.visited _ _)) (.recorded _ _)
  | stumbled =>
    exact progress_does ((Live.Deed.visited _ _).does.trans (Live.stumbled_does _ _ _)) hbehind
  | acted hgoes hfound hperform =>
    have hstep := Work.Within.head (hwithin _ List.mem_cons_self)
    rw [Step.eq_act_of_approach hfound] at hstep
    exact progress_does ((Live.Deed.visited _ _).does.trans (Live.perform_does hstep
      (fun _ _ _ _ ↦ trivial) hperform)) hbehind
  | stuck => cases hbehind
  | branched | looped =>
    obtain rfl := Option.some.inj hbehind
    exact .single (.visited _ _)
  | refused =>
    exact progress_does ((Live.Deed.asked _ _).does.trans (Live.stumbled_does _ _ _)) hbehind
  | turned =>
    obtain rfl := Option.some.inj hbehind
    exact (Live.Deed.asked _ _).does.trans (Live.takeTurn_does _ _ _)
  | finished =>
    obtain rfl := Option.some.inj hbehind
    exact (((Live.Deed.asked _ _).does.trans (Live.takeTurn_does _ _ _)).trans
      (Live.finishLoop_does _ _ _)).tail (.recorded _ _)

theorem Within.does {behind : Live σ} (hwithin : walk.Within steps)
    (hbehind : (walk.turn setting).live? = some behind) :
    Live.Does setting steps (fun _ ↦ True) walk.live behind :=
  (moves_turn walk).does hwithin hbehind

/-- A walk comes to every walk that it reaches by deeds. -/
theorem Reaches.does (hreaches : Reaches setting first walk) (hfirst : first.Within steps) :
    Live.Does setting steps (fun _ ↦ True) first.live walk.live := by
  induction hreaches with
  | start => exact .refl
  | turn hreached hturn ih =>
    exact ih.trans ((hreached.within hfirst).does (by rw [hturn]; rfl))

end Walk

/-! ### Runs -/

namespace Workflow

variable {host : Host σ} {options : RunParameters} {document : Datum} {validated : Validated}
  {live after : Live σ}

theorem announce_does (validated : Validated) (setting : Setting σ) (steps : List Step)
    (asks : Call → Prop) (live : Live σ) :
    Live.Does setting steps asks live (announce validated setting live) := by
  have hwarned : ∀ warnings : List Text, ∀ live : Live σ, Live.Does setting steps asks live
      (warnings.foldl (fun l warning ↦
        l.log setting.bindings .warn "Workflow warning" [("warning", .text warning)]) live) := by
    intro warnings
    induction warnings with
    | nil => exact fun _ ↦ .refl
    | cons warning rest ih =>
      exact fun live ↦ (Live.said_does ["warning"] rfl (by decide)).trans (ih _)
  exact (hwarned validated.warnings live).trans
    (Live.said_does ["version", "steps"] rfl (by decide))

/-- A run comes to its first step by deeds. -/
theorem opening_does (validated : Validated) (host : Host σ) (options : RunParameters)
    (steps : List Step) (asks : Call → Prop) (live : Live σ) :
    Live.Does (validated.workflow.setting host options) steps asks live
      (firstWalk validated host options live).live :=
  (announce_does validated _ steps asks live).tail (.begun _ _)

theorem conclude_does (ending : Ending) (startedAt : Number) (setting : Setting σ)
    (steps : List Step) (asks : Call → Prop) (live : Live σ) :
    Live.Does setting steps asks live (conclude ending startedAt setting live) := by
  unfold conclude
  dsimp only
  split
  · exact (Live.said_does ["status", "kind", "error"] rfl (by decide)).trans
      (Live.said_does ["status", "durationMs", "outcomes"] rfl (by decide))
  · exact Live.said_does ["status", "durationMs", "outcomes"] rfl (by decide)

/-- A run comes to its end by deeds from wherever it is, and its result is read off there. -/
theorem run_does {turns : Nat} {result : RunResult} {walk : Walk σ}
    (hvalid : validate document = .ok validated)
    (hrun : run host options document turns live = some (.ok result, after))
    (hreaches : Walk.Reaches (validated.workflow.setting host options)
      (firstWalk validated host options live) walk) :
    Live.Does (validated.workflow.setting host options) validated.workflow.steps (fun _ ↦ True)
        walk.live after ∧
      ∃ ending, result = validated.workflow.result options live.time ending after := by
  rw [run_of_validate hvalid] at hrun
  split at hrun
  · cases hrun
  · cases hrun
  · next ending middle hadvance =>
    obtain ⟨hresult, rfl⟩ := Prod.mk.inj (Option.some.inj hrun)
    obtain ⟨more, hmore⟩ := (hreaches.ends_iff (.ok ending, middle)).mp ⟨turns, hadvance⟩
    obtain ⟨last, found, hlast, hturn, -⟩ := Walk.exists_ended_of_advance hmore
    have hwithin := hreaches.within (firstWalk_within validated host options live)
    have hends := (hlast.within hwithin).does (by rw [hturn]; rfl)
    exact ⟨((hlast.does hwithin).trans hends).trans (conclude_does ending live.time _ _ _ middle),
      ending, (Except.ok.inj hresult).symm⟩

end Workflow

end BrowserFlow
