import BrowserFlow.Proofs.Run.Agreement

/-!
What a turn of a walk can do, said once. `Walk.Moves` has a rule for each way on
that a turn can take, with the guards that lead there, and every turn is an
application of one of them (`Walk.moves_turn`). What is still to do behind a turn
depends on less: `Walk.Restacks` has a rule for each change of the frames
(`Walk.Moves.restacks`). What holds of all walks that a walk reaches is then shown
rule by rule, and a walk that ends has reached the one whose last turn ends it
(`Walk.reaches_of_advance`). A walk ends as those do that it reaches
(`Walk.Reaches.ends_iff`).
-/

set_option autoImplicit false
set_option relaxedAutoImplicit false

namespace BrowserFlow

variable {σ : Type} {setting : Setting σ}

namespace Walk

/-! ### The rules -/

/-- What a turn of a walk comes to, a rule for each way on. -/
inductive Moves (setting : Setting σ) : Walk σ → Progress σ → Prop
  /-- Nothing is left to do. -/
  | done {live : Live σ} : Moves setting ⟨live, []⟩ (.ended .completed live)
  /-- No steps are left of a list; an open step is closed behind it. -/
  | left {live : Live σ} {site : Site} {index : Nat} {owner : Option Opened} {below : List Frame} :
      Moves setting ⟨live, .steps [] site index owner :: below⟩
        (.going ⟨live.release setting owner .through, below⟩)
  /-- The run is cancelled before the next step of a list. -/
  | cancelled {live : Live σ} {step : Step} {rest : List Step} {site : Site} {index : Nat}
      {owner : Option Opened} {below : List Frame} (hcancelled : live.isCancelled = true) :
      Moves setting ⟨live, .steps (step :: rest) site index owner :: below⟩
        ((Passage.atEnd live.cancellation).progress setting
          ⟨live, .steps rest site (index + 1) owner :: below⟩)
  /-- The guard of the next step does not hold. -/
  | skipped {live : Live σ} {step : Step} {rest : List Step} {site : Site} {index : Nat}
      {owner : Option Opened} {below : List Frame} (hgoes : live.isCancelled = false)
      (hfound : step.approach live.scope = .skip) :
      Moves setting ⟨live, .steps (step :: rest) site index owner :: below⟩
        (.going ⟨(live.enter ⟨site, index⟩).record setting (step.passedOver ⟨site, index⟩),
          .steps rest site (index + 1) owner :: below⟩)
  /-- The guard, the condition or the operands of the next step fail. -/
  | stumbled {live : Live σ} {step : Step} {rest : List Step} {site : Site} {index : Nat}
      {owner : Option Opened} {below : List Frame} {fault : Fault}
      (hgoes : live.isCancelled = false) (hfound : step.approach live.scope = .stumble fault) :
      Moves setting ⟨live, .steps (step :: rest) site index owner :: below⟩
        (((live.enter ⟨site, index⟩).stumbled setting (live.opened step ⟨site, index⟩)
          fault).1.progress setting
          ⟨((live.enter ⟨site, index⟩).stumbled setting (live.opened step ⟨site, index⟩) fault).2,
            .steps rest site (index + 1) owner :: below⟩)
  /-- The next step is an action, which is carried out. -/
  | acted {live after : Live σ} {step : Step} {rest : List Step} {site : Site} {index : Nat}
      {owner : Option Opened} {below : List Frame} {header : StepHeader} {action : Action}
      {ended : ActionEnd} (hgoes : live.isCancelled = false)
      (hfound : step.approach live.scope = .act header action)
      (hperform : (live.enter ⟨site, index⟩).perform setting header action ⟨site, index⟩
        (live.opened step ⟨site, index⟩).startedAt = some (.ok ended, after)) :
      Moves setting ⟨live, .steps (step :: rest) site index owner :: below⟩
        ((ended.passage after).progress setting
          ⟨after, .steps rest site (index + 1) owner :: below⟩)
  /-- The next step is an action that never returns. -/
  | stuck {live : Live σ} {step : Step} {rest : List Step} {site : Site} {index : Nat}
      {owner : Option Opened} {below : List Frame} {header : StepHeader} {action : Action}
      (hgoes : live.isCancelled = false) (hfound : step.approach live.scope = .act header action)
      (hperform : (live.enter ⟨site, index⟩).perform setting header action ⟨site, index⟩
        (live.opened step ⟨site, index⟩).startedAt = none) :
      Moves setting ⟨live, .steps (step :: rest) site index owner :: below⟩ .stuck
  /-- The next step is opened at one of its branches. -/
  | branched {live : Live σ} {step : Step} {rest : List Step} {site : Site} {index : Nat}
      {owner : Option Opened} {below : List Frame} {side : Side} {chosen : List Step}
      (hgoes : live.isCancelled = false) (hfound : step.approach live.scope = .branch side chosen) :
      Moves setting ⟨live, .steps (step :: rest) site index owner :: below⟩
        (.going ⟨live.enter ⟨site, index⟩,
          .steps chosen (Place.list ⟨site, index⟩ side) 0 (some (live.opened step ⟨site, index⟩)) ::
            .steps rest site (index + 1) owner :: below⟩)
  /-- The next step is a loop, which is opened. -/
  | looped {live : Live σ} {step : Step} {rest : List Step} {site : Site} {index : Nat}
      {owner : Option Opened} {below : List Frame} {body : List Step} {cursor : Cursor}
      (hgoes : live.isCancelled = false) (hfound : step.approach live.scope = .loop body cursor) :
      Moves setting ⟨live, .steps (step :: rest) site index owner :: below⟩
        (.going ⟨live.enter ⟨site, index⟩,
          .loop (live.opened step ⟨site, index⟩) body cursor ::
            .steps rest site (index + 1) owner :: below⟩)
  /-- The run is cancelled before a loop is asked. -/
  | halted {live : Live σ} {owner : Opened} {body : List Step} {cursor : Cursor}
      {below : List Frame} (hcancelled : live.isCancelled = true) :
      Moves setting ⟨live, .loop owner body cursor :: below⟩
        ((Passage.atEnd live.cancellation).progress setting
          ⟨live, .loop owner body cursor :: below⟩)
  /-- The condition of a loop fails. -/
  | refused {live : Live σ} {owner : Opened} {body : List Step} {cursor : Cursor}
      {below : List Frame} {fault : Fault} (hgoes : live.isCancelled = false)
      (hnext : cursor.next live.scope = .error fault) :
      Moves setting ⟨live, .loop owner body cursor :: below⟩
        (((live.askLoop owner).stumbled setting owner fault).1.progress setting
          ⟨((live.askLoop owner).stumbled setting owner fault).2, below⟩)
  /-- A loop begins a turn of its body. -/
  | turned {live : Live σ} {owner : Opened} {body : List Step} {cursor : Cursor}
      {below : List Frame} {turn : Turn} (hgoes : live.isCancelled = false)
      (hnext : cursor.next live.scope = .ok turn) (hturn : turn.goesOn = true) :
      Moves setting ⟨live, .loop owner body cursor :: below⟩
        (.going ⟨(live.askLoop owner).takeTurn setting owner.step turn,
          .steps body (owner.place.list .body) 0 none :: .loop owner body turn.cursor :: below⟩)
  /-- A loop has no more turns. -/
  | finished {live : Live σ} {owner : Opened} {body : List Step} {cursor : Cursor}
      {below : List Frame} {turn : Turn} (hgoes : live.isCancelled = false)
      (hnext : cursor.next live.scope = .ok turn) (hturn : turn.goesOn = false) :
      Moves setting ⟨live, .loop owner body cursor :: below⟩
        (.going ⟨(((live.askLoop owner).takeTurn setting owner.step turn).finishLoop setting owner
          turn).leave setting owner .through, below⟩)

/-- A visit of the next step of a list comes to what one of the rules says. -/
theorem moves_found {live : Live σ} (hgoes : live.isCancelled = false) (step : Step)
    (rest : List Step) (site : Site) (index : Nat) (owner : Option Opened) (below : List Frame) :
    Moves setting ⟨live, .steps (step :: rest) site index owner :: below⟩
      (found setting step ⟨site, index⟩ live (.steps rest site (index + 1) owner :: below)
        (step.approach live.scope)) := by
  cases hfound : step.approach live.scope with
  | skip => exact .skipped hgoes hfound
  | stumble fault => exact .stumbled hgoes hfound
  | act header action =>
    rw [found]
    split
    · next hperform => exact .stuck hgoes hfound hperform
    · next hperform =>
      obtain ⟨_, _, -, herror, -⟩ := Live.perform_cases hperform
      cases herror
    · next hperform => exact .acted hgoes hfound hperform
  | branch side chosen => exact .branched hgoes hfound
  | loop body cursor => exact .looped hgoes hfound

/-- A loop that is asked for a turn comes to what one of the rules says. -/
theorem moves_nextTurn {live : Live σ} (hgoes : live.isCancelled = false) (owner : Opened)
    (body : List Step) (cursor : Cursor) (below : List Frame) :
    Moves setting ⟨live, .loop owner body cursor :: below⟩
      (nextTurn setting owner body cursor below live) := by
  rw [nextTurn_eq]
  split
  · next hnext => exact .refused hgoes hnext
  · next turn hnext =>
    dsimp only
    by_cases hturn : turn.goesOn = true
    · rw [if_pos hturn]
      exact .turned hgoes hnext hturn
    · rw [if_neg hturn]
      exact .finished hgoes hnext (by simpa using hturn)

/-- Every turn of a walk comes to what one of the rules says. -/
theorem moves_turn (walk : Walk σ) : Moves setting walk (walk.turn setting) := by
  obtain ⟨live, _ | ⟨frame, below⟩⟩ := walk
  · exact .done
  · cases frame with
    | steps rest site index owner =>
      cases rest with
      | nil =>
        rw [turn_nil]
        exact .left
      | cons step others =>
        rw [turn_cons]
        cases hcancelled : live.isCancelled with
        | true =>
          rw [arrive_of_cancelled hcancelled]
          exact .cancelled hcancelled
        | false =>
          rw [arrive_eq hcancelled]
          exact moves_found hcancelled step others site index owner below
    | loop owner body cursor =>
      change Moves setting _ (if live.isCancelled then cancel setting _ else _)
      cases hcancelled : live.isCancelled with
      | true =>
        rw [if_pos rfl, cancel_eq]
        exact .halted hcancelled
      | false =>
        rw [if_neg (by simp)]
        exact moves_nextTurn hcancelled owner body cursor below

theorem eq_of_progress_eq_going {passage : Passage} {walk next : Walk σ}
    (h : passage.progress setting walk = .going next) : next = walk := by
  cases passage with
  | through => exact (Progress.going.inj h).symm
  | atEnd _ => simp [Passage.progress] at h

/-- What is still to do behind a turn with which the walk goes on, seen from what was to do. -/
inductive Restacks (scope : Scope) : List Frame → List Frame → Prop
  /-- The topmost frame is done. -/
  | popped {frame : Frame} {below : List Frame} : Restacks scope (frame :: below) below
  /-- The next step of a list is done. -/
  | passed {step : Step} {rest : List Step} {site : Site} {index : Nat} {owner : Option Opened}
      {below : List Frame} :
      Restacks scope (.steps (step :: rest) site index owner :: below)
        (.steps rest site (index + 1) owner :: below)
  /-- The next step of a list is opened at one of its branches. -/
  | branched {step : Step} {rest : List Step} {site : Site} {index : Nat} {owner : Option Opened}
      {below : List Frame} {side : Side} {chosen : List Step} {startedAt : Number}
      (hfound : step.approach scope = .branch side chosen) :
      Restacks scope (.steps (step :: rest) site index owner :: below)
        (.steps chosen (Place.list ⟨site, index⟩ side) 0 (some ⟨step, ⟨site, index⟩, startedAt⟩) ::
          .steps rest site (index + 1) owner :: below)
  /-- The next step of a list is a loop, which is opened. -/
  | looped {step : Step} {rest : List Step} {site : Site} {index : Nat} {owner : Option Opened}
      {below : List Frame} {body : List Step} {cursor : Cursor} {startedAt : Number}
      (hfound : step.approach scope = .loop body cursor) :
      Restacks scope (.steps (step :: rest) site index owner :: below)
        (.loop ⟨step, ⟨site, index⟩, startedAt⟩ body cursor ::
          .steps rest site (index + 1) owner :: below)
  /-- A loop begins a turn of its body. -/
  | turned {owner : Opened} {body : List Step} {cursor : Cursor} {below : List Frame} {turn : Turn}
      (hnext : cursor.next scope = .ok turn) :
      Restacks scope (.loop owner body cursor :: below)
        (.steps body (owner.place.list .body) 0 none :: .loop owner body turn.cursor :: below)

theorem Moves.restacks {walk next : Walk σ} {progress : Progress σ}
    (h : Moves setting walk progress) (hgoing : progress = .going next) :
    Restacks walk.live.scope walk.stack next.stack := by
  cases h with
  | done | cancelled | stuck | halted => cases hgoing
  | left | finished =>
    obtain rfl := Progress.going.inj hgoing
    exact .popped
  | skipped =>
    obtain rfl := Progress.going.inj hgoing
    exact .passed
  | stumbled | acted =>
    obtain rfl := eq_of_progress_eq_going hgoing
    exact .passed
  | branched _ hfound =>
    obtain rfl := Progress.going.inj hgoing
    exact .branched hfound
  | looped _ hfound =>
    obtain rfl := Progress.going.inj hgoing
    exact .looped hfound
  | refused =>
    obtain rfl := eq_of_progress_eq_going hgoing
    exact .popped
  | turned _ hnext _ =>
    obtain rfl := Progress.going.inj hgoing
    exact .turned hnext

/-- Nothing is thrown in a turn that no fault can stand for. -/
theorem Moves.ne_broken {walk : Walk σ} {progress : Progress σ} (h : Moves setting walk progress)
    (failure : Failure) (live : Live σ) : progress ≠ .broken failure live := by
  have hpassage : ∀ (passage : Passage) (walk : Walk σ),
      passage.progress setting walk ≠ .broken failure live := by
    intro passage walk
    cases passage <;> simp [Passage.progress]
  cases h with
  | cancelled | stumbled | acted | halted | refused => exact hpassage _ _
  | done | left | skipped | stuck | branched | looped | turned | finished => simp

/-! ### The walks that are reached -/

section Reaches

variable {first walk next : Walk σ}

/-- A walk that is reached from the next walk is reached from the one before it. -/
theorem Reaches.before {last : Walk σ} (hturn : walk.turn setting = .going next)
    (hreaches : Reaches setting next last) : Reaches setting walk last := by
  induction hreaches with
  | start => exact .turn .start hturn
  | turn _ hlast ih => exact .turn ih hlast

/-- The walk after so many turns, if the walk goes on for so long. -/
def ahead (setting : Setting σ) : Nat → Walk σ → Option (Walk σ)
  | 0, walk => some walk
  | turns + 1, walk =>
    match walk.turn setting with
    | .going next => next.ahead setting turns
    | _ => none

theorem reaches_of_ahead {last : Walk σ} {turns : Nat} (h : walk.ahead setting turns = some last) :
    Reaches setting walk last := by
  induction turns generalizing walk with
  | zero =>
    obtain rfl := Option.some.inj h
    exact .start
  | succ turns ih =>
    rw [ahead] at h
    split at h
    · next hturn => exact (ih h).before hturn
    · cases h

/-- A walk ends as those do that it reaches. -/
theorem Reaches.ends_iff (hreaches : Reaches setting first walk)
    (result : Except Failure Ending × Live σ) :
    (Progress.going first).Ends setting result ↔ (Progress.going walk).Ends setting result := by
  induction hreaches with
  | start => rfl
  | turn _ hturn ih =>
    rw [ih, ends_iff_turn, hturn]

/-- A walk that ends has reached one whose next turn ends it. -/
theorem exists_ended_of_advance {turns : Nat} {result : Except Failure Ending} {after : Live σ}
    (h : walk.advance setting turns = some (result, after)) :
    ∃ last ending, Reaches setting walk last ∧ last.turn setting = .ended ending after ∧
      result = .ok ending := by
  induction turns generalizing walk with
  | zero => cases h
  | succ turns ih =>
    rw [advance_succ] at h
    cases hturn : walk.turn setting with
    | going next =>
      rw [hturn] at h
      obtain ⟨last, ending, hreaches, hlast, hresult⟩ := ih h
      exact ⟨last, ending, hreaches.before hturn, hlast, hresult⟩
    | ended ending live =>
      rw [hturn] at h
      obtain ⟨rfl, rfl⟩ := Prod.mk.inj (Option.some.inj h)
      exact ⟨walk, ending, .start, hturn, rfl⟩
    | broken failure live =>
      exact absurd hturn ((moves_turn walk).ne_broken failure live)
    | stuck =>
      rw [hturn] at h
      cases h

theorem reaches_of_advance {turns : Nat} {result : Except Failure Ending} {after : Live σ}
    (h : walk.advance setting turns = some (result, after)) :
    ∃ last ending, Reaches setting walk last ∧ Moves setting last (.ended ending after) ∧
      result = .ok ending := by
  obtain ⟨last, ending, hreaches, hturn, hresult⟩ := exists_ended_of_advance h
  exact ⟨last, ending, hreaches, hturn ▸ moves_turn last, hresult⟩

end Reaches

end Walk

end BrowserFlow
