import BrowserFlow.Run.Live

/-!
The walk through the steps of a workflow. A stack of frames says what is still
to do: a frame for a list of steps holds those that are left, a frame for a loop
holds its cursor. A turn of the walk looks at the topmost frame only. Steps that
control others are open from the turn that enters them to the one that closes
them; when the run ends early, all open steps are closed, the innermost first.
-/

set_option autoImplicit false
set_option relaxedAutoImplicit false

namespace BrowserFlow

/-- A step that controls others and has been entered. -/
structure Opened where
  /-- The step. -/
  step : Step
  /-- Where it is. -/
  place : Place
  /-- When it was entered. -/
  startedAt : Number

/-- What is still to do. -/
inductive Frame where
  /-- The steps that are left of a list, with the index of the first; the list may be a branch of a
  step that is closed behind it. -/
  | steps (rest : List Step) (site : Site) (index : Nat) (owner : Option Opened)
  /-- The turns that are left of a loop. -/
  | loop (owner : Opened) (body : List Step) (cursor : Cursor)

namespace Frame

/-- The step that is closed when a frame is done. -/
def owner? : Frame → Option Opened
  | .steps _ _ _ owner => owner
  | .loop owner _ _ => some owner

end Frame

/-- How a walk ends. -/
inductive Ending where
  /-- There was nothing left to do, or a step has ended the run. -/
  | completed
  /-- A step failed. -/
  | failed (fault : Fault)
  /-- The run was cancelled. -/
  | cancelled (fault : Fault)

namespace Ending

/-- The status of a run with this end. -/
def status : Ending → RunEnding
  | .completed => .completed
  | .failed _ => .failed
  | .cancelled _ => .cancelled

/-- What has ended the run early. -/
def fault? : Ending → Option Fault
  | .completed => none
  | .failed fault => some fault
  | .cancelled fault => some fault

end Ending

/-- A walk in progress. -/
structure Walk (σ : Type) where
  /-- The run. -/
  live : Live σ
  /-- What is still to do, the next first. -/
  stack : List Frame

/-- What a turn of a walk comes to. -/
inductive Progress (σ : Type) where
  /-- The walk goes on. -/
  | going (walk : Walk σ)
  /-- The walk has ended. -/
  | ended (ending : Ending) (live : Live σ)
  /-- Something was thrown that no fault can stand for. -/
  | broken (failure : Failure) (live : Live σ)
  /-- A request was made that never returns. -/
  | stuck

namespace Live

variable {σ : Type}

/-- A step closed that was open. -/
def close (setting : Setting σ) (status : StepEnding) (fault : Option Fault) (owner : Opened)
    (live : Live σ) : Live σ :=
  live.record setting (live.outcome owner.step owner.place owner.startedAt status 1 fault none)

/-- All open steps of a stack closed, the innermost first. -/
def closeAll (setting : Setting σ) (status : StepEnding) (fault : Option Fault) (stack : List Frame)
    (live : Live σ) : Live σ :=
  (stack.filterMap Frame.owner?).foldl (fun l owner ↦ l.close setting status fault owner) live

/-- The answer of a cursor taken into the run. -/
def takeTurn (setting : Setting σ) (step : Step) (turn : Turn) (live : Live σ) : Live σ :=
  let bound := match turn.binding with
    | some (name, value) => live.bind name (some value)
    | none => live
  match turn.limit with
  | some limit =>
    bound.log setting.bindings .warn "Loop stopped at max_iterations"
      [("step", .text step.name), ("limit", .number limit)]
  | none => bound

end Live

namespace Walk

variable {σ : Type}

/-- The end of a run that fails. -/
def fail (setting : Setting σ) (fault : Fault) (walk : Walk σ) : Progress σ :=
  .ended (.failed fault) (walk.live.closeAll setting .failed (some fault) walk.stack)

/-- The end of a run that is cancelled. -/
def cancel (setting : Setting σ) (walk : Walk σ) : Progress σ :=
  let fault := Fault.cancelled walk.live.signal.reason
  .ended (.cancelled fault) (walk.live.closeAll setting .failed (some fault) walk.stack)

/-- The end of a run that a step has ended. -/
def stop (setting : Setting σ) (walk : Walk σ) : Progress σ :=
  .ended .completed (walk.live.closeAll setting .success none walk.stack)

/-- The way on after a guard, a condition or the operands of a loop failed. -/
def stumble (setting : Setting σ) (step : Step) (place : Place) (startedAt : Number) (fault : Fault)
    (walk : Walk σ) : Progress σ :=
  match walk.live.stumble setting step place startedAt fault with
  | (true, live) => fail setting fault ⟨live, walk.stack⟩
  | (false, live) => .going ⟨live, walk.stack⟩

/-- A step whose guard holds. The stack already holds what comes after it. -/
def enter (setting : Setting σ) (step : Step) (place : Place) (startedAt : Number) (walk : Walk σ) :
    Progress σ :=
  let owner : Opened := ⟨step, place, startedAt⟩
  match step with
  | .act header action =>
    match walk.live.perform setting header action place startedAt with
    | none => .stuck
    | some (.error failure, live) => .broken failure live
    | some (.ok .goesOn, live) => .going ⟨live, walk.stack⟩
    | some (.ok .stops, live) => stop setting ⟨live, walk.stack⟩
    | some (.ok (.fails fault), live) =>
      if live.isCancelled then cancel setting ⟨live, walk.stack⟩
      else fail setting fault ⟨live, walk.stack⟩
  | .branch _ condition steps otherwise =>
    match condition.evaluate walk.live.scope with
    | .error fault => walk.stumble setting step place startedAt fault
    | .ok true => .going ⟨walk.live, .steps steps (place.list .body) 0 (some owner) :: walk.stack⟩
    | .ok false =>
      .going ⟨walk.live,
        .steps (otherwise.getD []) (place.list .otherwise) 0 (some owner) :: walk.stack⟩
  | .loop _ spec body =>
    match spec.beginLoop walk.live.scope with
    | .error fault => walk.stumble setting step place startedAt fault
    | .ok cursor => .going ⟨walk.live, .loop owner body cursor :: walk.stack⟩

/-- A visit of a step. The stack already holds what comes after it. -/
def visit (setting : Setting σ) (step : Step) (place : Place) (walk : Walk σ) : Progress σ :=
  let live := walk.live.note (.visited place)
  let startedAt := live.time
  match step.header.guard with
  | none => enter setting step place startedAt ⟨live, walk.stack⟩
  | some guard =>
    match guard.evaluate live.scope with
    | .error fault => stumble setting step place startedAt fault ⟨live, walk.stack⟩
    | .ok true => enter setting step place startedAt ⟨live, walk.stack⟩
    | .ok false =>
      let outcome : Outcome := ⟨step.name, step.kind, place, .skipped, 0, 0, none, none⟩
      .going ⟨live.record setting outcome, walk.stack⟩

/-- A loop asked for its next turn, above the frames below it. -/
def nextTurn (setting : Setting σ) (owner : Opened) (body : List Step) (cursor : Cursor)
    (below : List Frame) (live : Live σ) : Progress σ :=
  let asked := live.note (.asked owner.place)
  match cursor.next asked.scope with
  | .error fault => stumble setting owner.step owner.place owner.startedAt fault ⟨asked, below⟩
  | .ok turn =>
    let taken := asked.takeTurn setting owner.step turn
    if turn.goesOn then
      .going ⟨taken,
        .steps body (owner.place.list .body) 0 none :: .loop owner body turn.cursor :: below⟩
    else
      let told := taken.log setting.bindings .debug "Loop finished"
        [("step", .text owner.step.name),
          ("iterations", .number (Number.ofNat turn.cursor.iterations))]
      .going ⟨told.close setting .success none owner, below⟩

/-- One turn of a walk. -/
def turn (setting : Setting σ) (walk : Walk σ) : Progress σ :=
  match walk.stack with
  | [] => .ended .completed walk.live
  | .loop owner body cursor :: below =>
    if walk.live.isCancelled then cancel setting walk
    else nextTurn setting owner body cursor below walk.live
  | .steps [] _ _ none :: below => .going ⟨walk.live, below⟩
  | .steps [] _ _ (some owner) :: below =>
    .going ⟨walk.live.close setting .success none owner, below⟩
  | .steps (step :: rest) site index owner :: below =>
    let after : Walk σ := ⟨walk.live, .steps rest site (index + 1) owner :: below⟩
    if walk.live.isCancelled then cancel setting after
    else visit setting step ⟨site, index⟩ after

/-- A walk up to its end, in at most so many turns. -/
def advance (setting : Setting σ) : Nat → Walk σ → Option (Except Failure Ending × Live σ)
  | 0, _ => none
  | turns + 1, walk =>
    match walk.turn setting with
    | .going next => advance setting turns next
    | .ended ending live => some (.ok ending, live)
    | .broken failure live => some (.error failure, live)
    | .stuck => none

end Walk

end BrowserFlow
