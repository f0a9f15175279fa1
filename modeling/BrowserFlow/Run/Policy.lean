import BrowserFlow.Fault.Classified
import BrowserFlow.Log.Basic
import BrowserFlow.Workflow.Basic

/-!
Policies: what happens when a step fails. A step is prepared once and then
attempted, several times when its policy asks for it, with a pause before each
further attempt. The result tells how often it was attempted and, when it
failed, whether the failure ends the run. What the attempts work on is left
open; it only has to say whether the run is cancelled, to pass time, and to take
log entries.
-/

set_option autoImplicit false
set_option relaxedAutoImplicit false

namespace BrowserFlow

/-- What came of carrying out a step. -/
inductive Attempted (β : Type) where
  /-- A value, after so many attempts. -/
  | done (attempts : Nat) (value : β)
  /-- A fault, after so many attempts, which may end the run. -/
  | failed (attempts : Nat) (fault : Fault) (ends : Bool)

/-- What a policy asks of the surroundings of a step. -/
structure Surroundings (W : Type) where
  /-- Whether the run is cancelled. -/
  isCancelled : W → Bool
  /-- Lets milliseconds pass. -/
  pause : Number → W → W
  /-- Takes a log entry. -/
  log : Level → Text → Entries Datum → W → W

/-- A step to be carried out: how it was prepared, and one attempt at it. An attempt may never
return. -/
structure Undertaking (W α β : Type) where
  /-- What the attempts work with. -/
  prepared : Except Datum α
  /-- One attempt. -/
  attempt : α → W → Option (Except Datum β × W)

namespace RetryPlan

/-- The attempts after which a plan without a last attempt ends. -/
def mostAttempts : Nat := Nat.pow 2 53

/-- The number of attempts; there is always one. -/
def attempts (plan : RetryPlan) : Nat :=
  match plan.maxAttempts.ceilingInt? with
  | some n => max 1 n.toNat
  | none => mostAttempts

/-- The pause between attempts, in milliseconds. -/
def pause (plan : RetryPlan) : Number := plan.delaySeconds * 1000

end RetryPlan

namespace StepHeader

/-- The policy of a step. -/
def policy (header : StepHeader) : Recovery := header.onError.getD .fail

/-- The plan of a step that is tried again. -/
def plan (header : StepHeader) (standard : RetryPlan) : RetryPlan := header.retry.getD standard

/-- How often a step is attempted at most. -/
def turns (header : StepHeader) (standard : RetryPlan) : Nat :=
  if header.policy = .retry then (header.plan standard).attempts else 1

end StepHeader

namespace Policy

variable {W α β : Type}

/-- The details of the entry about a failure that the run goes on after. -/
def continuedDetails (step : Text) (attempts : Nat) (fault : Fault) : Entries Datum :=
  [("step", .text step), ("attempts", .number (Number.ofNat attempts)),
    ("kind", .text fault.kind.name), ("error", .failure (.fault fault))]

/-- The details of the entry about a failed attempt that another one follows. -/
def retriedDetails (step : Text) (plan : RetryPlan) (made : Nat) (fault : Fault) : Entries Datum :=
  [("step", .text step), ("attempt", .number (Number.ofNat made)),
    ("maxAttempts", .number plan.maxAttempts), ("delaySeconds", .number plan.delaySeconds),
    ("error", .failure (.fault fault))]

/-- The end of a step that failed. -/
def giveUp (around : Surroundings W) (header : StepHeader) (attempts : Nat) (fault : Fault)
    (w : W) :
    Attempted β × W :=
  if header.policy = .continue then
    (.failed attempts fault false,
      around.log .warn "Step failed, continuing" (continuedDetails header.name attempts fault) w)
  else (.failed attempts fault true, w)

/-- The place of a step that is carried out. -/
def whereabouts (header : StepHeader) : Whereabouts := ⟨some header.name, none⟩

/-- The attempts of a step: one, and as many more as are left while they fail. -/
def attempts (around : Surroundings W) (header : StepHeader) (plan : RetryPlan)
    (attempt : W → Option (Except Datum β × W)) :
    (left made : Nat) → W → Option (Except Failure (Attempted β) × W)
  | left, made, w =>
    match attempt w with
    | none => none
    | some (.ok value, w) => some (.ok (.done made value), w)
    | some (.error thrown, w) =>
      match Fault.classify (whereabouts header) thrown with
      | .error failure => some (.error failure, w)
      | .ok fault =>
        match left with
        | 0 =>
          let last :=
            if header.policy = .retry then .exhausted header.name made (.fault fault) else fault
          let (ended, w) := giveUp around header made last w
          some (.ok ended, w)
        | left + 1 =>
          if around.isCancelled w then
            let (ended, w) := giveUp around header made fault w
            some (.ok ended, w)
          else
            let w := around.log .warn "Step attempt failed, retrying"
              (retriedDetails header.name plan made fault) w
            attempts around header plan attempt left (made + 1) (around.pause plan.pause w)

/-- Carries a step out under its policy. What was thrown but cannot be named is passed on. -/
def carryOut (around : Surroundings W) (header : StepHeader) (standard : RetryPlan)
    (undertaking : Undertaking W α β) (w : W) : Option (Except Failure (Attempted β) × W) :=
  match undertaking.prepared with
  | .error thrown =>
    match Fault.classify (whereabouts header) thrown with
    | .error failure => some (.error failure, w)
    | .ok fault =>
      let (ended, w) := giveUp around header 0 fault w
      some (.ok ended, w)
  | .ok prepared =>
    attempts around header (header.plan standard) (undertaking.attempt prepared)
      (header.turns standard - 1) 1 w

end Policy

end BrowserFlow
