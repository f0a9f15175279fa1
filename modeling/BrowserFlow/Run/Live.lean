import BrowserFlow.Run.Call
import BrowserFlow.Run.Cursor
import BrowserFlow.Run.Outcome
import BrowserFlow.Run.Policy
import BrowserFlow.Workflow.ResultKey

/-!
A run in progress, and what one step does to it. The host stands for everything
outside: it answers requests after some time, waits between attempts, and is
told every outcome; each time it may cancel the run. All that happens is noted
as an event, in its order.
-/

set_option autoImplicit false
set_option relaxedAutoImplicit false

namespace BrowserFlow

/-- Whether a run can be cancelled, and whether it is. -/
inductive Signal where
  /-- The run cannot be cancelled. -/
  | absent
  /-- The run is not cancelled. -/
  | quiet
  /-- The run is cancelled, for this reason. -/
  | raised (reason : Datum)

namespace Signal

/-- Whether a run is cancelled. -/
def isRaised : Signal → Bool
  | .raised _ => true
  | _ => false

/-- Why a run is cancelled. -/
def reason : Signal → Datum
  | .raised reason => reason
  | _ => .absent

end Signal

/-- Something that the host says to the log. -/
structure Remark where
  /-- The level. -/
  level : Level
  /-- The message. -/
  message : Text

/-- How the host answers a request. -/
structure Reply where
  /-- Why the host cancels the run at once, if it does. -/
  abort : Option Datum
  /-- What the host says to the log meanwhile. -/
  remarks : List Remark
  /-- After how many milliseconds the answer is there; there may never be one. -/
  delay : Option Number
  /-- The answer, or what is thrown in its place. -/
  answer : Except Datum Datum

/-- Everything outside of a run. -/
structure Host (σ : Type) where
  /-- Answers a request that is made at a time. -/
  reply : Number → Call → σ → Reply × σ
  /-- Waits for milliseconds between two attempts. -/
  rest : Number → σ → Option Datum × σ
  /-- Is told an outcome. -/
  notice : Outcome → σ → Option Datum × σ

/-- What happens in a run. -/
inductive Event where
  /-- A request is made. -/
  | called (call : Call)
  /-- The run waits for milliseconds before another attempt. -/
  | rested (milliseconds : Number)
  /-- Something is said to the log. -/
  | logged (entry : LogEntry)
  /-- The run is cancelled. -/
  | aborted (reason : Datum)
  /-- A step is visited. -/
  | visited (place : Place)
  /-- A loop is asked for a turn. -/
  | asked (place : Place)
  /-- A name is bound. -/
  | bound (name : Text) (slot : Option Value)
  /-- An outcome is recorded, when the clock shows this time. -/
  | recorded (time : Number) (outcome : Outcome)

/-- What stays the same throughout a run. -/
structure Setting (σ : Type) where
  /-- Everything outside. -/
  host : Host σ
  /-- What the run says on its log entries. -/
  bindings : Entries Datum
  /-- The plan of steps that are tried again without one of their own. -/
  retry : RetryPlan
  /-- How long steps wait for an element, in seconds. -/
  waitForTimeout : Number

/-- A run in progress. -/
structure Live (σ : Type) where
  /-- The names and their values. -/
  environment : Environment
  /-- The time, in milliseconds. -/
  now : Number
  /-- What the clock shows at a time. -/
  clock : Number → Number
  /-- Whether the run is cancelled. -/
  signal : Signal
  /-- The state of the host. -/
  host : σ
  /-- The outcomes so far. -/
  outcomes : List Outcome
  /-- What has happened so far. -/
  events : List Event

/-- How an action left the run. -/
inductive ActionEnd where
  /-- The run goes on. -/
  | goesOn
  /-- The run is over. -/
  | stops
  /-- The run fails. -/
  | fails (fault : Fault)

namespace Live

variable {σ : Type}

/-! ### Small steps -/

/-- What expressions see. -/
def scope (live : Live σ) : Scope := live.environment.scope

/-- What the clock shows. -/
def time (live : Live σ) : Number := live.clock live.now

/-- Whether the run is cancelled. -/
def isCancelled (live : Live σ) : Bool := live.signal.isRaised

/-- Something more happened. -/
def note (event : Event) (live : Live σ) : Live σ := { live with events := live.events ++ [event] }

/-- An entry in the log. -/
def log (bindings : Entries Datum) (level : Level) (message : Text) (details : Entries Datum)
    (live : Live σ) : Live σ :=
  live.note (.logged ⟨live.time, level, message, bindings, details⟩)

/-- The run cancelled, if there is a reason and it can be; the first reason stays. -/
def abort (reason : Option Datum) (live : Live σ) : Live σ :=
  match reason, live.signal with
  | some why, .quiet => { live with signal := .raised why }.note (.aborted why)
  | _, _ => live

/-- A name bound. -/
def bind (name : Text) (slot : Option Value) (live : Live σ) : Live σ :=
  { live with environment := live.environment.set name slot }.note (.bound name slot)

/-- An outcome recorded, logged and told to the host. -/
def record (setting : Setting σ) (outcome : Outcome) (live : Live σ) : Live σ :=
  let kept :=
    { live with outcomes := live.outcomes ++ [outcome] }.note (.recorded live.time outcome)
  let logged := kept.log setting.bindings .debug "Step finished" (Datum.ofEntries outcome.entries)
  let (reason, host) := setting.host.notice outcome logged.host
  { logged with host := host }.abort reason

/-- A wait between two attempts. -/
def pause (setting : Setting σ) (milliseconds : Number) (live : Live σ) : Live σ :=
  let (reason, host) := setting.host.rest milliseconds live.host
  let waiting := { live with host := host }.note (.rested milliseconds)
  { waiting.abort reason with now := live.now + milliseconds }

/-- The surroundings of a step in a run. Entries about attempts do not say which run they are of. -/
def surroundings (setting : Setting σ) : Surroundings (Live σ) where
  isCancelled := isCancelled
  pause := pause setting
  log := log []

/-! ### Attempts -/

/-- What is thrown when a step has taken too long. -/
def tooLong (header : StepHeader) (seconds : Number) : Datum :=
  .failure (.fault (.timeout
    ("Step \"" ++ header.name ++ "\" timed out after " ++ seconds.toText ++ "s") .absent))

/-- What a request comes to by its time-out: the later of both is not waited for, and of two at the
same time the answer counts. Without an answer and a time-out the request never returns. -/
def settle (header : StepHeader) (reply : Reply) (live : Live σ) :
    Option (Except Datum Datum × Live σ) :=
  let answered := reply.delay.map fun delay ↦ live.now + delay
  let due := header.timeout.map fun seconds ↦ (seconds, live.now + seconds * 1000)
  match answered, due with
  | none, none => none
  | some time, none => some (reply.answer, { live with now := time })
  | none, some (seconds, limit) =>
    some (.error (tooLong header seconds), { live with now := limit })
  | some time, some (seconds, limit) =>
    if Number.lt limit time then some (.error (tooLong header seconds), { live with now := limit })
    else some (reply.answer, { live with now := time })

/-- A request made to the host. -/
def ask (setting : Setting σ) (header : StepHeader) (call : Call) (live : Live σ) :
    Option (Except Datum Datum × Live σ) :=
  let (reply, host) := setting.host.reply live.now call live.host
  let made := { live with host := host }.note (.called call)
  let told := reply.remarks.foldl (fun l remark ↦ l.log [] remark.level remark.message []) made
  (told.abort reply.abort).settle header reply

/-- One attempt at a task. -/
def attempt (setting : Setting σ) (header : StepHeader) (task : Task) (live : Live σ) :
    Option (Except Datum (Option Value) × Live σ) :=
  let thrown (what : Datum) : Datum :=
    .failure (Fault.ofThrown ⟨some header.name, task.selector?⟩ what)
  match task with
  | .request call =>
    match live.ask setting header call with
    | none => none
    | some (.error what, after) => some (.error (thrown what), after)
    | some (.ok answer, after) =>
      match call.result answer with
      | .ok value => some (.ok value, after)
      | .error failure => some (.error (thrown (.failure failure)), after)
  | .assign name value false => some (.ok (some value), live.bind name (some value))
  | .assign name value true =>
    match live.environment.extended name value with
    | .ok items =>
      some (.ok (some (.sequence items)), live.bind name (some (.sequence items)))
    | .error fault => some (.error (thrown (.failure (.fault fault))), live)
  | .halt none => some (.ok (some .null), live)
  | .halt (some reason) => some (.ok (some (.text reason)), live)

/-! ### Steps -/

/-- The outcome of a step that began at a time and ends now. -/
def outcome (step : Step) (place : Place) (startedAt : Number) (status : StepEnding)
    (attempts : Nat) (fault : Option Fault) (key : Option Text) (live : Live σ) : Outcome :=
  ⟨step.name, step.kind, place, status, attempts, live.time - startedAt, fault.map Fault.info, key⟩

/-- The value of a step bound under its key, if the step has one; with the key. -/
def bindResult (step : Step) (slot : Option Value) (live : Live σ) : Option Text × Live σ :=
  if step.hasResult then (some step.resultKey, live.bind step.resultKey slot) else (none, live)

/-- A guard, a condition or the operands of a loop failed. Tells whether the run ends. -/
def stumble (setting : Setting σ) (step : Step) (place : Place) (startedAt : Number) (fault : Fault)
    (live : Live σ) : Bool × Live σ :=
  if step.header.policy = .continue then
    let told := live.log setting.bindings .warn "Step failed, continuing"
      [("step", .text step.name), ("kind", .text fault.kind.name),
      ("error", .failure (.fault fault))]
    let (key, bound) := told.bindResult step (some .null)
    (false, bound.record setting (bound.outcome step place startedAt .failed 0 (some fault) key))
  else (true, live.record setting (live.outcome step place startedAt .failed 0 (some fault) none))

/-- What came of carrying out an action, taken into the run. -/
def conclude (setting : Setting σ) (step : Step) (place : Place) (startedAt : Number)
    (attempted : Attempted (Option Value)) (live : Live σ) : ActionEnd × Live σ :=
  match attempted with
  | .failed attempts fault true =>
    (.fails fault,
      live.record setting (live.outcome step place startedAt .failed attempts (some fault) none))
  | .failed attempts fault false =>
    let (key, bound) := live.bindResult step (some .null)
    (.goesOn,
      bound.record setting (bound.outcome step place startedAt .failed attempts (some fault) key))
  | .done attempts value =>
    let (key, bound) := live.bindResult step value
    let status : StepEnding := if attempts > 1 then .retried else .success
    let kept := bound.record setting (bound.outcome step place startedAt status attempts none key)
    if step.hasResult then (.goesOn, kept)
    else
      (.stops, kept.log setting.bindings .info "Run stopped"
        [("step", .text step.name), ("path", .text place.toText),
          ("reason", (value.map Datum.ofValue).getD .absent)])

/-- An action carried out. -/
def perform (setting : Setting σ) (header : StepHeader) (action : Action) (place : Place)
    (startedAt : Number) (live : Live σ) : Option (Except Failure ActionEnd × Live σ) :=
  let recorded : Value := .sequence (live.outcomes.map Outcome.toValue)
  let task := action.task live.scope (header.timeout.getD setting.waitForTimeout) recorded
  let undertaking : Undertaking (Live σ) Task (Option Value) :=
    ⟨task.mapError fun fault ↦ .failure (.fault fault), attempt setting header⟩
  match Policy.carryOut (surroundings setting) header setting.retry undertaking live with
  | none => none
  | some (.error failure, after) => some (.error failure, after)
  | some (.ok attempted, after) =>
    let (ended, kept) := after.conclude setting (.act header action) place startedAt attempted
    some (.ok ended, kept)

end Live

end BrowserFlow
