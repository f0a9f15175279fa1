import BrowserFlow.Run.Live

/-!
A host that follows a script. For every kind of request the script holds
responses: each request takes the next one, and the last one stays. A response
may cancel the run or interrupt the program, take its time, never come, throw,
or answer; where it says nothing the host answers in its usual way, with the
storage behind it. What a request does to storage happens when its answer is
due, whether or not the run still waits for it.
-/

set_option autoImplicit false
set_option relaxedAutoImplicit false

namespace BrowserFlow

/-- What a response answers. -/
inductive Scripted where
  /-- It throws. -/
  | throws (what : Datum)
  /-- It answers. -/
  | answers (what : Datum)
  /-- It leaves the answer to the host. -/
  | usual

/-- A response of a script. -/
structure Response where
  /-- Why it cancels the run, if it does. -/
  abort : Option Datum
  /-- Whether it interrupts the program. -/
  interrupts : Bool
  /-- The milliseconds that it takes. -/
  took : Option Number
  /-- Whether it never comes. -/
  hangs : Bool
  /-- The answer. -/
  answer : Scripted

namespace Response

/-- The response where the script has none. -/
def usual : Response := ⟨none, false, none, false, .usual⟩

end Response

/-- The responses to each kind of request. -/
abbrev Script := Entries (List Response)

namespace Script

/-- The next response to a kind of request, and the script without it. -/
def take (script : Script) (name : Text) : Response × Script :=
  match script with
  | [] => (.usual, [])
  | (key, responses) :: rest =>
    if key = name then
      match responses with
      | [] => (.usual, (key, responses) :: rest)
      | [last] => (last, (key, [last]) :: rest)
      | first :: others => (first, (key, others) :: rest)
    else
      let (response, others) := take rest name
      (response, (key, responses) :: others)

end Script

/-- How storage takes requests to save and to load. -/
structure Shelf (τ : Type) where
  /-- Saves a value. -/
  save : Text → Value → τ → Except Failure τ
  /-- Loads a value. -/
  load : Text → τ → Except Failure Value

/-- What a scripted host does by itself. -/
structure Habits (τ : Type) where
  /-- The storage. -/
  shelf : Shelf τ
  /-- Why and with which words an interruption cancels the run, if the program listens to it. -/
  interruption : Option (Datum × Remark)
  /-- After how many outcomes, and why, the host cancels the run. -/
  abortAt : Option (Nat × Datum)

/-- The state of a scripted host. -/
structure Performer (τ : Type) where
  /-- What is left of the script. -/
  script : Script
  /-- What is stored. -/
  storage : τ
  /-- The values that are still on their way to storage, with the times of their arrival. -/
  pending : List (Number × Text × Value)
  /-- How many outcomes the host was told. -/
  noticed : Nat

namespace Performer

variable {τ : Type}

/-- A host at the beginning of its script. -/
def ready (script : Script) (storage : τ) : Performer τ := ⟨script, storage, [], 0⟩

/-- A value that arrives at storage. -/
def deliver (shelf : Shelf τ) (storage : τ) (arrival : Number × Text × Value) : τ :=
  match shelf.save arrival.2.1 arrival.2.2 storage with
  | .ok after => after
  | .error _ => storage

/-- What is stored at a time. -/
def storageAt (shelf : Shelf τ) (now : Number) (performer : Performer τ) : τ :=
  (performer.pending.filter fun arrival ↦ Number.le arrival.1 now).foldl (deliver shelf)
    performer.storage

/-- The host with everything stored that has arrived by a time. -/
def settled (shelf : Shelf τ) (now : Number) (performer : Performer τ) : Performer τ :=
  { performer with
    storage := performer.storageAt shelf now
    pending := performer.pending.filter fun arrival ↦ !Number.le arrival.1 now }

/-- The usual answer to a request that is due at a time. -/
def usualAnswer (shelf : Shelf τ) (due : Number) (call : Call) (performer : Performer τ) :
    Except Datum Datum :=
  match call with
  | .extract _ _ => .ok (.sequence [])
  | .getText _ => .ok (.text Text.empty)
  | .getAttribute _ _ => .ok .null
  | .load path =>
    ((shelf.load path (performer.storageAt shelf due)).map Datum.ofValue).mapError .failure
  | .save path data =>
    ((shelf.save path data (performer.storageAt shelf due)).map fun _ ↦ .absent).mapError .failure
  | _ => .ok .absent

/-- The host with a value of a request on its way. -/
def send (due : Number) (call : Call) (performer : Performer τ) : Performer τ :=
  match call with
  | .save path data => { performer with pending := performer.pending ++ [(due, path, data)] }
  | _ => performer

/-- The answer to a request. -/
def reply (habits : Habits τ) (now : Number) (call : Call) (performer : Performer τ) :
    Reply × Performer τ :=
  let current := performer.settled habits.shelf now
  let (response, script) := current.script.take call.name
  let left := { current with script := script }
  let heard := if response.interrupts then habits.interruption else none
  let abort := response.abort.orElse fun _ ↦ heard.map Prod.fst
  let remarks := (heard.map Prod.snd).toList
  let delay := response.took.getD 0
  let due := now + delay
  if response.hangs then (⟨abort, remarks, none, .ok .absent⟩, left)
  else
    match response.answer with
    | .throws what => (⟨abort, remarks, some delay, .error what⟩, left)
    | .answers what => (⟨abort, remarks, some delay, .ok what⟩, left)
    | .usual =>
      (⟨abort, remarks, some delay, left.usualAnswer habits.shelf due call⟩, left.send due call)

/-- The host is told an outcome. -/
def notice (habits : Habits τ) (performer : Performer τ) : Option Datum × Performer τ :=
  let count := performer.noticed + 1
  let reason := (habits.abortAt.filter fun (limit, _) ↦ limit == count).map Prod.snd
  (reason, { performer with noticed := count })

/-- A host that follows a script. -/
def host (habits : Habits τ) : Host (Performer τ) where
  reply := reply habits
  rest := fun _ performer ↦ (none, performer)
  notice := fun _ performer ↦ notice habits performer

end Performer

end BrowserFlow
