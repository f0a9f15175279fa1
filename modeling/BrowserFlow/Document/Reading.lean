import BrowserFlow.Document.Checked
import BrowserFlow.Workflow.Basic

/-!
Workflows read from documents. Every form takes exactly its members, and every
member is read even when others have issues. Values of variables and operands
are plain data; conditions, loops and steps nest to any depth, and reading them
ends because a member is smaller than what it is a member of.
-/

set_option autoImplicit false
set_option relaxedAutoImplicit false

namespace BrowserFlow.Document

open Checked

/-! ### Values -/

mutual

/-- The value that a datum is, if it is plain data. -/
def value? : Datum → Option Value
  | .null => some .null
  | .bool b => some (.bool b)
  | .number x => if x = .nan then none else some (.number x)
  | .text t => some (.text t)
  | .sequence items => do some (.sequence (← values? items))
  | .object own inherited => do
    let first ← entries? [] own
    let all ← entriesBehind? first own inherited
    some (.mapping all)
  | .bytes octets => some (.mapping (Datum.octetEntries octets))
  | .buffer octets => some (.mapping (Datum.octetEntries octets))
  | .pattern _ => some (.mapping [])
  | .failure f => some (.mapping f.entries)
  | _ => none

/-- The values that data are. -/
def values? : List Datum → Option (List Value)
  | [] => some []
  | item :: rest => do
    let first ← value? item
    some (first :: (← values? rest))

/-- The entries that the members of an object are, assigned to those that are done. -/
def entries? (done : Entries Value) : List (Text × Datum) → Option (Entries Value)
  | [] => some done
  | (key, x) :: rest => do
    let value ← value? x
    entries? (done.assign key value) rest

/-- The same for the members of an ancestor, without those that the object covers. -/
def entriesBehind? (done : Entries Value) (own : List (Text × Datum)) :
    List (Text × Datum) → Option (Entries Value)
  | [] => some done
  | (key, x) :: rest => do
    let value ← value? x
    if Entries.has own key then entriesBehind? done own rest
    else entriesBehind? (done.assign key value) own rest

end

/-- A value. -/
def value (d : Datum) : Checked Value :=
  match value? d with
  | some v => ok v
  | none => refused .noAlternative

/-! ### Conditions -/

/-- The members that every object inherits; under these names a relation is looked up in vain and
something that is no text is found. -/
def inheritedNames : List (Text × Text) :=
  [("constructor", "function"), ("hasOwnProperty", "function"), ("isPrototypeOf", "function"),
    ("propertyIsEnumerable", "function"), ("toLocaleString", "function"), ("toString", "function"),
    ("valueOf", "function"), ("__defineGetter__", "function"), ("__defineSetter__", "function"),
    ("__lookupGetter__", "function"), ("__lookupSetter__", "function"), ("__proto__", "object")]

/-- The signs that stand for relations. -/
def signs : List (Text × Relation) :=
  [("==", .equals), ("!=", .notEquals), ("<", .lessThan), ("<=", .lessThanOrEquals),
    (">", .greaterThan), (">=", .greaterThanOrEquals)]

/-- The relations by their names. -/
def relations : List (Text × Relation) := Relation.all.map fun r ↦ (r.name, r)

/-- A relation by its sign or its name. -/
def relation (d : Datum) : Checked Relation :=
  match d with
  | .text t =>
    match Entries.find? signs t with
    | some r => ok r
    | none =>
      match Entries.find? inheritedNames t with
      | some found => refused (.wrongType (Flaw.quotedChoice (relations.map Prod.fst)) found)
      | none => word relations d
  | _ => word relations d

/-- Whether a comparison has the operands that its relation needs. -/
def hasOperands (c : Comparison) : Bool := c.relation.isUnary || c.right.isSome

/-- The issue of a comparison that lacks its right operand. -/
def requireRight (c : Checked Comparison) : Checked Comparison :=
  match c.value? with
  | some found =>
    if hasOperands found then c
    else { c with issues := c.issues ++ [⟨[.key "right"], .missingRight found.relation⟩] }
  | none => c

/-- A comparison. -/
def comparison (d : Datum) : Checked Comparison :=
  requireRight <| form ["operator", "left", "right"] d <|
    Comparison.mk <$> field d "operator" relation <*> field d "left" value
      <*> field d "right" (optional value)

/-- The conditions under a key, given how to read each. -/
def conditionList (d : Datum) (key : Text) (parts : Checked (List Condition)) :
    Checked (List Condition) :=
  form [key] d ((nonempty parts).within (.key key))

/-- A condition. -/
def condition (d : Datum) : Checked Condition :=
  let all : Checked (List Condition) :=
    match h : d.member "all" with
    | .sequence ds => items (ds.attach.map fun ⟨x, hx⟩ ↦
        have : sizeOf x < sizeOf d := Datum.sizeOf_item_lt h hx
        condition x)
    | other => refused (.wrongType "array" other.typeName)
  let any : Checked (List Condition) :=
    match h : d.member "any" with
    | .sequence ds => items (ds.attach.map fun ⟨x, hx⟩ ↦
        have : sizeOf x < sizeOf d := Datum.sizeOf_item_lt h hx
        condition x)
    | other => refused (.wrongType "array" other.typeName)
  let inner : Checked Condition :=
    if h : (d.member "not").isAbsent then refused .noAlternative
    else
      have : sizeOf (d.member "not") < sizeOf d :=
        Datum.sizeOf_member_lt fun heq ↦ h (by rw [heq]; rfl)
      condition (d.member "not")
  firstOf
    [Condition.compare <$> comparison d,
      Condition.all <$> conditionList d "all" all,
      Condition.any <$> conditionList d "any" any,
      Condition.not <$> form ["not"] d (inner.within (.key "not"))]
termination_by sizeOf d

/-! ### Loops -/

/-- A number, or a text that is not empty. -/
def amount (d : Datum) : Checked Amount :=
  firstOf [Amount.number <$> number d, Amount.template <$> text false true d]

/-- A text that is not empty. -/
def someText (d : Datum) : Checked Text := text false true d

/-- A positive integer. -/
def positiveInteger (d : Datum) : Checked Number :=
  require (fun x ↦ Number.lt 0 x) (.notAbove 0) (require Number.isInteger .notInteger (number d))

/-- The items of a loop: a template, or values. -/
def loopItems (d : Datum) : Checked Value :=
  firstOf [Value.text <$> someText d, Value.sequence <$> sequence value d]

/-- The form that a member names. -/
def formOf? {α : Type} (forms : List (Text × α)) (d : Datum) : Option α :=
  match d with
  | .text t => Entries.find? forms t
  | _ => none

/-- The four loops by their names. -/
def loopForms : List (Text × (Datum → Checked Iteration)) :=
  [("while", fun d ↦ form ["type", "condition", "max_iterations"] d <|
      Iteration.whileHolds <$> field d "condition" condition
        <*> field d "max_iterations" (optional positiveInteger)),
    ("for", fun d ↦ form ["type", "variable", "start", "end", "step"] d <|
      Iteration.range <$> field d "variable" someText <*> field d "start" amount
        <*> field d "end" amount <*> field d "step" (optional amount)),
    ("for_each", fun d ↦ form ["type", "variable", "items"] d <|
      Iteration.forEach <$> field d "variable" someText <*> field d "items" loopItems),
    ("repeat", fun d ↦ form ["type", "times", "variable"] d <|
      Iteration.times <$> field d "times" amount <*> field d "variable" (optional someText))]

/-- How a loop repeats its body. -/
def iteration (d : Datum) : Checked Iteration :=
  if d.isObject then
    match formOf? loopForms (d.member "type") with
    | some read => read d
    | none => (refused (.unknownForm (loopForms.map Prod.fst))).within (.key "type")
  else refused (.wrongType "object" d.typeName)

/-! ### Steps -/

/-- The longest delay that timers honour, in whole seconds. -/
def longestDelay : Number := 2147483

/-- How often a step is tried. -/
def retryPlan (d : Datum) : Checked RetryPlan :=
  form ["max_attempts", "delay_seconds"] d <|
    RetryPlan.mk
      <$> field d "max_attempts" (fun x ↦
        require (fun n ↦ Number.le 1 n) (.below 1)
          (require Number.isInteger .notInteger (number x)))
      <*> field d "delay_seconds" (fun x ↦
        require (fun n ↦ Number.le n longestDelay) (.above longestDelay)
          (require (fun n ↦ Number.le 0 n) (.below 0) (number x)))

/-- The policies by their names. -/
def policies : List (Text × Recovery) :=
  [("fail", .fail), ("retry", .retry), ("continue", .continue)]

/-- A number of seconds that a collaborator may take. -/
def timeout (d : Datum) : Checked Number :=
  require (fun n ↦ Number.le n longestDelay) (.above longestDelay)
    (require (fun n ↦ Number.lt 0 n) (.notAbove 0) (number d))

/-- The keys of what every step has. -/
def headerKeys : List Text :=
  ["name", "description", "on_error", "retry", "timeout", "condition", "action"]

/-- The further keys of a branch. -/
def branchKeys : List Text := ["value", "steps", "else_steps"]

/-- The further keys of a loop. -/
def loopKeys : List Text := ["value", "steps"]

/-- What every step has. -/
def header (d : Datum) : Checked StepHeader :=
  StepHeader.mk <$> field d "name" (text true true)
    <*> field d "description" (optional (text false false))
    <*> field d "on_error" (optional (word policies)) <*> field d "retry" (optional retryPlan)
    <*> field d "timeout" (optional timeout) <*> field d "condition" (optional condition)

/-- What is typed into a field. -/
def typed (d : Datum) : Checked Typed :=
  firstOf [Typed.template <$> text false false d, Typed.number <$> number d, Typed.bool <$> bool d]

/-- Files to upload. -/
def uploads (d : Datum) : Checked Uploads :=
  firstOf [Uploads.single <$> someText d, Uploads.several <$> nonempty (sequence someText d)]

/-- The members of an action, with their keys. -/
structure ActionForm where
  /-- The keys besides those that every step has. -/
  keys : List Text
  /-- How the members are read. -/
  read : Datum → Checked Action

/-- The form of the actions of a kind; branches and loops are no actions. -/
def actionForm? : ActionKind → Option ActionForm
  | .navigate => some ⟨["value"], fun d ↦ Action.navigate <$> field d "value" someText⟩
  | .click => some ⟨["selector"], fun d ↦ Action.click <$> field d "selector" someText⟩
  | .hover => some ⟨["selector"], fun d ↦ Action.hover <$> field d "selector" someText⟩
  | .type => some ⟨["selector", "value"], fun d ↦
      Action.type <$> field d "selector" someText <*> field d "value" typed⟩
  | .wait => some ⟨["value"], fun d ↦ Action.wait <$> field d "value" (optional amount)⟩
  | .waitFor => some ⟨["selector"], fun d ↦ Action.waitFor <$> field d "selector" someText⟩
  | .extract => some ⟨["selector", "value"], fun d ↦
      Action.extract <$> field d "selector" someText
        <*> field d "value" (optional (record (text false false)))⟩
  | .getText => some ⟨["selector"], fun d ↦ Action.getText <$> field d "selector" someText⟩
  | .getAttribute => some ⟨["selector", "value"], fun d ↦
      Action.getAttribute <$> field d "selector" someText <*> field d "value" someText⟩
  | .evaluate => some ⟨["value"], fun d ↦ Action.evaluate <$> field d "value" someText⟩
  | .executeScript => some ⟨["value"], fun d ↦ Action.executeScript <$> field d "value" someText⟩
  | .screenshot => some ⟨["value"], fun d ↦
      Action.screenshot <$> field d "value" (optional someText)⟩
  | .save => some ⟨["value", "data"], fun d ↦
      Action.save <$> field d "value" someText <*> field d "data" (optional value)⟩
  | .load => some ⟨["value"], fun d ↦ Action.load <$> field d "value" someText⟩
  | .setVariable => some ⟨["selector", "value", "append"], fun d ↦
      Action.setVariable <$> field d "selector" someText <*> field d "value" value
        <*> field d "append" (optional bool)⟩
  | .setInputFiles => some ⟨["selector", "value"], fun d ↦
      Action.setInputFiles <$> field d "selector" someText <*> field d "value" uploads⟩
  | .stop => some ⟨["value"], fun d ↦ Action.stop <$> field d "value" (optional someText)⟩
  | .branch => none
  | .loop => none

/-- The kinds of steps by their names. -/
def kinds : List (Text × ActionKind) := ActionKind.all.map fun k ↦ (k.name, k)

/-- A list of steps, given how its members are read. -/
def stepList (d : Datum) (parts : List (Checked Step)) : Checked (List Step) :=
  match d with
  | .sequence _ => items parts
  | other => refused (.wrongType "array" other.typeName)

/-- A step. -/
def step (d : Datum) : Checked Step :=
  if d.isObject then
    match formOf? kinds (d.member "action") with
    | none => (refused (.unknownForm (kinds.map Prod.fst))).within (.key "action")
    | some kind =>
      match actionForm? kind with
      | some action =>
        form (headerKeys ++ action.keys) d (Step.act <$> header d <*> action.read d)
      | none =>
        let body : List (Checked Step) :=
          match h : d.member "steps" with
          | .sequence ds => ds.attach.map fun ⟨x, hx⟩ ↦
            have : sizeOf x < sizeOf d := Datum.sizeOf_item_lt h hx
            step x
          | _ => []
        let otherwise : List (Checked Step) :=
          match h : d.member "else_steps" with
          | .sequence ds => ds.attach.map fun ⟨x, hx⟩ ↦
            have : sizeOf x < sizeOf d := Datum.sizeOf_item_lt h hx
            step x
          | _ => []
        let steps := field d "steps" fun x ↦ nonempty (stepList x body)
        if kind = .branch then
          form (headerKeys ++ branchKeys) d <|
            Step.branch <$> header d <*> field d "value" condition <*> steps
              <*> field d "else_steps" (optional fun x ↦ stepList x otherwise)
        else
          form (headerKeys ++ loopKeys) d <|
            Step.loop <$> header d <*> field d "value" iteration <*> steps
  else refused (.wrongType "object" d.typeName)
termination_by sizeOf d

/-! ### Workflows -/

/-- The version of a workflow: a text, or a number in its place. -/
def version (d : Datum) : Checked Text :=
  firstOf [text true true d, Number.toText <$> number d]

/-- A workflow. -/
def workflow (d : Datum) : Checked Workflow :=
  form ["name", "version", "description", "variables", "steps"] d <|
    Workflow.mk <$> field d "name" (text true true) <*> field d "version" version
      <*> field d "description" (optional (text false false))
      <*> field d "variables" (optional (record value))
      <*> field d "steps" (fun x ↦ nonempty (sequence step x))

end BrowserFlow.Document
