import BrowserFlow.Expression.Evaluation
import BrowserFlow.Expression.Reading

/-!
Templates: text with placeholders in double braces. A placeholder opens at the
first pair of opening braces and ends at the first pair of closing ones behind
it, and between them stands an expression. A text that is one placeholder and
nothing else stands for the value of its expression; any other template stands
for a text, and what its expressions insert is not read again.
-/

set_option autoImplicit false
set_option relaxedAutoImplicit false

namespace BrowserFlow

/-- A part of a template. -/
inductive Part where
  /-- Text that stands for itself. -/
  | text (t : Text)
  /-- A placeholder. -/
  | placeholder (expression : Expression)
  deriving Inhabited

namespace Template

/-- The two units that open a placeholder. -/
def opening : List CodeUnit := [0x7B, 0x7B]

/-- The two units that close a placeholder. -/
def closing : List CodeUnit := [0x7D, 0x7D]

/-- Whether a placeholder opens in a text. -/
def hasPlaceholder (source : Text) : Bool := (Text.breakOn? opening source.units).isSome

/-- A part for text, if there is text. -/
def textPart (units : List CodeUnit) : List Part := if units.isEmpty then [] else [.text ⟨units⟩]

/-- The expression between braces that open at a position. -/
def readBody (position : Nat) (body : List CodeUnit) : Except TemplateFlaw Expression :=
  if Text.isBlank ⟨body⟩ then .error (.emptyPlaceholder position)
  else if (Text.breakOn? opening body).isSome then .error (.nestedPlaceholder position)
  else Expression.read ⟨body⟩

/-- The parts of the units from a position on. -/
def readParts (position : Nat) (units : List CodeUnit) : Except TemplateFlaw (List Part) :=
  match _opened : Text.breakOn? opening units with
  | none => .ok (textPart units)
  | some (before, inside) =>
    match _closed : Text.breakOn? closing inside with
    | none => .error (.unterminatedPlaceholder (position + before.length))
    | some (body, after) => do
      let expression ← readBody (position + before.length) body
      let others ← readParts (position + before.length + body.length + 4) after
      .ok (textPart before ++ .placeholder expression :: others)
termination_by units.length
decreasing_by
  have hopen := congrArg List.length (Text.eq_of_breakOn? _opened)
  have hbody := congrArg List.length (Text.eq_of_breakOn? _closed)
  simp [opening, closing] at hopen hbody
  omega

/-- The parts of a template. -/
def read (source : Text) : Except Fault (List Part) :=
  match readParts 0 source.units with
  | .ok parts => .ok parts
  | .error flaw => .error (.template source flaw)

/-- The text of one part. -/
def Part.render (scope : Scope) : Part → Except Fault Text
  | .text t => .ok t
  | .placeholder expression => do .ok (← expression.evaluate scope).toText

/-- The texts of parts put together. -/
def renderAll (scope : Scope) : List Part → Except Fault Text
  | [] => .ok Text.empty
  | part :: rest => do
    let first ← Part.render scope part
    let others ← renderAll scope rest
    .ok (first ++ others)

/-- The value that parts stand for. -/
def evaluateParts (scope : Scope) : List Part → Except Fault Value
  | [.placeholder expression] => expression.evaluate scope
  | parts => do .ok (.text (← renderAll scope parts))

/-- The value that a text stands for. -/
def resolve (scope : Scope) (source : Text) : Except Fault Value :=
  if hasPlaceholder source then do evaluateParts scope (← read source) else .ok (.text source)

/-- The text that a text stands for. -/
def interpolate (scope : Scope) (source : Text) : Except Fault Text := do
  .ok (← resolve scope source).toText

end Template

/-- A number, or a template that stands for one. -/
inductive Amount where
  /-- A number that is written out. -/
  | number (x : Number)
  /-- A text. -/
  | template (source : Text)
  deriving DecidableEq

namespace Amount

/-- The finite number that a text denotes; a blank text denotes none. -/
def numeral? (t : Text) : Option Number :=
  if t.isBlank then none
  else (Number.ofText? t).filter Number.isFinite

/-- The number that an amount stands for; the label names it in a fault. -/
def resolve (scope : Scope) (label : Text) : Amount → Except Fault Number
  | .number x => .ok x
  | .template source => do
    match ← Template.resolve scope source with
    | .number x => .ok x
    | .text t =>
      match numeral? t with
      | some x => .ok x
      | none => .error (.mismatch (.notANumber label (.text t)))
    | other => .error (.mismatch (.notANumber label other))

/-- An amount as a value. -/
def toValue : Amount → Value
  | .number x => .number x
  | .template source => .text source

end Amount

namespace Value

mutual

/-- A value with each of its texts replaced by what it stands for. -/
def resolve (scope : Scope) : Value → Except Fault Value
  | .text source => Template.resolve scope source
  | .sequence items => do .ok (.sequence (← resolveItems scope items))
  | .mapping entries => do .ok (.mapping (← resolveEntries scope [] entries))
  | .null => .ok .null
  | .bool b => .ok (.bool b)
  | .number x => .ok (.number x)

/-- The items of a sequence, resolved in their order. -/
def resolveItems (scope : Scope) : List Value → Except Fault (List Value)
  | [] => .ok []
  | item :: rest => do
    let first ← resolve scope item
    .ok (first :: (← resolveItems scope rest))

/-- The entries of a mapping, resolved in their order and assigned to those that are done. -/
def resolveEntries (scope : Scope) (done : Entries Value) :
    List (Text × Value) → Except Fault (Entries Value)
  | [] => .ok done
  | (key, value) :: rest => do
    let resolved ← resolve scope value
    resolveEntries scope (done.assign key resolved) rest

end

mutual

/-- The templates in a value, from left to right. -/
def templates : Value → List Text
  | .text source => if Template.hasPlaceholder source then [source] else []
  | .sequence items => templatesOfItems items
  | .mapping entries => templatesOfEntries entries
  | _ => []

/-- The templates in the items of a sequence. -/
def templatesOfItems : List Value → List Text
  | [] => []
  | item :: rest => templates item ++ templatesOfItems rest

/-- The templates in the entries of a mapping. -/
def templatesOfEntries : List (Text × Value) → List Text
  | [] => []
  | (_, value) :: rest => templates value ++ templatesOfEntries rest

end

end Value

end BrowserFlow
