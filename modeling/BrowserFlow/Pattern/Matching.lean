import BrowserFlow.Pattern.Reading

/-!
Whether a pattern matches somewhere in a text. The search tries the places of a
text from left to right and, at each, the alternatives in their order of
preference: what follows a part of the pattern is passed on as a continuation,
and a part that fails falls back to its next alternative. A round of a
repetition that matches nothing is no round once the least number is reached,
so the rounds at one place are bounded, and with them the depth of a search.
-/

set_option autoImplicit false
set_option relaxedAutoImplicit false

namespace BrowserFlow.Pattern

/-- A place in the text with what the groups have matched up to there. -/
structure Place where
  /-- The number of units before it. -/
  position : Nat
  /-- First unit and end of each group's match, by group number. -/
  groups : List (Nat × Nat × Nat)

namespace Place

/-- What a group has matched. -/
def match? (p : Place) (number : Nat) : Option (Nat × Nat) :=
  (p.groups.find? (·.1 == number)).map Prod.snd

/-- The place with the matches of some groups forgotten. -/
def forget (p : Place) (first count : Nat) : Place :=
  { p with groups := p.groups.filter fun (number, _) ↦ number < first || first + count ≤ number }

/-- The place with the match of a group remembered. -/
def remember (p : Place) (number start stop : Nat) : Place :=
  { p with groups := (number, start, stop) :: p.groups.filter (·.1 != number) }

end Place

/-- How deep a search through a pattern can go at one place of a text. -/
def weight : Pattern → Nat
  | .chain first second => first.weight + second.weight + 1
  | .choice first second => first.weight + second.weight + 1
  | .group _ inner => inner.weight + 2
  | .rounds least _ _ _ _ inner => (inner.weight + 2) * (least + 2)
  | .look _ _ _ _ inner => inner.weight + 1
  | _ => 1

/-- Whether a unit belongs to a word. -/
def isWordUnit (u : CodeUnit) : Bool := u.isLetter || u.isDigit || u == '_'

/-- Whether the unit at a position belongs to a word. -/
def wordAt (text : Array CodeUnit) (position : Nat) : Bool :=
  match text[position]? with
  | some u => isWordUnit u
  | none => false

/-- The place behind a unit of a class, reading forwards or backwards. -/
def step? (text : Array CodeUnit) (backwards : Bool) (units : UnitClass) (p : Place) :
    Option Place :=
  if backwards then
    match p.position with
    | 0 => none
    | before + 1 =>
      match text[before]? with
      | some u => if units.holds u then some { p with position := before } else none
      | none => none
  else
    match text[p.position]? with
    | some u => if units.holds u then some { p with position := p.position + 1 } else none
    | none => none

/-- The place behind a repetition of earlier units. -/
def remembered? (text : Array CodeUnit) (backwards : Bool) (start stop : Nat) (p : Place) :
    Option Place :=
  let length := stop - start
  let earlier := text.extract start stop
  if backwards then
    if length ≤ p.position && text.extract (p.position - length) p.position == earlier then
      some { p with position := p.position - length }
    else none
  else if text.extract p.position (p.position + length) == earlier then
    some { p with position := p.position + length }
  else none

/-- Matches a pattern at a place and goes on with what follows; the first number bounds the
depth. -/
def matchAt (text : Array CodeUnit) :
    Nat → Bool → Pattern → Place → (Place → Option Place) → Option Place
  | 0, _, _, _, _ => none
  | fuel + 1, backwards, pattern, p, onward =>
    match pattern with
    | .empty => onward p
    | .unit units =>
      match step? text backwards units p with
      | some next => onward next
      | none => none
    | .chain first second =>
      let (earlier, later) := if backwards then (second, first) else (first, second)
      matchAt text fuel backwards earlier p fun next ↦ matchAt text fuel backwards later next onward
    | .choice first second =>
      match matchAt text fuel backwards first p onward with
      | some found => some found
      | none => matchAt text fuel backwards second p onward
    | .group number inner =>
      matchAt text fuel backwards inner p fun next ↦
        onward (if backwards then next.remember number next.position p.position
          else next.remember number p.position next.position)
    | .rounds least most greedy first count inner =>
      if most = some 0 then onward p
      else
        let round : Unit → Option Place := fun _ ↦
          matchAt text fuel backwards inner (p.forget first count) fun next ↦
            if least = 0 && next.position == p.position then none
            else
              matchAt text fuel backwards
                (.rounds (least - 1) (most.map (· - 1)) greedy first count inner) next onward
        if 0 < least then round ()
        else if greedy then
          match round () with
          | some found => some found
          | none => onward p
        else
          match onward p with
          | some found => some found
          | none => round ()
    | .atStart => if p.position = 0 then onward p else none
    | .atEnd => if p.position = text.size then onward p else none
    | .wordEdge negated =>
      let before := match p.position with
        | 0 => false
        | previous + 1 => wordAt text previous
      if (before != wordAt text p.position) != negated then onward p else none
    | .look behind negated first count inner =>
      match matchAt text fuel behind inner p some with
      | some found =>
        if negated then none else onward { found with position := p.position }
      | none => if negated then onward (p.forget first count) else none
    | .recall number =>
      match p.match? number with
      | none => onward p
      | some (start, stop) =>
        match remembered? text backwards start stop p with
        | some next => onward next
        | none => none

/-- Whether a pattern matches somewhere in a text. -/
def occursIn (pattern : Pattern) (subject : Text) : Bool :=
  let text := subject.units.toArray
  let depth := (pattern.weight + 2) * (text.size + 2) * 2
  (List.range (text.size + 1)).any fun start ↦
    (matchAt text depth false pattern ⟨start, []⟩ some).isSome

end BrowserFlow.Pattern
