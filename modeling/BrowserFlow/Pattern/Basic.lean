import BrowserFlow.Text.Blank

/-!
Patterns of text. A pattern is a tree over single code units: choices, groups
that remember what they matched, repetitions that prefer more or fewer rounds,
assertions about the place, looks ahead and behind, and references to what a
group matched.
-/

set_option autoImplicit false
set_option relaxedAutoImplicit false

namespace BrowserFlow

/-- A class of units: ranges with both ends included, possibly all units outside of them. -/
structure UnitClass where
  /-- Whether the class holds what the ranges do not. -/
  negated : Bool
  /-- The first and the last unit of each range. -/
  ranges : List (CodeUnit × CodeUnit)

namespace UnitClass

/-- Whether a unit is in a class. -/
def holds (c : UnitClass) (u : CodeUnit) : Bool :=
  c.ranges.any (fun (low, high) ↦ low ≤ u && u ≤ high) != c.negated

/-- The decimal digits. -/
def digits : List (CodeUnit × CodeUnit) := [(0x30, 0x39)]

/-- The units of words: letters, digits and the low line of ASCII. -/
def wordUnits : List (CodeUnit × CodeUnit) :=
  [(0x30, 0x39), (0x41, 0x5A), (0x5F, 0x5F), (0x61, 0x7A)]

/-- White space, line ends included. -/
def blanks : List (CodeUnit × CodeUnit) :=
  [(0x09, 0x0D), (0x20, 0x20), (0xA0, 0xA0), (0x1680, 0x1680), (0x2000, 0x200A), (0x2028, 0x2029),
    (0x202F, 0x202F), (0x205F, 0x205F), (0x3000, 0x3000), (0xFEFF, 0xFEFF)]

/-- The ends of lines. -/
def lineEnds : List (CodeUnit × CodeUnit) := [(0x0A, 0x0A), (0x0D, 0x0D), (0x2028, 0x2029)]

/-- The ranges between ascending ranges. -/
def complement (ranges : List (CodeUnit × CodeUnit)) : List (CodeUnit × CodeUnit) :=
  go 0 ranges
where
  /-- The ranges from a unit on. -/
  go (next : Nat) : List (CodeUnit × CodeUnit) → List (CodeUnit × CodeUnit)
    | [] => if next ≤ 0xFFFF then [(next.toUInt16, 0xFFFF)] else []
    | (low, high) :: rest =>
      if next < low.toNat then (next.toUInt16, low - 1) :: go (high.toNat + 1) rest
      else go (high.toNat + 1) rest

end UnitClass

/-- A pattern. -/
inductive Pattern where
  /-- Nothing. -/
  | empty
  /-- One unit of a class. -/
  | unit (units : UnitClass)
  /-- One pattern behind another. -/
  | chain (first second : Pattern)
  /-- The first of two patterns, or else the second. -/
  | choice (first second : Pattern)
  /-- A pattern whose match is remembered under a number. -/
  | group (number : Nat) (inner : Pattern)
  /-- A pattern several times, the groups in it numbered from `first` on, `count` of them. -/
  | rounds (least : Nat) (most : Option Nat) (greedy : Bool) (first count : Nat) (inner : Pattern)
  /-- The beginning of the text. -/
  | atStart
  /-- The end of the text. -/
  | atEnd
  /-- A place where a word begins or ends, or none. -/
  | wordEdge (negated : Bool)
  /-- Whether a pattern matches ahead of the place or behind it, without moving. -/
  | look (behind negated : Bool) (first count : Nat) (inner : Pattern)
  /-- What a group matched. -/
  | recall (number : Nat)

end BrowserFlow
