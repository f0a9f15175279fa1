/-!
Text as a sequence of 16-bit code units. Positions, lengths and the order of
texts count code units, and a surrogate may stand alone, so a text is a list of
units and not a list of characters. Main statements: an appended text has the
units of both parts, and a text broken at a mark is put together again by it.
-/

set_option autoImplicit false
set_option relaxedAutoImplicit false

namespace BrowserFlow

/-- A 16-bit code unit of a text. -/
abbrev CodeUnit := UInt16

namespace CodeUnit

/-- The single unit of a character of the basic plane. -/
def ofChar (c : Char) : CodeUnit := c.val.toUInt16

/-- The units of a character: one in the basic plane, a surrogate pair above it. -/
def encode (c : Char) : List CodeUnit :=
  let code := c.toNat
  if code < 0x10000 then [ofChar c]
  else
    let offset := code - 0x10000
    [(0xD800 + offset / 0x400).toUInt16, (0xDC00 + offset % 0x400).toUInt16]

/-- The first half of a surrogate pair. -/
def isHighSurrogate (u : CodeUnit) : Bool := 0xD800 ≤ u && u ≤ 0xDBFF

/-- The second half of a surrogate pair. -/
def isLowSurrogate (u : CodeUnit) : Bool := 0xDC00 ≤ u && u ≤ 0xDFFF

/-- A decimal digit of ASCII. -/
def isDigit (u : CodeUnit) : Bool := 0x30 ≤ u && u ≤ 0x39

/-- A lower-case letter of ASCII. -/
def isLower (u : CodeUnit) : Bool := 0x61 ≤ u && u ≤ 0x7A

/-- An upper-case letter of ASCII. -/
def isUpper (u : CodeUnit) : Bool := 0x41 ≤ u && u ≤ 0x5A

/-- A letter of ASCII. -/
def isLetter (u : CodeUnit) : Bool := u.isLower || u.isUpper

/-- The value of a digit unit. -/
def digitValue (u : CodeUnit) : Nat := u.toNat - 0x30

/-- The value of a digit in a base up to 36, letters of both cases standing for ten and above. -/
def valueInBase? (base : Nat) (u : CodeUnit) : Option Nat :=
  let value :=
    if u.isDigit then u.toNat - 0x30
    else if u.isLower then u.toNat - 0x61 + 10
    else if u.isUpper then u.toNat - 0x41 + 10
    else base
  if value < base then some value else none

end CodeUnit

instance : Coe Char CodeUnit := ⟨CodeUnit.ofChar⟩

/-- A text: its code units in order. -/
structure Text where
  /-- The code units. -/
  units : List CodeUnit
  deriving DecidableEq, Hashable, Inhabited

namespace Text

/-- The code units of a string. -/
def ofString (s : String) : Text := ⟨s.toList.flatMap CodeUnit.encode⟩

instance : Coe String Text := ⟨ofString⟩

instance : Append Text := ⟨fun first second ↦ ⟨first.units ++ second.units⟩⟩

@[simp] theorem units_append (first second : Text) :
    (first ++ second).units = first.units ++ second.units := rfl

/-- The empty text. -/
def empty : Text := ⟨[]⟩

/-- The number of code units. -/
def length (t : Text) : Nat := t.units.length

/-- Whether there is no code unit. -/
def isEmpty (t : Text) : Bool := t.units.isEmpty

/-- The characters of a list of units, each surrogate without its partner replaced. -/
def decode : List CodeUnit → List Char
  | [] => []
  | [u] => [if u.isHighSurrogate || u.isLowSurrogate then '\ufffd' else Char.ofNat u.toNat]
  | u :: v :: rest =>
    if u.isHighSurrogate && v.isLowSurrogate then
      Char.ofNat (0x10000 + (u.toNat - 0xD800) * 0x400 + (v.toNat - 0xDC00)) :: decode rest
    else if u.isHighSurrogate || u.isLowSurrogate then '\ufffd' :: decode (v :: rest)
    else Char.ofNat u.toNat :: decode (v :: rest)

/-- The string with these units; a surrogate without its partner becomes U+FFFD. -/
def toString (t : Text) : String := String.ofList (decode t.units)

/-- The number of octets of the string with these units. -/
def octets (t : Text) : Nat := t.toString.utf8ByteSize

instance : ToString Text := ⟨toString⟩

instance : Repr Text := ⟨fun t _ ↦ repr t.toString⟩

/-- The text with each surrogate that has no partner replaced by U+FFFD. -/
def mended (t : Text) : Text := ofString t.toString

/-- The decimal digits of a natural number. -/
def ofNat (n : Nat) : Text := ofString (Nat.repr n)

/-- The decimal digits of an integer, after a minus sign when it is negative. -/
def ofInt (n : Int) : Text :=
  if n < 0 then ofString "-" ++ ofNat n.natAbs else ofNat n.natAbs

/-- Texts put one after the other with a separator between neighbours. -/
def join (separator : Text) : List Text → Text
  | [] => empty
  | [t] => t
  | t :: rest => t ++ separator ++ join separator rest

/-- Texts put one after the other. -/
def concat (parts : List Text) : Text := ⟨parts.flatMap units⟩

/-- A text repeated a number of times. -/
def repeated (count : Nat) (t : Text) : Text := concat (List.replicate count t)

/-- Spaces in front of a text until it has the wanted length. -/
def padStart (width : Nat) (fill : CodeUnit) (t : Text) : Text :=
  ⟨List.replicate (width - t.length) fill ++ t.units⟩

/-- Fill behind a text until it has the wanted length. -/
def padEnd (width : Nat) (fill : CodeUnit) (t : Text) : Text :=
  ⟨t.units ++ List.replicate (width - t.length) fill⟩

/-- Whether a text begins with another. -/
def startsWith (t beginning : Text) : Bool := beginning.units.isPrefixOf t.units

/-- Whether a text ends with another. -/
def endsWith (t ending : Text) : Bool := ending.units.isSuffixOf t.units

/-! ### Breaking a text at a mark -/

/-- The units before the first occurrence of a mark and those after it. -/
def breakOn? (mark : List CodeUnit) : List CodeUnit → Option (List CodeUnit × List CodeUnit)
  | [] => if mark.isEmpty then some ([], []) else none
  | u :: rest =>
    if mark.isPrefixOf (u :: rest) then some ([], (u :: rest).drop mark.length)
    else (breakOn? mark rest).map fun (before, after) ↦ (u :: before, after)

/-- What was broken at a mark is put together again by the mark. -/
theorem eq_of_breakOn? {mark units before after : List CodeUnit}
    (h : breakOn? mark units = some (before, after)) : units = before ++ mark ++ after := by
  induction units generalizing before with
  | nil =>
    simp only [breakOn?] at h
    split at h
    · simp_all
    · simp at h
  | cons u rest ih =>
    simp only [breakOn?] at h
    split at h
    · next start =>
      obtain ⟨tail, htail⟩ := List.isPrefixOf_iff_prefix.mp start
      simp only [Option.some.injEq, Prod.mk.injEq] at h
      rw [← h.1, ← h.2, ← htail]
      simp
    · obtain ⟨⟨b, a⟩, hb, hpair⟩ := Option.map_eq_some_iff.mp h
      obtain ⟨rfl, rfl⟩ := Prod.mk.inj hpair
      rw [ih hb]
      simp

/-- Whether a text occurs somewhere in another. -/
def contains (t part : Text) : Bool := (breakOn? part.units t.units).isSome

/-- The pieces of a list of units between the occurrences of one unit. -/
def splitUnits (separator : CodeUnit) : List CodeUnit → List (List CodeUnit)
  | [] => [[]]
  | u :: rest =>
    match splitUnits separator rest with
    | [] => [[u]]
    | piece :: pieces => if u = separator then [] :: piece :: pieces else (u :: piece) :: pieces

/-- The pieces of a text between the occurrences of one unit. -/
def splitOn (t : Text) (separator : CodeUnit) : List Text :=
  (splitUnits separator t.units).map Text.mk

/-! ### Order -/

/-- The order of two lists of units: that of the first units in which they differ, and a
beginning comes before what it begins. -/
def compareUnits : List CodeUnit → List CodeUnit → Ordering
  | [], [] => .eq
  | [], _ :: _ => .lt
  | _ :: _, [] => .gt
  | u :: us, v :: vs => if u < v then .lt else if v < u then .gt else compareUnits us vs

instance : Ord Text := ⟨fun first second ↦ compareUnits first.units second.units⟩

/-- Whether a text stands before another. -/
def precedes (first second : Text) : Bool := compare first second == .lt

end Text

end BrowserFlow
