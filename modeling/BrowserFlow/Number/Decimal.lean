import BrowserFlow.Number.Binary
import BrowserFlow.Text.Basic

/-!
Numbers written in decimal. A finite number is written with the fewest digits
that read back as that number, and of those with the digits nearest to it. The
digits are found by exact integer arithmetic: a decimal reads back as a
magnitude when it lies between the midpoints to the two neighbouring magnitudes,
the midpoints included when the last binary place is even.
-/

set_option autoImplicit false
set_option relaxedAutoImplicit false

namespace BrowserFlow

namespace Magnitude

/-- The distance to the next smaller magnitude: the grain, halved below a power of two. -/
def grainBelow (units : Nat) : Nat :=
  if 1 < grain units ∧ units = Nat.pow 2 units.log2 then grain units / 2 else grain units

/-- A decimal: a natural number times a power of ten. -/
structure Decimal where
  /-- The digits read as one number. -/
  digits : Nat
  /-- The power of ten that they are multiplied with. -/
  exponent : Int
  deriving DecidableEq

namespace Decimal

/-- Numerator and denominator of a decimal counted in quarters of a unit. -/
def quarters (d : Decimal) : Nat × Nat :=
  if 0 ≤ d.exponent then (d.digits * Nat.pow 10 d.exponent.toNat * one * 4, 1)
  else (d.digits * one * 4, Nat.pow 10 (-d.exponent).toNat)

/-- The same decimal without zeros at the end of its digits. -/
def stripped (d : Decimal) : Decimal :=
  go (d.digits.log2 + 1) d
where
  /-- Takes zeros away as often as the count allows. -/
  go : Nat → Decimal → Decimal
    | 0, d => d
    | count + 1, d =>
      if d.digits ≠ 0 ∧ d.digits % 10 = 0 then go count ⟨d.digits / 10, d.exponent + 1⟩ else d

end Decimal

/-- Whether a decimal reads back as this magnitude. -/
def readsAs (units : Nat) (d : Decimal) : Bool :=
  let (num, den) := d.quarters
  let low := (4 * units - 2 * grainBelow units) * den
  let high := (4 * units + 2 * grain units) * den
  if units / grain units % 2 = 0 then low ≤ num && num ≤ high else low < num && num < high

/-- The distance of a decimal from a magnitude, over the denominator of its exponent. -/
def distance (units : Nat) (d : Decimal) : Nat :=
  let (num, den) := d.quarters
  ((4 * units * den : Nat) - (num : Int)).natAbs

/-- The place of the first digit: the least power of ten above the magnitude. No positive magnitude
begins behind the 330th place. -/
def scale (units : Nat) : Int :=
  ((Nat.repr (units * Nat.pow 10 330 / one)).length : Int) - 330

/-- The decimal just below or at a magnitude on the grid of a power of ten. -/
def floorOn (units : Nat) (exponent : Int) : Decimal :=
  if 0 ≤ exponent then ⟨units / (Nat.pow 10 exponent.toNat * one), exponent⟩
  else ⟨units * Nat.pow 10 (-exponent).toNat / one, exponent⟩

/-- The nearer of the two neighbours on a grid that reads back, if one does. -/
def nearestOn? (units : Nat) (exponent : Int) : Option Decimal :=
  let below := floorOn units exponent
  let above : Decimal := ⟨below.digits + 1, exponent⟩
  match readsAs units below, readsAs units above with
  | true, true =>
    let toBelow := distance units below
    let toAbove := distance units above
    if toBelow < toAbove then some below
    else if toAbove < toBelow then some above
    else if below.digits % 2 = 0 then some below else some above
  | true, false => some below
  | false, true => some above
  | false, false => none

/-- The shortest decimal of a positive magnitude: the coarsest of the first seventeen grids with
a decimal that reads back decides. -/
def shortest (units : Nat) : Decimal :=
  let place := scale units
  let found := (List.range 17).findSome? fun more ↦ nearestOn? units (place - (more + 1 : Nat))
  (found.getD (floorOn units (place - 17))).stripped

end Magnitude

namespace Number

/-- The digits of a positive magnitude laid out: positionally from a millionth up to below
10 to the power of 21, otherwise with one digit before the point and a signed exponent. -/
def layOut (d : Magnitude.Decimal) : Text :=
  let digits := Text.ofNat d.digits
  let count := digits.length
  let place : Int := d.exponent + count
  if (count : Int) ≤ place ∧ place ≤ 21 then
    digits ++ Text.repeated (place - count).toNat "0"
  else if 0 < place ∧ place ≤ 21 then
    ⟨digits.units.take place.toNat⟩ ++ "." ++ ⟨digits.units.drop place.toNat⟩
  else if -6 < place ∧ place ≤ 0 then
    "0." ++ Text.repeated (-place).toNat "0" ++ digits
  else
    let power := place - 1
    let sign : Text := if power < 0 then "-" else "+"
    let mantissa : Text :=
      if count = 1 then digits else ⟨digits.units.take 1⟩ ++ "." ++ ⟨digits.units.drop 1⟩
    mantissa ++ "e" ++ sign ++ Text.ofNat power.natAbs

/-- A number as text. Zero of either sign is written without one. -/
def toText : Number → Text
  | .nan => "NaN"
  | .infinite negative => if negative then "-Infinity" else "Infinity"
  | .finite negative size =>
    if size.units = 0 then "0"
    else (if negative then ("-" : Text) else "") ++ layOut (Magnitude.shortest size.units)

end Number

end BrowserFlow
