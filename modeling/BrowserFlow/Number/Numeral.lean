import BrowserFlow.Number.Binary
import BrowserFlow.Text.Blank

/-!
Numbers read from text. A decimal numeral has digits on at least one side of an
optional point and an optional exponent, and reads as the number nearest to it.
A whole text reads as a number when, white space at its ends apart, it is a
signed decimal numeral, a signed `Infinity`, or unsigned digits in base sixteen,
eight or two after `0x`, `0o` or `0b`; blank text reads as zero.
-/

set_option autoImplicit false
set_option relaxedAutoImplicit false

namespace BrowserFlow

namespace Number

/-- The number nearest to digits times a power of ten. Exponents beyond the range of the format
are answered without computing the power. -/
def ofDecimal (negative : Bool) (digits : Nat) (exponent : Int) : Number :=
  if digits = 0 then zero negative
  else if 400 < exponent then .infinite negative
  else if exponent < -(400 + digits.log2 : Int) then zero negative
  else if 0 ≤ exponent then
    ofQuotient negative (digits * Nat.pow 10 exponent.toNat * Magnitude.one) 1
  else ofQuotient negative (digits * Magnitude.one) (Nat.pow 10 (-exponent).toNat)

/-- The value of a list of digit units in a base. -/
def digitsValue (base : Nat) (digits : List CodeUnit) : Nat :=
  digits.foldl (fun value u ↦ value * base + (u.valueInBase? base).getD 0) 0

/-- The longest list of digits at the beginning, and the rest. -/
def takeDigits (units : List CodeUnit) : List CodeUnit × List CodeUnit :=
  units.span CodeUnit.isDigit

/-- The exponent at the beginning of what follows the digits, and the rest; a mark that no digit
follows is not an exponent. -/
def takeExponent (units : List CodeUnit) : Int × List CodeUnit :=
  match units with
  | e :: rest =>
    if e = 'e' || e = 'E' then
      let (negative, unsigned) := match rest with
        | s :: more =>
          if s = '-' then (true, more) else if s = '+' then (false, more) else (false, rest)
        | [] => (false, rest)
      let (digits, after) := takeDigits unsigned
      if digits.isEmpty then (0, units)
      else
        let value : Int := digitsValue 10 digits
        (if negative then -value else value, after)
    else (0, units)
  | [] => (0, units)

/-- The unsigned decimal numeral at the beginning and the rest, if there is one. -/
def takeDecimal? (negative : Bool) (units : List CodeUnit) : Option (Number × List CodeUnit) :=
  let (whole, afterWhole) := takeDigits units
  let (fraction, afterFraction) := match afterWhole with
    | point :: rest => if point = '.' then takeDigits rest else ([], afterWhole)
    | [] => ([], afterWhole)
  if whole.isEmpty && fraction.isEmpty then none
  else
    let (exponent, rest) := takeExponent afterFraction
    some (ofDecimal negative (digitsValue 10 (whole ++ fraction)) (exponent - fraction.length),
      rest)

/-- A whole list of units as a decimal numeral or `Infinity` without a sign. -/
def unsigned? (negative : Bool) (units : List CodeUnit) : Option Number :=
  if units = (Text.ofString "Infinity").units then some (.infinite negative)
  else match takeDecimal? negative units with
    | some (x, []) => some x
    | _ => none

/-- A whole list of units as digits of a base. -/
def inBase? (base : Nat) (digits : List CodeUnit) : Option Number :=
  if digits.isEmpty || digits.any (fun u ↦ (u.valueInBase? base).isNone) then none
  else some (ofNat (digitsValue base digits))

/-- The number that a text denotes, if it denotes one. -/
def ofText? (t : Text) : Option Number :=
  match t.trim.units with
  | [] => some (zero false)
  | first :: rest =>
    if first = '-' then unsigned? true rest
    else if first = '+' then unsigned? false rest
    else
      match rest with
      | mark :: digits =>
        if first = '0' && (mark = 'x' || mark = 'X') then inBase? 16 digits
        else if first = '0' && (mark = 'o' || mark = 'O') then inBase? 8 digits
        else if first = '0' && (mark = 'b' || mark = 'B') then inBase? 2 digits
        else unsigned? false (first :: rest)
      | [] => unsigned? false [first]

end Number

end BrowserFlow
