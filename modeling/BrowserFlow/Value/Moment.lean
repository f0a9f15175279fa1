import BrowserFlow.Text.Basic

/-!
Moments in time, counted in milliseconds from the first of January 1970, and
their written form in the Gregorian calendar, carried back before its adoption,
at the meridian.
-/

set_option autoImplicit false
set_option relaxedAutoImplicit false

namespace BrowserFlow

/-- A moment: milliseconds since the beginning of 1970. -/
structure Moment where
  /-- The milliseconds. -/
  milliseconds : Int
  deriving DecidableEq, Inhabited

namespace Moment

/-- Milliseconds of a day. -/
def dayLength : Int := 86400000

/-- The farthest moment from the beginning of 1970 that has a date: a hundred million days. -/
def farthest : Int := 8640000000000000

/-- The days from the beginning of 1970 to a date. Years begin in March in this count, so that
the day a leap year adds is the last of its year. -/
def daysOfDate (year : Int) (month day : Nat) : Int :=
  let y := if month ≤ 2 then year - 1 else year
  let era := y.fdiv 400
  let yearOfEra := y.fmod 400
  let shifted := (month + 9) % 12
  let dayOfYear : Int := ((153 * shifted + 2) / 5 + day - 1 : Nat)
  let dayOfEra := yearOfEra * 365 + yearOfEra.fdiv 4 - yearOfEra.fdiv 100 + dayOfYear
  era * 146097 + dayOfEra - 719468

/-- The date so many days from the beginning of 1970. -/
def dateOfDays (days : Int) : Int × Nat × Nat :=
  let z := days + 719468
  let era := z.fdiv 146097
  let dayOfEra := z.fmod 146097
  let yearOfEra :=
    (dayOfEra - dayOfEra.fdiv 1460 + dayOfEra.fdiv 36524 - dayOfEra.fdiv 146096).fdiv 365
  let dayOfYear := (dayOfEra - (365 * yearOfEra + yearOfEra.fdiv 4 - yearOfEra.fdiv 100)).toNat
  let shifted := (5 * dayOfYear + 2) / 153
  let day := dayOfYear - (153 * shifted + 2) / 5 + 1
  let month := if shifted < 10 then shifted + 3 else shifted - 9
  let year := yearOfEra + era * 400 + (if month ≤ 2 then 1 else 0)
  (year, month, day)

/-- The moment of a date and a time of day. -/
def ofDate (year : Int) (month day hour minute second millisecond : Nat) : Moment :=
  ⟨daysOfDate year month day * dayLength
    + (((hour * 60 + minute) * 60 + second) * 1000 + millisecond : Nat)⟩

/-- The digits of a number behind zeros up to a width. -/
def padded (width n : Nat) : Text := (Text.ofNat n).padStart width '0'

/-- A year: four digits, or a sign and six digits outside of them. -/
def writtenYear (year : Int) : Text :=
  if 0 ≤ year ∧ year ≤ 9999 then padded 4 year.toNat
  else (if year < 0 then ("-" : Text) else "+") ++ padded 6 year.natAbs

/-- The written form of a moment: date, `T`, time to the millisecond, `Z`. -/
def toText (m : Moment) : Text :=
  let (year, month, day) := dateOfDays (m.milliseconds.fdiv dayLength)
  let time := (m.milliseconds.fmod dayLength).toNat
  writtenYear year ++ "-" ++ padded 2 month ++ "-" ++ padded 2 day ++ "T"
    ++ padded 2 (time / 3600000) ++ ":" ++ padded 2 (time / 60000 % 60) ++ ":"
    ++ padded 2 (time / 1000 % 60) ++ "." ++ padded 3 (time % 1000) ++ "Z"

/-- The names of the months, shortened. -/
def monthNames : List Text :=
  ["Jan", "Feb", "Mar", "Apr", "May", "Jun", "Jul", "Aug", "Sep", "Oct", "Nov", "Dec"]

/-- The names of the days, shortened, from the first of January 1970. -/
def dayNames : List Text := ["Thu", "Fri", "Sat", "Sun", "Mon", "Tue", "Wed"]

/-- The spoken form of a moment at the meridian. -/
def toSpokenText (m : Moment) : Text :=
  let days := m.milliseconds.fdiv dayLength
  let (year, month, day) := dateOfDays days
  let time := (m.milliseconds.fmod dayLength).toNat
  (dayNames.getD (days.fmod 7).toNat "") ++ " " ++ (monthNames.getD (month - 1) "") ++ " "
    ++ padded 2 day ++ " " ++ (if year < 0 then ("-" : Text) else "") ++ padded 4 year.natAbs ++ " "
    ++ padded 2 (time / 3600000) ++ ":" ++ padded 2 (time / 60000 % 60) ++ ":"
    ++ padded 2 (time / 1000 % 60) ++ " GMT+0000 (Coordinated Universal Time)"

/-- The number that digits at the beginning are, if there are so many of them, and the rest. -/
def readDigits? (count : Nat) (units : List CodeUnit) : Option (Nat × List CodeUnit) :=
  let digits := units.take count
  if digits.length = count && digits.all CodeUnit.isDigit then
    some (digits.foldl (fun n u ↦ n * 10 + u.digitValue) 0, units.drop count)
  else none

/-- The rest behind a unit that has to come next. -/
def skipUnit? (u : CodeUnit) : List CodeUnit → Option (List CodeUnit)
  | [] => none
  | first :: rest => if first = u then some rest else none

/-- The moment that a text in the written form denotes. The time of day may be missing, as may its
seconds and their fraction. -/
def ofText? (t : Text) : Option Moment := do
  let (year, units) ← readDigits? 4 t.units
  let (month, units) ← readDigits? 2 (← skipUnit? '-' units)
  let (day, units) ← readDigits? 2 (← skipUnit? '-' units)
  if units.isEmpty then some (ofDate year month day 0 0 0 0)
  else
    let (hour, units) ← readDigits? 2 (← skipUnit? 'T' units)
    let (minute, units) ← readDigits? 2 (← skipUnit? ':' units)
    let (second, units) := ((skipUnit? ':' units).bind (readDigits? 2)).getD (0, units)
    let (fraction, units) := ((skipUnit? '.' units).bind (readDigits? 3)).getD (0, units)
    if units.all (· == 'Z') then some (ofDate year month day hour minute second fraction) else none

end Moment

end BrowserFlow
