import BrowserFlow.Number.Numeral
import BrowserFlow.Value.Normal
import BrowserFlow.Yaml.Flaw

/-!
What tags make of nodes. A plain scalar without a tag is a null, a truth value,
an integer, another number, a moment or the mark of a merge if it is written as
one of these, in this order, and else a text. An explicit tag says what a node has to
be, and a node that is not is refused.
-/

set_option autoImplicit false
set_option relaxedAutoImplicit false

namespace BrowserFlow.Yaml

/-- The sorts of nodes. -/
inductive NodeKind where
  | scalar | sequence | mapping
  deriving DecidableEq

namespace Scalar

/-! ### Words -/

/-- Whether a text is written as null. -/
def isNull (t : Text) : Bool := t == "~" || t == "null" || t == "Null" || t == "NULL"

/-- The truth value that a text is written as. -/
def bool? (t : Text) : Option Bool :=
  if t == "true" || t == "True" || t == "TRUE" then some true
  else if t == "false" || t == "False" || t == "FALSE" then some false
  else none

/-- The text that marks the source of a merge. -/
def mergeMark : Text := "<<"

/-! ### Numbers -/

/-- The sign of units, which may be missing, and the units behind it. -/
def splitSign (units : List CodeUnit) : Bool × List CodeUnit :=
  match units with
  | sign :: rest =>
    if sign = '-' then (true, rest) else if sign = '+' then (false, rest) else (false, units)
  | [] => (false, [])

/-- Units without the underscores that group them. -/
def ungrouped (units : List CodeUnit) : List CodeUnit := units.filter (· != '_')

/-- Whether units are digits of a base, grouped by underscores of which none is the last. -/
def areDigits (base : Nat) (units : List CodeUnit) : Bool :=
  !(ungrouped units).isEmpty && (ungrouped units).all (fun u ↦ (u.valueInBase? base).isSome)
    && units.getLast? != some '_'

/-- A whole number with a sign. -/
def signed (negative : Bool) (value : Nat) : Number :=
  if negative then (Number.ofNat value).neg else Number.ofNat value

/-- The base that digits behind a zero are written in. -/
def baseOf? (mark : CodeUnit) : Option Nat :=
  if mark = 'b' then some 2 else if mark = 'o' then some 8 else if mark = 'x' then some 16 else none

/-- The integer that a text is written as. A single zero has no sign. -/
def integer? (t : Text) : Option Number :=
  let (negative, units) := splitSign t.units
  match units with
  | [] => none
  | first :: rest =>
    if first = '_' then none
    else if first = '0' then
      match rest with
      | [] => some (Number.ofNat 0)
      | mark :: digits =>
        match baseOf? mark with
        | some base =>
          if areDigits base digits then
            some (signed negative (Number.digitsValue base (ungrouped digits)))
          else none
        | none =>
          if mark != '_' && areDigits 10 units then
            some (signed negative (Number.digitsValue 10 (ungrouped units)))
          else none
    else if areDigits 10 units then
      some (signed negative (Number.digitsValue 10 (ungrouped units)))
    else none

/-- A digit, or the mark that groups digits. -/
def isGrouped (u : CodeUnit) : Bool := u.isDigit || u = '_'

/-- Whether units are an exponent, or nothing. -/
def isExponent (units : List CodeUnit) : Bool :=
  match units with
  | [] => true
  | mark :: rest =>
    (mark = 'e' || mark = 'E') && !(splitSign rest).2.isEmpty
      && (splitSign rest).2.all CodeUnit.isDigit

/-- Whether units are digits with a point or an exponent among them or behind them. -/
def isDecimal (units : List CodeUnit) : Bool :=
  match units with
  | [] => false
  | first :: rest =>
    first.isDigit &&
      let behind := rest.dropWhile isGrouped
      match behind with
      | point :: more =>
      if point = '.' then isExponent (more.dropWhile isGrouped) else isExponent behind
      | [] => true

/-- Whether units are a point, digits and perhaps an exponent. -/
def isFraction (units : List CodeUnit) : Bool :=
  match units with
  | point :: first :: rest =>
    point = '.' && isGrouped first && isExponent (rest.dropWhile isGrouped)
  | _ => false

/-- Whether a text is written as infinity without a sign. -/
def isInfinity (t : Text) : Bool := t == ".inf" || t == ".Inf" || t == ".INF"

/-- Whether a text is written as what is no number. -/
def isNotNumber (t : Text) : Bool := t == ".nan" || t == ".NaN" || t == ".NAN"

/-- The number that a text is written as. Digits of which only the exponent is left are none. -/
def float? (t : Text) : Option Number :=
  let (negative, units) := splitSign t.units
  if isInfinity ⟨units⟩ then some (.infinite negative)
  else if isNotNumber t then some .nan
  else if (isDecimal units || isFraction t.units) && t.units.getLast? != some '_' then
    match Number.takeDecimal? negative (ungrouped units) with
    | some (x, _) => some x
    | none => some .nan
  else none

/-! ### Moments -/

/-- The number of one digit or two at the beginning, and the rest. -/
def takeOneOrTwo? (units : List CodeUnit) : Option (Nat × List CodeUnit) :=
  (Moment.readDigits? 2 units).orElse fun () ↦ Moment.readDigits? 1 units

/-- The moment of a date and a time that may lie outside of their ranges: what is too much is
carried over. Years of the first century stand for those of the twentieth. -/
def rolledMoment (year month day hour minute second millisecond : Nat) : Moment :=
  let year : Int := if year < 100 then 1900 + year else year
  let month : Int := month - 1
  let days := Moment.daysOfDate (year + month.fdiv 12) ((month.fmod 12).toNat + 1) 1 + day - 1
  ⟨days * Moment.dayLength
    + (((hour * 60 + minute) * 60 + second) * 1000 + millisecond : Nat)⟩

/-- The milliseconds that the digits behind a point are. -/
def milliseconds (digits : List CodeUnit) : Nat :=
  Number.digitsValue 10 ((digits ++ [48, 48, 48]).take 3)

/-- A date with all its digits and nothing behind it. -/
def date? (units : List CodeUnit) : Option Moment := do
  let (year, units) ← Moment.readDigits? 4 units
  let (month, units) ← Moment.readDigits? 2 (← Moment.skipUnit? '-' units)
  let (day, units) ← Moment.readDigits? 2 (← Moment.skipUnit? '-' units)
  if units.isEmpty then some (rolledMoment year month day 0 0 0 0) else none

/-- A space or a tab. -/
def isSpacing (u : CodeUnit) : Bool := u = ' ' || u = '\t'

/-- The rest behind what stands between a date and a time. -/
def skipToTime? (units : List CodeUnit) : Option (List CodeUnit) :=
  match units with
  | [] => none
  | mark :: rest =>
    if mark = 'T' || mark = 't' then some rest
    else if isSpacing mark then some (rest.dropWhile isSpacing)
    else none

/-- The milliseconds that a zone is ahead, if units are a zone or nothing. -/
def zone? (units : List CodeUnit) : Option Int :=
  if units.isEmpty then some 0
  else
    match units.dropWhile isSpacing with
    | [] => none
    | sign :: rest =>
      if sign = 'Z' then if rest.isEmpty then some 0 else none
      else if sign = '+' || sign = '-' then do
        let (hours, rest) ← takeOneOrTwo? rest
        let (minutes, rest) ← match rest with
          | [] => some (0, [])
          | _ => (Moment.skipUnit? ':' rest).bind (Moment.readDigits? 2)
        let ahead : Int := ((hours * 60 + minutes) * 60000 : Nat)
        if rest.isEmpty then some (if sign = '-' then -ahead else ahead) else none
      else none

/-- A date and a time. -/
def dateTime? (units : List CodeUnit) : Option Moment := do
  let (year, units) ← Moment.readDigits? 4 units
  let (month, units) ← takeOneOrTwo? (← Moment.skipUnit? '-' units)
  let (day, units) ← takeOneOrTwo? (← Moment.skipUnit? '-' units)
  let (hour, units) ← takeOneOrTwo? (← skipToTime? units)
  let (minute, units) ← Moment.readDigits? 2 (← Moment.skipUnit? ':' units)
  let (second, units) ← Moment.readDigits? 2 (← Moment.skipUnit? ':' units)
  let (fraction, units) := match Moment.skipUnit? '.' units with
    | some rest => Number.takeDigits rest
    | none => ([], units)
  let ahead ← zone? units
  let rolled := rolledMoment year month day hour minute second (milliseconds fraction)
  some ⟨rolled.milliseconds - ahead⟩

/-- The moment that a text is written as. -/
def moment? (t : Text) : Option Moment := (date? t.units).orElse fun () ↦ dateTime? t.units

/-! ### Octets -/

/-- The octets that a text is the letters of. Of the filling only its amount counts, and no letter
at all stands for three zeros. -/
def octets? (t : Text) : Option (List UInt8) :=
  let letters := t.units.filter fun (u : CodeUnit) ↦ !(u = '\n' || u = '\r')
  let kept := letters.filter fun (u : CodeUnit) ↦ u != '='
  if letters.length % 4 != 0 then none
  else do
    let numbers ← kept.mapM Base64.number?
    some (if numbers.isEmpty then [0, 0, 0] else Base64.octets numbers)

end Scalar

/-! ### Tags -/

namespace Tag

/-- What the handle of the common tags stands for. -/
def commonStem : Text := "tag:yaml.org,2002:"

/-- The tag of the mark of a merge. -/
def merge : Text := commonStem ++ "merge"

/-- What a plain scalar without a tag is. -/
def implied (t : Text) : Datum :=
  if Scalar.isNull t then .null
  else match Scalar.bool? t, Scalar.integer? t, Scalar.float? t, Scalar.moment? t with
    | some b, _, _, _ => .bool b
    | none, some x, _, _ => .number x
    | none, none, some x, _ => .number x
    | none, none, none, some m => .date (some m)
    | none, none, none, none => .text t

/-- What a tag for scalars makes of a datum that is nothing or a text. -/
def ofScalar (empty : Option Datum) (read : Text → Option Datum) : Datum → Option Datum
  | .null => empty
  | .text t => read t
  | _ => none

/-- The single entry of a mapping. -/
def entry? : Datum → Option (Text × Datum)
  | .object [entry] _ => some entry
  | _ => none

/-- A sequence of mappings of one entry each, no two under one key. -/
def orderedMapping? : Datum → Option Datum
  | .null => some (.sequence [])
  | .sequence items => do
    let keys := (← items.mapM entry?).map Prod.fst
    if keys.Nodup then some (.sequence items) else none
  | _ => none

/-- A sequence of mappings of one entry each, as sequences of a key and a value. -/
def pairs? : Datum → Option Datum
  | .null => some (.sequence [])
  | .sequence items => do
    let entries ← items.mapM entry?
    some (.sequence (entries.map fun (key, value) ↦ .sequence [.text key, value]))
  | _ => none

/-- Whether a datum is null. -/
def isNull : Datum → Bool
  | .null => true
  | _ => false

/-- A mapping whose values are all null. -/
def set? : Datum → Option Datum
  | .null => some (.object [] [])
  | .object entries ancestor =>
    if entries.all fun (_, value) ↦ isNull value then some (.object entries ancestor) else none
  | _ => none

/-- A datum, or another in the place of null. -/
def orElse (empty : Datum) (d : Datum) : Option Datum := some (if isNull d then empty else d)

/-- The kind of nodes that a common tag is for, and what it makes of them. -/
def meaning? (name : Text) : Option (NodeKind × (Datum → Option Datum)) :=
  if name = "str" then some (.scalar, orElse (.text Text.empty))
  else if name = "null" then
    some (.scalar, ofScalar (some .null) fun t ↦ if Scalar.isNull t then some .null else none)
  else if name = "bool" then some (.scalar, ofScalar none fun t ↦ (Scalar.bool? t).map .bool)
  else if name = "int" then some (.scalar, ofScalar none fun t ↦ (Scalar.integer? t).map .number)
  else if name = "float" then some (.scalar, ofScalar none fun t ↦ (Scalar.float? t).map .number)
  else if name = "timestamp" then
    some (.scalar, ofScalar none fun t ↦ (Scalar.moment? t).map fun m ↦ .date (some m))
  else if name = "merge" then
    some (.scalar, ofScalar (some .null) fun t ↦
      if t = Scalar.mergeMark then some (.text t) else none)
  else if name = "binary" then some (.scalar, ofScalar none fun t ↦ (Scalar.octets? t).map .bytes)
  else if name = "seq" then some (.sequence, orElse (.sequence []))
  else if name = "omap" then some (.sequence, orderedMapping?)
  else if name = "pairs" then some (.sequence, pairs?)
  else if name = "map" then some (.mapping, orElse (.object [] []))
  else if name = "set" then some (.mapping, set?)
  else none

/-- What an explicit tag makes of a node. A node without content is of any kind. -/
def apply (tag : Text) (kind : Option NodeKind) (d : Datum) : Except Flaw Datum :=
  let name := if tag.startsWith commonStem then ⟨tag.units.drop commonStem.length⟩ else Text.empty
  match meaning? name with
  | none => .error (.unknownTag tag)
  | some (wanted, construct) =>
    if kind = some wanted || (kind = none && isNull d) then
      match construct d with
      | some made => .ok made
      | none => .error (.unresolvedTag tag)
    else .error (.unknownTag tag)

end Tag

end BrowserFlow.Yaml
