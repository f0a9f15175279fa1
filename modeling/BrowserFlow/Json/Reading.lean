import BrowserFlow.Number.Numeral
import BrowserFlow.Value.Basic

/-!
Values read from JSON text. A document is one value with white space around it;
of two entries under one key the later value counts, in the place of the earlier.
The reader of nested values is bounded by the length of the text, which each
level of nesting shortens.
-/

set_option autoImplicit false
set_option relaxedAutoImplicit false

namespace BrowserFlow.Json

/-- The units after the white space at the beginning: spaces, tabs and line ends. -/
def skipBlank : List CodeUnit → List CodeUnit
  | [] => []
  | u :: rest =>
    if u = ' ' || u = '\t' || u = '\n' || u = '\r' then skipBlank rest else u :: rest

/-- The value of four digits in base sixteen. -/
def fourHex? (a b c d : CodeUnit) : Option CodeUnit := do
  let a ← a.valueInBase? 16
  let b ← b.valueInBase? 16
  let c ← c.valueInBase? 16
  let d ← d.valueInBase? 16
  some (((a * 16 + b) * 16 + c) * 16 + d).toUInt16

/-- The unit that a one-letter escape stands for. -/
def unescape? (u : CodeUnit) : Option CodeUnit :=
  if u = '"' || u = '\\' || u = '/' then some u
  else if u = 'b' then some 8
  else if u = 'f' then some 12
  else if u = 'n' then some 10
  else if u = 'r' then some 13
  else if u = 't' then some 9
  else none

/-- The units of a quoted text after its opening quote, in reverse behind those already read, and
what follows the closing quote. -/
def readQuoted? (done : List CodeUnit) : List CodeUnit → Option (List CodeUnit × List CodeUnit)
  | [] => none
  | u :: rest =>
    if u = '"' then some (done.reverse, rest)
    else if u = '\\' then
      match rest with
      | [] => none
      | mark :: more =>
        if mark = 'u' then
          match more with
          | a :: b :: c :: d :: after =>
            match fourHex? a b c d with
            | some unit => readQuoted? (unit :: done) after
            | none => none
          | _ => none
        else
          match unescape? mark with
          | some unit => readQuoted? (unit :: done) more
          | none => none
    else if u < 0x20 then none
    else readQuoted? (u :: done) rest

/-- The digits after a point, of which there is at least one; no point is no digits. -/
def readFraction? (units : List CodeUnit) : Option (List CodeUnit × List CodeUnit) :=
  match units with
  | point :: rest =>
    if point = '.' then
      let (digits, after) := Number.takeDigits rest
      if digits.isEmpty then none else some (digits, after)
    else some ([], units)
  | [] => some ([], units)

/-- An unsigned number: no digit stands behind a leading zero, and an exponent mark needs digits. -/
def readNumber? (negative : Bool) (units : List CodeUnit) : Option (Number × List CodeUnit) := do
  let (whole, afterWhole) := Number.takeDigits units
  match whole with
  | [] => none
  | first :: more =>
    if first = '0' && !more.isEmpty then none
    else
      let (fraction, afterFraction) ← readFraction? afterWhole
      let (exponent, rest) := Number.takeExponent afterFraction
      match rest with
      | mark :: _ =>
        if mark = 'e' || mark = 'E' then none
        else some (Number.ofDecimal negative (Number.digitsValue 10 (whole ++ fraction))
          (exponent - fraction.length), rest)
      | [] => some (Number.ofDecimal negative (Number.digitsValue 10 (whole ++ fraction))
          (exponent - fraction.length), rest)

/-- The rest after a word, if the units begin with it. -/
def skipWord? (word : Text) (units : List CodeUnit) : Option (List CodeUnit) :=
  if word.units.isPrefixOf units then some (units.drop word.units.length) else none

mutual

/-- The value at the beginning and the rest. -/
def readValue? : Nat → List CodeUnit → Option (Value × List CodeUnit)
  | 0, _ => none
  | fuel + 1, units =>
    match skipBlank units with
    | [] => none
    | u :: rest =>
      if u = '"' then
        (readQuoted? [] rest).map fun (text, after) ↦ (.text ⟨text⟩, after)
      else if u = '[' then
        match skipBlank rest with
        | close :: after =>
          if close = ']' then some (.sequence [], after) else readItems? fuel [] rest
        | [] => none
      else if u = '\x7b' then
        match skipBlank rest with
        | close :: after =>
          if close = '\x7d' then some (.mapping [], after) else readEntries? fuel [] rest
        | [] => none
      else if u = '-' then
        (readNumber? true rest).map fun (x, after) ↦ (.number x, after)
      else if u.isDigit then
        (readNumber? false (u :: rest)).map fun (x, after) ↦ (.number x, after)
      else if u = 'n' then (skipWord? "null" (u :: rest)).map fun after ↦ (.null, after)
      else if u = 't' then (skipWord? "true" (u :: rest)).map fun after ↦ (.bool true, after)
      else if u = 'f' then (skipWord? "false" (u :: rest)).map fun after ↦ (.bool false, after)
      else none

/-- The items of a sequence after its bracket, in reverse behind those already read. -/
def readItems? : Nat → List Value → List CodeUnit → Option (Value × List CodeUnit)
  | 0, _, _ => none
  | fuel + 1, done, units =>
    match readValue? fuel units with
    | none => none
    | some (item, after) =>
      match skipBlank after with
      | mark :: rest =>
        if mark = ',' then readItems? fuel (item :: done) rest
        else if mark = ']' then some (.sequence (item :: done).reverse, rest)
        else none
      | [] => none

/-- The entries of a mapping after its brace, added to those already read. -/
def readEntries? : Nat → Entries Value → List CodeUnit → Option (Value × List CodeUnit)
  | 0, _, _ => none
  | fuel + 1, done, units =>
    match skipBlank units with
    | u :: rest =>
      if u = '"' then
        match readQuoted? [] rest with
        | none => none
        | some (key, afterKey) =>
          match skipBlank afterKey with
          | colon :: beforeValue =>
            if colon = ':' then
              match readValue? fuel beforeValue with
              | none => none
              | some (value, after) =>
                match skipBlank after with
                | mark :: rest =>
                  if mark = ',' then readEntries? fuel (done.put ⟨key⟩ value) rest
                  else if mark = '\x7d' then some (.mapping (done.put ⟨key⟩ value), rest)
                  else none
                | [] => none
            else none
          | [] => none
      else none
    | [] => none

end

/-- The value that a text is the JSON of. -/
def read? (t : Text) : Option Value :=
  match readValue? (2 * t.length + 2) t.units with
  | some (value, rest) => if (skipBlank rest).isEmpty then some value else none
  | none => none

end BrowserFlow.Json
