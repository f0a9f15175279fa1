import BrowserFlow.Value.Basic

/-!
Values written as JSON text, on one line or indented by two spaces a level.
A number that is not finite is written as null, zero without its sign, and a
text is quoted with its control characters, its quotes, its backslashes and its
unpaired surrogates escaped, so that the written text stays on its line.
-/

set_option autoImplicit false
set_option relaxedAutoImplicit false

namespace BrowserFlow.Json

/-- A digit in base sixteen, in lower case. -/
def hexDigit (n : Nat) : CodeUnit :=
  if n < 10 then (0x30 + n).toUInt16 else (0x61 + (n - 10)).toUInt16

/-- The escape of a unit by its number. -/
def escapeNumber (u : CodeUnit) : List CodeUnit :=
  let n := u.toNat
  ['\\', 'u', hexDigit (n / 4096 % 16), hexDigit (n / 256 % 16), hexDigit (n / 16 % 16),
    hexDigit (n % 16)]

/-- A unit that stands for itself or has an escape of its own. -/
def escapeUnit (u : CodeUnit) : List CodeUnit :=
  if u = '"' then ['\\', '"']
  else if u = '\\' then ['\\', '\\']
  else if u = '\x08' then ['\\', 'b']
  else if u = '\x0c' then ['\\', 'f']
  else if u = '\n' then ['\\', 'n']
  else if u = '\r' then ['\\', 'r']
  else if u = '\t' then ['\\', 't']
  else if u < 0x20 then escapeNumber u
  else [u]

/-- The units of a text between its quotes; a surrogate without its partner is escaped. -/
def escape : List CodeUnit → List CodeUnit
  | [] => []
  | [u] => if u.isHighSurrogate || u.isLowSurrogate then escapeNumber u else escapeUnit u
  | u :: v :: rest =>
    if u.isHighSurrogate && v.isLowSurrogate then u :: v :: escape rest
    else if u.isHighSurrogate || u.isLowSurrogate then escapeNumber u ++ escape (v :: rest)
    else escapeUnit u ++ escape (v :: rest)

/-- A text in quotes. -/
def quote (t : Text) : Text := "\"" ++ ⟨escape t.units⟩ ++ "\""

/-- A number. -/
def writeNumber (x : Number) : Text := if x.isFinite then x.toText else "null"

mutual

/-- A value on one line. -/
def write : Value → Text
  | .null => "null"
  | .bool b => if b then "true" else "false"
  | .number x => writeNumber x
  | .text t => quote t
  | .sequence items => "[" ++ Text.join "," (writeItems items) ++ "]"
  | .mapping entries => "\x7b" ++ Text.join "," (writeEntries entries) ++ "\x7d"

/-- The items of a sequence. -/
def writeItems : List Value → List Text
  | [] => []
  | item :: rest => write item :: writeItems rest

/-- The entries of a mapping. -/
def writeEntries : List (Text × Value) → List Text
  | [] => []
  | (key, value) :: rest => (quote key ++ ":" ++ write value) :: writeEntries rest

end

/-- Parts between brackets, each on a line of its own one level further in. -/
def block (level : Nat) (opening closing : Text) (parts : List Text) : Text :=
  if parts.isEmpty then opening ++ closing
  else
    let inner : Text := "\n" ++ Text.repeated (level + 1) "  "
    opening ++ inner ++ Text.join ("," ++ inner) parts ++ "\n" ++ Text.repeated level "  "
      ++ closing

mutual

/-- A value over several lines, at a level. -/
def writeLines (level : Nat) : Value → Text
  | .sequence items => block level "[" "]" (writeLinesItems (level + 1) items)
  | .mapping entries => block level "\x7b" "\x7d" (writeLinesEntries (level + 1) entries)
  | .null => "null"
  | .bool b => if b then "true" else "false"
  | .number x => writeNumber x
  | .text t => quote t

/-- The items of a sequence at a level. -/
def writeLinesItems (level : Nat) : List Value → List Text
  | [] => []
  | item :: rest => writeLines level item :: writeLinesItems level rest

/-- The entries of a mapping at a level. -/
def writeLinesEntries (level : Nat) : List (Text × Value) → List Text
  | [] => []
  | (key, value) :: rest =>
    (quote key ++ ": " ++ writeLines level value) :: writeLinesEntries level rest

end

/-- A value over several lines. -/
def writeIndented (value : Value) : Text := writeLines 0 value

end BrowserFlow.Json

namespace BrowserFlow.Value

/-- A value as text: a text itself, a scalar by its name or digits, the rest as JSON. -/
def toText : Value → Text
  | .null => "null"
  | .bool b => if b then "true" else "false"
  | .number x => x.toText
  | .text t => t
  | .sequence items => Json.write (.sequence items)
  | .mapping entries => Json.write (.mapping entries)

end BrowserFlow.Value
