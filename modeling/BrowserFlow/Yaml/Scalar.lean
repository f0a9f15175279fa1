import BrowserFlow.Yaml.Cursor
import BrowserFlow.Yaml.Flaw

/-!
The texts of YAML scalars in their four styles: plain, in single or double
quotes, and as a block of lines. Each reader starts at the first unit of the
scalar and answers the text with the place behind it. Main statement: lines
folded together are joined by one space, or by as many line feeds as there are
empty lines between them.
-/

set_option autoImplicit false
set_option relaxedAutoImplicit false

namespace BrowserFlow.Yaml

/-- What stands for so many line ends between folded lines. -/
def folded (breaks : Nat) : List CodeUnit :=
  if breaks = 1 then [' '] else List.replicate (breaks - 1) '\n'

@[simp] theorem folded_one : folded 1 = [(' ' : CodeUnit)] := rfl

/-- Empty lines between folded lines stay. -/
theorem folded_empty_lines (empties : Nat) :
    folded (empties + 2) = List.replicate (empties + 1) ('\n' : CodeUnit) := by
  simp [folded]

/-- A unit that is written in no plain or block scalar. -/
def isControl (u : CodeUnit) : Bool :=
  (u < 0x20 && u ≠ '\t' && !isBreak u) || (0x7F ≤ u && u ≤ 0x9F && u ≠ 0x85) || 0xFFFE ≤ u

/-- Whether all units can be written in a plain or block scalar: there is no control unit and no
surrogate without its partner. -/
def isPrintable : List CodeUnit → Bool
  | [] => true
  | [u] => !isControl u && !u.isHighSurrogate && !u.isLowSurrogate
  | u :: v :: rest =>
    if u.isHighSurrogate && v.isLowSurrogate then isPrintable rest
    else !isControl u && !u.isHighSurrogate && !u.isLowSurrogate && isPrintable (v :: rest)

/-- The text of units in reverse that were not quoted. -/
def bareText (done : List CodeUnit) : Except Flaw Text :=
  if isPrintable done.reverse then .ok ⟨done.reverse⟩ else .error .unprintable

/-! ### Plain scalars -/

/-- A unit that begins something else than a plain scalar. -/
def isIndicator (u : CodeUnit) : Bool :=
  u = '#' || u = '&' || u = '*' || u = '!' || u = '|' || u = '>' || u = '\'' || u = '"' || u = '%'
    || u = '@' || u = 0x60

/-- A unit behind which a mark stands alone, inside of brackets or outside of them. -/
def endsMark (flow : Bool) (u : CodeUnit) : Bool := isGap u || (flow && isFlowMark u)

/-- Whether a plain scalar begins here. -/
def startsPlain (flow : Bool) (c : Cursor) : Bool :=
  c.isAtAny (fun u ↦ !isGap u && !isFlowMark u && !isIndicator u)
    && !((c.isAt '?' || c.isAt '-') && c.precedes (endsMark flow))

/-- Whether a plain scalar ends in front of the next unit. -/
def endsPlain (flow : Bool) (c : Cursor) : Bool :=
  (c.isAt ':' && c.precedes (endsMark flow)) || (c.isAt '#' && isGap c.before) || c.atSeparator
    || (flow && c.isAtAny isFlowMark)

/-- The units of a plain scalar in reverse and the place behind it: those read so far, the white
space behind them, which counts if more follows, and the place where they ended. A line that is
indented less than wanted does not belong to the scalar. -/
def plainUnits (flow : Bool) (indent : Int) :
    Nat → List CodeUnit → List CodeUnit → Cursor → Cursor → List CodeUnit × Cursor
  | 0, done, _, _, c => (done, c)
  | fuel + 1, done, gap, ended, c =>
    match c.rest with
    | [] => (done, c)
    | u :: _ =>
      if endsPlain flow c then (done, c)
      else if isBreak u then
        let (breaks, after) := c.skipGap false
        if indent ≤ after.indent then plainUnits flow indent fuel done (folded breaks) ended after
        else (done, { ended with tabbed := after.tabbed })
      else if isSpace u then plainUnits flow indent fuel done (u :: gap) ended c.next
      else plainUnits flow indent fuel (u :: (gap ++ done)) [] c.next c.next

/-- The plain scalar that begins here, if one does. -/
def readPlain? (flow : Bool) (indent : Int) (c : Cursor) : Except Flaw (Option (Text × Cursor)) :=
  if startsPlain flow c then
    match plainUnits flow indent (c.rest.length + 1) [] [] c c with
    | ([], _) => .ok none
    | (done, after) => do .ok (some (← bareText done, after))
  else .ok none

/-! ### Quoted scalars -/

/-- A unit that stands for itself between quotes. -/
def isQuotable (u : CodeUnit) : Bool := u = '\t' || 0x20 ≤ u

/-- The text between single quotes behind the first of them; a quote inside is written twice. -/
def readSingleQuoted : Nat → List CodeUnit → Cursor → Except Flaw (Text × Cursor)
  | 0, _, _ => .error (.unclosed .singleQuotes)
  | fuel + 1, done, c =>
    match c.rest with
    | [] => .error (.unclosed .singleQuotes)
    | u :: _ =>
      if u = '\'' then
        if c.precedes (· == '\'') then readSingleQuoted fuel (u :: done) (c.forward 2)
        else .ok (⟨done.reverse⟩, c.next)
      else if isBreak u then
        let (breaks, after) := c.skipGap false
        readSingleQuoted fuel (folded breaks ++ done) after
      else if c.atSeparator then .error (.separatorInside .singleQuotes)
      else if isQuotable u then readSingleQuoted fuel (u :: done) c.next
      else .error .unprintable

/-- What a backslash makes of a unit. -/
def escaped? (u : CodeUnit) : Option CodeUnit :=
  if u = '0' then some 0
  else if u = 'a' then some 7
  else if u = 'b' then some 8
  else if u = 't' || u = '\t' then some 9
  else if u = 'n' then some 10
  else if u = 'v' then some 11
  else if u = 'f' then some 12
  else if u = 'r' then some 13
  else if u = 'e' then some 27
  else if u = ' ' || u = '"' || u = '/' || u = '\\' then some u
  else if u = 'N' then some 0x85
  else if u = '_' then some 0xA0
  else if u = 'L' then some 0x2028
  else if u = 'P' then some 0x2029
  else none

/-- The number of digits behind the letter of a numeric escape. -/
def escapeLength? (u : CodeUnit) : Option Nat :=
  if u = 'x' then some 2 else if u = 'u' then some 4 else if u = 'U' then some 8 else none

/-- The number that digits of base sixteen are, if there are so many of them. -/
def hexValue? (digits : List CodeUnit) (count : Nat) : Option Nat :=
  if digits.length = count then
    digits.foldlM (fun value u ↦ (u.valueInBase? 16).map (value * 16 + ·)) 0
  else none

/-- The units of a code of 32 bits. A code with the highest bit is the unit of its lower half. -/
def unitsOfCode (code : Nat) : List CodeUnit :=
  if code < 0x10000 || 0x80000000 ≤ code then [code.toUInt16]
  else
    let offset := code - 0x10000
    [(0xD800 + offset / 0x400).toUInt16, (0xDC00 + offset % 0x400).toUInt16]

/-- The text between double quotes behind the first of them. -/
def readDoubleQuoted : Nat → List CodeUnit → Cursor → Except Flaw (Text × Cursor)
  | 0, _, _ => .error (.unclosed .doubleQuotes)
  | fuel + 1, done, c =>
    match c.rest with
    | [] => .error (.unclosed .doubleQuotes)
    | u :: rest =>
      if u = '"' then .ok (⟨done.reverse⟩, c.next)
      else if u = '\\' then
        match rest with
        | [] => .error .unknownEscape
        | mark :: more =>
          if isBreak mark then readDoubleQuoted fuel done (c.next.skipGap false).2
          else
            match escaped? mark, escapeLength? mark with
            | some unit, _ => readDoubleQuoted fuel (unit :: done) (c.forward 2)
            | none, some count =>
              match hexValue? (more.take count) count with
              | some code =>
                readDoubleQuoted fuel ((unitsOfCode code).reverse ++ done) (c.forward (count + 2))
              | none => .error .badEscape
            | none, none => .error .unknownEscape
      else if isBreak u then
        let (breaks, after) := c.skipGap false
        readDoubleQuoted fuel (folded breaks ++ done) after
      else if c.atSeparator then .error (.separatorInside .doubleQuotes)
      else if isQuotable u then readDoubleQuoted fuel (u :: done) c.next
      else .error .unprintable

/-! ### Block scalars -/

/-- What becomes of the line ends behind the last line of a block. -/
inductive Chomping where
  | clip | strip | keep
  deriving DecidableEq

/-- The header of a block scalar. -/
structure BlockHeader where
  /-- Whether its lines are folded. -/
  isFolded : Bool
  /-- What becomes of the last line ends. -/
  chomping : Chomping
  /-- The indentation that is written in the header. -/
  width : Option Nat

/-- The header that the marks behind its first unit make up. -/
def BlockHeader.ofMarks (isFolded : Bool) (marks : List CodeUnit) : Except Flaw BlockHeader := do
  let chomping ← match marks.filter (!·.isDigit) with
    | [] => .ok Chomping.clip
    | [sign] => .ok (if sign = '+' then .keep else .strip)
    | _ => .error .badBlockHeader
  let width ← match marks.filter CodeUnit.isDigit with
    | [] => .ok none
    | [digit] => if digit = '0' then .error .badBlockHeader else .ok (some digit.digitValue)
    | _ => .error .badBlockHeader
  .ok ⟨isFolded, chomping, width⟩

/-- A block scalar while its lines are read. -/
structure BlockText where
  /-- The units of its text in reverse. -/
  done : List CodeUnit
  /-- The indentation of its lines. -/
  indent : Nat
  /-- Whether that indentation is settled. -/
  isSettled : Bool
  /-- The empty lines since the last line with content. -/
  empties : Nat
  /-- Whether a line with content has been read. -/
  hasBegun : Bool
  /-- Whether the last line began with white space of its own. -/
  isDeeper : Bool

namespace BlockText

/-- Line feeds. -/
def feeds (count : Nat) : List CodeUnit := List.replicate count '\n'

/-- The line feeds in front of a line that keeps all of them. -/
def keptFeeds (b : BlockText) : List CodeUnit :=
  feeds (if b.hasBegun then b.empties + 1 else b.empties)

/-- What stands in front of the content of a line. -/
def lead (b : BlockText) (isFolded deeper : Bool) : List CodeUnit :=
  if !isFolded || deeper then b.keptFeeds
  else if b.isDeeper then feeds (b.empties + 1)
  else if b.empties = 0 then if b.hasBegun then [' '] else []
  else feeds b.empties

/-- What stands behind the last line. -/
def tail (b : BlockText) : Chomping → List CodeUnit
  | .keep => b.keptFeeds
  | .clip => if b.hasBegun then feeds 1 else []
  | .strip => []

end BlockText

/-- The lines of a block scalar from the end of a line on. The first line with content settles the
indentation, unless the header has done so; a line that is indented less ends the scalar. -/
def readBlockLines (header : BlockHeader) :
    Nat → BlockText → Cursor → Except Flaw (List CodeUnit × Cursor)
  | 0, b, c => .ok (b.done, c)
  | fuel + 1, b, c =>
    if c.atEnd then .ok (b.done, c)
    else if !c.isAtAny isBreak then .error .lineEndExpected
    else
      let start := c.skipBreak
      let spaces := (start.rest.takeWhile isIndent).length
      let depth := if b.isSettled then min spaces b.indent else spaces
      let line := { start.forward depth with indent := depth }
      let b := { b with indent := if b.isSettled then b.indent else max b.indent depth }
      if line.isAtAny isBreak then
        readBlockLines header fuel { b with empties := b.empties + 1 } line
      else if depth < b.indent then .ok (b.tail header.chomping ++ b.done, line)
      else
        let deeper := line.isAtAny isSpace
        let (content, after) := line.takeWhile (!isBreak ·)
        let done := content.reverse ++ b.lead header.isFolded deeper ++ b.done
        readBlockLines header fuel ⟨done, b.indent, true, 0, true, deeper⟩ after

/-- The block scalar whose header begins here, in a node that is indented so far. -/
def readBlock (indent : Nat) (c : Cursor) : Except Flaw (Text × Cursor) := do
  let (marks, afterMarks) := c.next.takeWhile fun u ↦ u = '+' || u = '-' || u.isDigit
  let header ← BlockHeader.ofMarks (c.isAt '>') marks
  let afterHeader :=
    if afterMarks.isAtAny isSpace then (afterMarks.skipWhile isSpace).skipComment else afterMarks
  let wanted := match header.width with
    | some width => indent + width - 1
    | none => indent
  let (done, after) ← readBlockLines header (afterHeader.rest.length + 1)
    ⟨[], wanted, header.width.isSome, 0, false, false⟩ afterHeader
  .ok (← bareText done, after)

end BrowserFlow.Yaml
