import BrowserFlow.Pattern.Basic

/-!
Patterns read from text. Besides the strict forms the reader takes the lenient
ones that flagless patterns have always had: a brace that begins no repetition
and a closing bracket stand for themselves, a look ahead may be repeated, a
backslash before a number that no group has is an octal escape, and a backslash
before most other units is dropped. The reader is bounded by a count that
exceeds what the units of the text can take.
-/

set_option autoImplicit false
set_option relaxedAutoImplicit false

namespace BrowserFlow.Pattern

/-- The group numbers of names. -/
abbrev Names := List (Text × Nat)

/-- How far reading has come. -/
structure Progress where
  /-- The units not yet read. -/
  rest : List CodeUnit
  /-- The number of groups opened. -/
  groups : Nat
  /-- The names of groups so far. -/
  names : Names

/-- What is known of the whole text beforehand. -/
structure Outline where
  /-- The number of groups. -/
  groups : Nat
  /-- Whether a group has a name. -/
  named : Bool
  /-- The names of groups. -/
  names : Names

/-- The units of a name up to its closing mark and the rest. -/
def readName? (units : List CodeUnit) : Option (Text × List CodeUnit) :=
  match units.span (fun u ↦ u != (('>' : Char) : CodeUnit)) with
  | (name, _ :: rest) =>
    let begins (u : CodeUnit) : Bool := u.isLetter || u == '_' || u == '$' || 0x80 ≤ u
    match name with
    | first :: more =>
      if begins first && more.all (fun u ↦ begins u || u.isDigit) then some (⟨name⟩, rest) else none
    | [] => none
  | _ => none

/-- What the text of a pattern holds, escapes and classes skipped. -/
def outline (inClass : Bool) (seen : Outline) : List CodeUnit → Outline
  | [] => seen
  | u :: rest =>
    if u = '\\' then
      match rest with
      | [] => seen
      | _ :: more => outline inClass seen more
    else if inClass then outline (u != ']') seen rest
    else if u = '[' then outline true seen rest
    else if u = '(' then
      match rest with
      | q :: l :: m :: _ =>
        if q = '?' then
          if l = '<' && m != '=' && m != '!' then
            let number := seen.groups + 1
            let names := match readName? (rest.drop 2) with
              | some (name, _) => seen.names ++ [(name, number)]
              | none => seen.names
            outline false ⟨number, true, names⟩ rest
          else outline false seen rest
        else outline false { seen with groups := seen.groups + 1 } rest
      | q :: _ =>
        if q = '?' then outline false seen rest
        else outline false { seen with groups := seen.groups + 1 } rest
      | [] => outline false { seen with groups := seen.groups + 1 } rest
    else outline false seen rest

/-- The class of one unit. -/
def one (u : CodeUnit) : UnitClass := ⟨false, [(u, u)]⟩

/-- The digits at the beginning as a number and the rest. -/
def readDecimal? (units : List CodeUnit) : Option (Nat × List CodeUnit) :=
  let (digits, rest) := units.span CodeUnit.isDigit
  if digits.isEmpty then none
  else some (digits.foldl (fun n u ↦ n * 10 + u.digitValue) 0, rest)

/-- The bounds in braces behind an opening brace, and the rest. -/
def readBounds? (units : List CodeUnit) : Option (Nat × Option Nat × List CodeUnit) := do
  let (least, rest) ← readDecimal? units
  match rest with
  | close :: after =>
    if close = '\x7d' then some (least, some least, after)
    else if close = ',' then
      match after with
      | next :: behind =>
        if next = '\x7d' then some (least, none, behind)
        else
          let (most, rest) ← readDecimal? after
          match rest with
          | close :: behind => if close = '\x7d' then some (least, some most, behind) else none
          | [] => none
      | [] => none
    else none
  | [] => none

/-- The value of digits in base sixteen, if there are so many. -/
def readHex? (count : Nat) (units : List CodeUnit) : Option (CodeUnit × List CodeUnit) :=
  let digits := units.take count
  let values := digits.filterMap (·.valueInBase? 16)
  if digits.length = count && values.length = count then
    some ((values.foldl (fun n d ↦ n * 16 + d) 0).toUInt16, units.drop count)
  else none

/-- Whether a unit is a digit in base eight. -/
def isOctal (u : CodeUnit) : Bool := 0x30 ≤ u && u ≤ 0x37

/-- The value of up to three octal digits, below 256, and the rest. -/
def readOctal (units : List CodeUnit) : CodeUnit × List CodeUnit :=
  match units with
  | a :: b :: c :: rest =>
    let first := a.digitValue
    if !isOctal b then (first.toUInt16, b :: c :: rest)
    else
      let second := first * 8 + b.digitValue
      if second < 32 && isOctal c then ((second * 8 + c.digitValue).toUInt16, rest)
      else (second.toUInt16, c :: rest)
  | [a, b] =>
    if isOctal b then ((a.digitValue * 8 + b.digitValue).toUInt16, [])
    else (a.digitValue.toUInt16, [b])
  | [a] => (a.digitValue.toUInt16, [])
  | [] => (0, [])

/-- The ranges of a letter that stands for a class behind a backslash. -/
def classOfLetter? (u : CodeUnit) : Option (List (CodeUnit × CodeUnit)) :=
  if u = 'd' then some UnitClass.digits
  else if u = 'D' then some (UnitClass.complement UnitClass.digits)
  else if u = 'w' then some UnitClass.wordUnits
  else if u = 'W' then some (UnitClass.complement UnitClass.wordUnits)
  else if u = 's' then some UnitClass.blanks
  else if u = 'S' then some (UnitClass.complement UnitClass.blanks)
  else none

/-- The unit that an escape stands for, given the letter behind the backslash and what follows it,
with the units left. Inside a class the control escape takes digits and the low line as well. -/
def readUnitEscape? (outlined : Outline) (inClass : Bool) (u : CodeUnit) (rest : List CodeUnit) :
    Option (CodeUnit × List CodeUnit) :=
  if u = 'f' then some (12, rest)
  else if u = 'n' then some (10, rest)
  else if u = 'r' then some (13, rest)
  else if u = 't' then some (9, rest)
  else if u = 'v' then some (11, rest)
  else if u = 'c' then
    match rest with
    | letter :: more =>
      if letter.isLetter || (inClass && (letter.isDigit || letter = '_')) then
        some ((letter.toNat % 32).toUInt16, more)
      else some ('\\', u :: rest)
    | [] => some ('\\', u :: rest)
  else if u = 'x' then some ((readHex? 2 rest).getD (u, rest))
  else if u = 'u' then some ((readHex? 4 rest).getD (u, rest))
  else if isOctal u then some (readOctal (u :: rest))
  else if u = 'k' && outlined.named then none
  else some (u, rest)

/-- A member of a class: one unit, or the ranges of a class of its own. -/
inductive Member where
  /-- One unit. -/
  | unit (u : CodeUnit)
  /-- The ranges of a class. -/
  | ranges (all : List (CodeUnit × CodeUnit))

/-- The ranges of a member. -/
def Member.toRanges : Member → List (CodeUnit × CodeUnit)
  | .unit u => [(u, u)]
  | .ranges all => all

/-- The member of a class at the beginning and the rest. -/
def readMember? (outlined : Outline) : List CodeUnit → Option (Member × List CodeUnit)
  | [] => none
  | u :: rest =>
    if u = '\\' then
      match rest with
      | [] => none
      | letter :: more =>
        match classOfLetter? letter with
        | some all => some (.ranges all, more)
        | none =>
          if letter = 'b' then some (.unit 8, more)
          else
            (readUnitEscape? outlined true letter more).map fun (code, after) ↦ (.unit code, after)
    else some (.unit u, rest)

/-- A hyphen that stands for itself. -/
def dashRange : CodeUnit × CodeUnit := (0x2D, 0x2D)

/-- The ranges of a class up to its closing bracket and the rest. -/
def readRanges? (outlined : Outline) : Nat → List CodeUnit →
    Option (List (CodeUnit × CodeUnit) × List CodeUnit)
  | 0, _ => none
  | fuel + 1, units =>
    match units with
    | [] => none
    | u :: rest =>
      if u = ']' then some ([], rest)
      else do
        let (low, after) ← readMember? outlined units
        match after with
        | dash :: behind =>
          if dash = '-' then
            match behind with
            | [] => none
            | close :: _ =>
              if close = ']' then do
                let (others, final) ← readRanges? outlined fuel behind
                some (low.toRanges ++ dashRange :: others, final)
              else do
                let (high, past) ← readMember? outlined behind
                let (others, final) ← readRanges? outlined fuel past
                match low, high with
                | .unit l, .unit h => if l ≤ h then some ((l, h) :: others, final) else none
                | _, _ => some (low.toRanges ++ dashRange :: high.toRanges ++ others, final)
          else do
            let (others, final) ← readRanges? outlined fuel after
            some (low.toRanges ++ others, final)
        | [] => none

/-- What may follow an atom: bounds of a repetition and the rest. Bounds out of order are
refused. -/
def readRepeat? (units : List CodeUnit) :
    Option (Option (Nat × Option Nat × Bool) × List CodeUnit) :=
  let lazily (least : Nat) (most : Option Nat) (after : List CodeUnit) :=
    match after with
    | q :: behind =>
      if q = '?' then (some (least, most, false), behind) else (some (least, most, true), after)
    | [] => (some (least, most, true), after)
  match units with
  | [] => some (none, units)
  | u :: rest =>
    if u = '*' then some (lazily 0 none rest)
    else if u = '+' then some (lazily 1 none rest)
    else if u = '?' then some (lazily 0 (some 1) rest)
    else if u = '\x7b' then
      match readBounds? rest with
      | some (least, most, after) =>
        if most.all (least ≤ ·) then some (lazily least most after) else none
      | none => some (none, units)
    else some (none, units)

/-- An atom and whether it may be repeated. -/
structure Atom where
  /-- The pattern. -/
  pattern : Pattern
  /-- Whether bounds may follow it. -/
  repeatable : Bool

/-- What stands behind a backslash outside of a class. -/
def readEscape? (outlined : Outline) (p : Progress) (rest : List CodeUnit) :
    Option (Atom × Progress) :=
  match rest with
  | [] => none
  | u :: more =>
    if u = 'b' then some (⟨.wordEdge false, false⟩, { p with rest := more })
    else if u = 'B' then some (⟨.wordEdge true, false⟩, { p with rest := more })
    else
      match classOfLetter? u with
      | some all => some (⟨.unit ⟨false, all⟩, true⟩, { p with rest := more })
      | none =>
        let plain : Option (Atom × Progress) :=
          (readUnitEscape? outlined false u more).map fun (code, after) ↦
            (⟨.unit (one code), true⟩, { p with rest := after })
        if u = 'k' && outlined.named then
          match more with
          | open' :: named =>
            if open' = '<' then do
              let (name, after) ← readName? named
              let number ← (outlined.names.find? (·.1 == name)).map Prod.snd
              some (⟨.recall number, true⟩, { p with rest := after })
            else none
          | [] => none
        else if u.isDigit && u != '0' then
          match readDecimal? rest with
          | some (number, after) =>
            if number ≤ outlined.groups then some (⟨.recall number, true⟩, { p with rest := after })
            else plain
          | none => plain
        else plain

/-- Patterns in a row. -/
def chained : List Pattern → Pattern
  | [] => .empty
  | [p] => p
  | p :: rest => .chain p (chained rest)

mutual

/-- Choices up to a closing parenthesis or the end. -/
def readChoice? (outlined : Outline) : Nat → Progress → Option (Pattern × Progress)
  | 0, _ => none
  | fuel + 1, p => do
    let (first, after) ← readChain? outlined fuel [] p
    match after.rest with
    | u :: rest =>
      if u = '|' then do
        let (second, final) ← readChoice? outlined fuel { after with rest := rest }
        some (.choice first second, final)
      else some (first, after)
    | [] => some (first, after)

/-- Patterns in a row, behind those already read, which stand in reverse. -/
def readChain? (outlined : Outline) : Nat → List Pattern → Progress → Option (Pattern × Progress)
  | 0, _, _ => none
  | fuel + 1, done, p =>
    match p.rest with
    | [] => some (chained done.reverse, p)
    | u :: _ =>
      if u = '|' || u = ')' then some (chained done.reverse, p)
      else do
        let (atom, after) ← readAtom? outlined fuel p
        if atom.repeatable then
          let (bounds, rest) ← readRepeat? after.rest
          let next := match bounds with
            | some (least, most, greedy) =>
              .rounds least most greedy (p.groups + 1) (after.groups - p.groups) atom.pattern
            | none => atom.pattern
          readChain? outlined fuel (next :: done) { after with rest := rest }
        else readChain? outlined fuel (atom.pattern :: done) after

/-- One atom. -/
def readAtom? (outlined : Outline) : Nat → Progress → Option (Atom × Progress)
  | 0, _ => none
  | fuel + 1, p =>
    match p.rest with
    | [] => none
    | u :: rest =>
      if u = '^' then some (⟨.atStart, false⟩, { p with rest := rest })
      else if u = '$' then some (⟨.atEnd, false⟩, { p with rest := rest })
      else if u = '(' then readGroup? outlined fuel { p with rest := rest }
      else if u = '.' then some (⟨.unit ⟨true, UnitClass.lineEnds⟩, true⟩, { p with rest := rest })
      else if u = '[' then do
        let (negated, inside) := match rest with
          | n :: more => if n = '^' then (true, more) else (false, rest)
          | [] => (false, rest)
        let (ranges, after) ← readRanges? outlined (inside.length + 1) inside
        some (⟨.unit ⟨negated, ranges⟩, true⟩, { p with rest := after })
      else if u = '\\' then readEscape? outlined p rest
      else if u = '*' || u = '+' || u = '?' then none
      else if u = '\x7b' && (readBounds? rest).isSome then none
      else some (⟨.unit (one u), true⟩, { p with rest := rest })

/-- What stands behind an opening parenthesis, up to the closing one. -/
def readGroup? (outlined : Outline) : Nat → Progress → Option (Atom × Progress)
  | 0, _ => none
  | fuel + 1, p =>
    let close (after : Progress) : Option Progress :=
      match after.rest with
      | u :: rest => if u = ')' then some { after with rest := rest } else none
      | [] => none
    let plain (inside : Progress) : Option (Atom × Progress) := do
      let (inner, after) ← readChoice? outlined fuel inside
      some (⟨inner, true⟩, ← close after)
    let looking (behind negated : Bool) (inside : List CodeUnit) : Option (Atom × Progress) := do
      let (inner, after) ← readChoice? outlined fuel { p with rest := inside }
      some (⟨.look behind negated (p.groups + 1) (after.groups - p.groups) inner, !behind⟩,
        ← close after)
    let numbered (names : Names) (inside : List CodeUnit) : Option (Atom × Progress) := do
      let number := p.groups + 1
      let (inner, after) ← readChoice? outlined fuel ⟨inside, number, names⟩
      some (⟨.group number inner, true⟩, ← close after)
    match p.rest with
    | q :: kind :: rest =>
      if q = '?' then
        if kind = ':' then plain { p with rest := rest }
        else if kind = '=' then looking false false rest
        else if kind = '!' then looking false true rest
        else if kind = '<' then
          match rest with
          | m :: more =>
            if m = '=' then looking true false more
            else if m = '!' then looking true true more
            else do
              let (name, inside) ← readName? rest
              if p.names.any (·.1 == name) then none
              else numbered (p.names ++ [(name, p.groups + 1)]) inside
          | [] => none
        else none
      else numbered p.names p.rest
    | [q] => if q = '?' then none else numbered p.names p.rest
    | [] => numbered p.names p.rest

end

/-- The pattern that a text is and the number of its groups. -/
def read? (source : Text) : Option (Pattern × Nat) := do
  let outlined := outline false ⟨0, false, []⟩ source.units
  let (pattern, after) ← readChoice? outlined (6 * source.length + 6) ⟨source.units, 0, []⟩
  if after.rest.isEmpty then some (pattern, after.groups) else none

end BrowserFlow.Pattern
