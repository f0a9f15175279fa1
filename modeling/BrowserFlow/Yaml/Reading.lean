import BrowserFlow.Yaml.Node

/-!
YAML documents. A text holds at most one document: directives, a mark that ends
them, a node, and perhaps a separator behind which nothing follows. A text of
less than two units that are not spaces holds none.
-/

set_option autoImplicit false
set_option relaxedAutoImplicit false

namespace BrowserFlow.Yaml

open Reader

/-! ### Directives -/

/-- The parts of a line between its spaces and tabs. -/
def words (units : List CodeUnit) : List Text :=
  let pieces := Text.splitUnits ' ' (units.map fun u ↦ if isSpace u then ' ' else u)
  (pieces.filter fun piece ↦ !piece.isEmpty).map Text.mk

/-- Whether a text is the number of a version of the first generation. -/
def isVersion (t : Text) : Bool :=
  match t.splitOn '.' with
  | [major, minor] =>
    !major.isEmpty && major.units.all CodeUnit.isDigit && Number.digitsValue 10 major.units = 1
      && !minor.isEmpty && minor.units.all CodeUnit.isDigit
  | _ => false

/-- A handle of tags declared. -/
def declare (handle stem : Text) : Reader Unit := do
  let handles := (← get).handles
  if !isHandle handle.units || handles.has handle then throw .badDirective
  match tagName stem.units with
  | .ok stem => modify fun s ↦ { s with handles := handles.put handle stem }
  | .error _ => throw .badDirective

/-- The directives in front of a document: whether there are any, given whether one has been read
and whether one of them was the version. Those without a known name are passed over. -/
def readDirectives (found versioned : Bool) : Nat → Reader Bool
  | 0 => return found
  | fuel + 1 => do
    let _ ← skipGap
    let c ← cursor
    if c.indent > 0 || !c.isAt '%' then return found
    let (name, afterName) := c.next.takeWhile (!isGap ·)
    if name.isEmpty then throw .badDirective
    let (line, afterLine) := afterName.takeWhile (!isBreak ·)
    let operands := (words line).takeWhile fun word ↦ !word.startsWith "#"
    moveTo (if afterLine.atEnd then afterLine else afterLine.skipBreak)
    if (⟨name⟩ : Text) = "YAML" then
      match operands with
      | [version] =>
        if versioned || !isVersion version then throw .badDirective
        readDirectives true true fuel
      | _ => throw .badDirective
    else if (⟨name⟩ : Text) = "TAG" then
      match operands with
      | [handle, stem] =>
        declare handle stem
        readDirectives true versioned fuel
      | _ => throw .badDirective
    else readDirectives true versioned fuel

/-! ### Documents -/

/-- Whether the mark that begins the content of a document stands here. -/
def Cursor.atDocumentStart (c : Cursor) : Bool :=
  c.indent = 0 && (Text.ofString "---").units.isPrefixOf c.rest

/-- The value of the document that begins here. -/
def readDocument : Reader Datum := do
  let length := (← cursor).rest.length
  let directed ← readDirectives false false (length + 1)
  let _ ← skipGap
  if (← cursor).atDocumentStart then
    moveTo ((← cursor).forward 3)
    let _ ← skipGap
  else if directed then throw .directivesUnended
  let node ← readNode ((← cursor).indent - 1) .value false true (6 * length + 32)
  let _ ← skipGap
  let c ← cursor
  if c.atSeparator then
    if c.isAt '.' then
      moveTo (c.forward 3)
      let _ ← skipGap
  else if 2 ≤ c.rest.length then throw .trailing
  return node.datum

/-- The units of a text as documents are read from it: the last line is ended, and a mark of the
byte order at the beginning is left out. -/
def prepared (t : Text) : List CodeUnit :=
  if t.isEmpty then []
  else
    let ended := if t.units.getLast?.any isBreak then t.units else t.units ++ [10]
    if ended.head? = some 0xFEFF then ended.tail else ended

/-- The value that a text is the YAML of; a text without a document is of nothing. -/
def read (t : Text) : Except Flaw Datum := do
  let units := prepared t
  if units.contains 0 then throw .nullUnit
  let start := Cursor.start units
  if start.rest.length < 2 then return .absent
  let (datum, scan) ← readDocument.run ⟨start, [], [], false⟩
  if 2 ≤ scan.cursor.rest.length then throw .severalDocuments
  if scan.isEndless then throw .endless
  return datum

end BrowserFlow.Yaml
