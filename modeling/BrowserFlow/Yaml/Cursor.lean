import BrowserFlow.Text.Basic

/-!
Where reading stands in a YAML text. Besides the units that are left a cursor
knows its column, its line, the indentation of that line and whether a tab has
been passed over in front of the content. Main statement: passing over what
separates tokens never brings back a unit.
-/

set_option autoImplicit false
set_option relaxedAutoImplicit false

namespace BrowserFlow.Yaml

/-- A space or a tab. -/
def isSpace (u : CodeUnit) : Bool := u = ' ' || u = '\t'

/-- A unit that ends a line. -/
def isBreak (u : CodeUnit) : Bool := u = '\n' || u = '\r'

/-- A blank of an indentation. -/
def isIndent (u : CodeUnit) : Bool := u = ' '

/-- A unit that separates tokens. -/
def isGap (u : CodeUnit) : Bool := isSpace u || isBreak u

/-- A unit that has a meaning of its own inside of brackets. -/
def isFlowMark (u : CodeUnit) : Bool :=
  u = ',' || u = '[' || u = ']' || u = '\x7b' || u = '\x7d'

/-- A place in a text. -/
structure Cursor where
  /-- The units that are left. -/
  rest : List CodeUnit
  /-- The unit before them. -/
  before : CodeUnit
  /-- The units of the line that have been passed. -/
  column : Nat
  /-- The lines that have been passed. -/
  line : Nat
  /-- The spaces at the beginning of the line. -/
  indent : Nat
  /-- Whether a tab has been passed over on the line. -/
  tabbed : Bool

namespace Cursor

/-- The place at the beginning of a text, behind the spaces of its first line. -/
def start (units : List CodeUnit) : Cursor :=
  let spaces := (units.takeWhile isIndent).length
  ⟨units.drop spaces, '\n', spaces, 0, spaces, false⟩

/-- Whether nothing is left. -/
def atEnd (c : Cursor) : Bool := c.rest.isEmpty

/-- Whether a unit comes next. -/
def isAt (c : Cursor) (u : CodeUnit) : Bool := c.rest.head? == some u

/-- Whether a unit of a class comes next. -/
def isAtAny (c : Cursor) (p : CodeUnit → Bool) : Bool := c.rest.head?.any p

/-- Whether a unit of a class follows the next one. -/
def precedes (c : Cursor) (p : CodeUnit → Bool) : Bool := c.rest.tail.head?.any p

/-- The place behind so many units of the line. -/
def forward (c : Cursor) (count : Nat) : Cursor :=
  { c with
    rest := c.rest.drop count
    before := (c.rest.take count).getLast?.getD c.before
    column := c.column + count }

/-- The place behind the next unit. -/
def next (c : Cursor) : Cursor := c.forward 1

/-- The units of a class that come next and the place behind them. -/
def takeWhile (c : Cursor) (p : CodeUnit → Bool) : List CodeUnit × Cursor :=
  let taken := c.rest.takeWhile p
  (taken, c.forward taken.length)

/-- The place behind the units of a class that come next. -/
def skipWhile (c : Cursor) (p : CodeUnit → Bool) : Cursor := (c.takeWhile p).2

/-- The place behind spaces and tabs, which are remembered. -/
def skipSpaces (c : Cursor) : Cursor :=
  let (taken, after) := c.takeWhile isSpace
  { after with tabbed := c.tabbed || taken.contains ('\t' : CodeUnit) }

/-- The place at the end of the line, if a comment comes next. -/
def skipComment (c : Cursor) : Cursor :=
  if c.isAt '#' then c.skipWhile (!isBreak ·) else c

/-- The place at the beginning of the next line. A carriage return and a line feed end one line. -/
def skipBreak (c : Cursor) : Cursor :=
  let count := if c.isAt '\r' && c.precedes (· == '\n') then 2 else 1
  { c.forward count with column := 0, line := c.line + 1, tabbed := false }

/-- The place behind the spaces of a line, which are its indentation. -/
def takeIndent (c : Cursor) : Cursor :=
  let (spaces, after) := c.takeWhile isIndent
  { after with indent := spaces.length }

/-- The place behind what separates tokens, at most so many line ends, and the line ends passed. -/
def skipLines (comments : Bool) : Nat → Cursor → Nat × Cursor
  | 0, c => (0, c)
  | fuel + 1, c =>
    let spaced := c.skipSpaces
    let ready := if comments then spaced.skipComment else spaced
    if ready.isAtAny isBreak then
      let (passed, after) := skipLines comments fuel ready.skipBreak.takeIndent
      (passed + 1, after)
    else (0, ready)

/-- The place behind white space, line ends and, where they may stand, comments; and the number of
line ends passed. -/
def skipGap (c : Cursor) (comments : Bool) : Nat × Cursor :=
  skipLines comments (c.rest.length + 1) c

/-- Whether a document separator stands here: three hyphens or periods at the beginning of a line,
with nothing joined to them. -/
def atSeparator (c : Cursor) : Bool :=
  c.column == 0 &&
    match c.rest with
    | u :: v :: w :: rest => (u = '-' || u = '.') && v = u && w = u && rest.head?.all isGap
    | _ => false

/-! ### What is left -/

theorem forward_rest_length (c : Cursor) (count : Nat) :
    (c.forward count).rest.length ≤ c.rest.length := by
  simp [forward]

theorem skipSpaces_rest_length (c : Cursor) : c.skipSpaces.rest.length ≤ c.rest.length :=
  forward_rest_length c _

theorem skipComment_rest_length (c : Cursor) : c.skipComment.rest.length ≤ c.rest.length := by
  unfold skipComment
  split
  · exact forward_rest_length c _
  · exact Nat.le_refl _

theorem skipLines_rest_length (comments : Bool) (fuel : Nat) (c : Cursor) :
    (skipLines comments fuel c).2.rest.length ≤ c.rest.length := by
  induction fuel generalizing c with
  | zero => exact Nat.le_refl _
  | succ fuel ih =>
    have hready : (if comments then c.skipSpaces.skipComment else c.skipSpaces).rest.length
        ≤ c.rest.length := by
      split
      · exact Nat.le_trans (skipComment_rest_length _) (skipSpaces_rest_length c)
      · exact skipSpaces_rest_length c
    simp only [skipLines]
    generalize (if comments then c.skipSpaces.skipComment else c.skipSpaces) = ready at hready ⊢
    split
    · exact Nat.le_trans (ih _) (Nat.le_trans (forward_rest_length _ _)
        (Nat.le_trans (forward_rest_length _ _) hready))
    · exact hready

/-- Passing over what separates tokens never brings back a unit. -/
theorem skipGap_rest_length (c : Cursor) (comments : Bool) :
    (c.skipGap comments).2.rest.length ≤ c.rest.length :=
  skipLines_rest_length comments _ c

end Cursor

end BrowserFlow.Yaml
