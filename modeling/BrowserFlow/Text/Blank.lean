import BrowserFlow.Text.Basic

/-!
White space. The blank units are those of the horizontal and vertical white
space of ASCII, the space separators of every script, the two line separators
and the byte order mark; the next-line control and the zero-width space are not
among them.
-/

set_option autoImplicit false
set_option relaxedAutoImplicit false

namespace BrowserFlow

/-- A unit of white space. -/
def CodeUnit.isBlank (u : CodeUnit) : Bool :=
  (0x09 ≤ u && u ≤ 0x0D) || u == 0x20 || u == 0xA0 || u == 0x1680
    || (0x2000 ≤ u && u ≤ 0x200A) || u == 0x2028 || u == 0x2029 || u == 0x202F
    || u == 0x205F || u == 0x3000 || u == 0xFEFF

namespace Text

/-- A list of units without the blank ones at its end. -/
def trimEndUnits (units : List CodeUnit) : List CodeUnit :=
  (units.reverse.dropWhile CodeUnit.isBlank).reverse

/-- A text without the blank units at its beginning. -/
def trimStart (t : Text) : Text := ⟨t.units.dropWhile CodeUnit.isBlank⟩

/-- A text without the blank units at its end. -/
def trimEnd (t : Text) : Text := ⟨trimEndUnits t.units⟩

/-- A text without the blank units at its ends. -/
def trim (t : Text) : Text := t.trimStart.trimEnd

/-- Whether every unit is blank. -/
def isBlank (t : Text) : Bool := t.units.all CodeUnit.isBlank

end Text

end BrowserFlow
