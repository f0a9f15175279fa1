import BrowserFlow.Text.Basic

/-!
Lower case, as far as it can be told apart by what reads the folded text. The
readers look for ASCII letters only: for words in a message, for a file name's
extension, for the letters of a result key. Besides A to Z two characters have a
lower case that holds an ASCII letter: the Kelvin sign, which becomes k, and the
capital I with a dot, which becomes i and a combining dot. Every other character
stands for itself here, because its lower case holds no ASCII letter either.
-/

set_option autoImplicit false
set_option relaxedAutoImplicit false

namespace BrowserFlow

/-- The units of a unit's lower case. -/
def CodeUnit.fold (u : CodeUnit) : List CodeUnit :=
  if u.isUpper then [u + 0x20]
  else if u == 0x212A then ['k']
  else if u == 0x130 then ['i', 0x307]
  else [u]

/-- A text with each letter in lower case. -/
def Text.fold (t : Text) : Text := ⟨t.units.flatMap CodeUnit.fold⟩

end BrowserFlow
