import BrowserFlow.Expression.Basic
import BrowserFlow.Number.Numeral
import BrowserFlow.Text.Blank

/-!
Tokens of an expression. Reading goes from left to right: white space is skipped,
and every other unit begins a token or is refused. A token knows the position of
its first unit and how many units it takes, so that the tokens of a text and the
white space between them account for all of its units.
-/

set_option autoImplicit false
set_option relaxedAutoImplicit false

namespace BrowserFlow

/-- What a token says. -/
inductive Lexeme where
  /-- A number, never negative. -/
  | number (x : Number)
  /-- A quoted text without its quotes. -/
  | quoted (t : Text)
  /-- A name. -/
  | name (t : Text)
  /-- A punctuation mark or an operator. -/
  | mark (u : CodeUnit)
  deriving DecidableEq

namespace Lexeme

/-- What a token says, as messages show it. -/
def shown : Lexeme → Text
  | .number x => x.toText
  | .quoted t => t
  | .name t => t
  | .mark u => ⟨[u]⟩

end Lexeme

/-- A token in its place. -/
structure Token where
  /-- What it says. -/
  lexeme : Lexeme
  /-- The position of its first unit. -/
  position : Nat
  /-- The number of its units. -/
  width : Nat
  deriving DecidableEq

namespace CodeUnit

/-- A unit that a name can begin with. -/
def beginsName (u : CodeUnit) : Bool := u.isLetter || u == '_'

/-- A unit that a name can go on with. -/
def continuesName (u : CodeUnit) : Bool := u.isLetter || u == '_' || u.isDigit

/-- A punctuation mark or an operator of expressions. -/
def isMark (u : CodeUnit) : Bool :=
  u == '.' || u == '[' || u == ']' || u == '(' || u == ')'
    || u == '+' || u == '-' || u == '*' || u == '/' || u == '%'

/-- The unit that a backslash before a unit stands for. -/
def unescaped (u : CodeUnit) : CodeUnit :=
  if u = 'n' then 10 else if u = 't' then 9 else if u = 'r' then 13 else u

end CodeUnit

/-- Whether a text is a name. -/
def Text.isName (t : Text) : Bool :=
  match t.units with
  | [] => false
  | first :: rest => first.beginsName && rest.all CodeUnit.continuesName

namespace Token

/-- The text up to the closing quote and the number of units it takes, the quote included. -/
def quotedContent? (quote : CodeUnit) : List CodeUnit → Option (List CodeUnit × Nat)
  | [] => none
  | u :: rest =>
    if u = quote then some ([], 1)
    else if u = '\\' then
      match rest with
      | [] => none
      | next :: more =>
        (quotedContent? quote more).map fun (content, width) ↦
          (next.unescaped :: content, width + 2)
    else (quotedContent? quote rest).map fun (content, width) ↦ (u :: content, width + 1)

/-- The digits of a number and of its fraction; behind a point there is no fraction. -/
def numberContent (afterPoint : Bool) (units : List CodeUnit) : List CodeUnit :=
  let whole := units.takeWhile CodeUnit.isDigit
  match units.dropWhile CodeUnit.isDigit with
  | point :: rest =>
    let fraction := rest.takeWhile CodeUnit.isDigit
    if !afterPoint && point = '.' && !fraction.isEmpty then whole ++ point :: fraction else whole
  | [] => whole

/-- The token that begins with a unit that is not blank, and the number of units it takes after
that one. -/
def scan (afterPoint : Bool) (position : Nat) (u : CodeUnit) (rest : List CodeUnit) :
    Except TemplateFlaw (Lexeme × Nat) :=
  if u.isDigit then
    let content := numberContent afterPoint (u :: rest)
    .ok (.number ((Number.ofText? ⟨content⟩).getD .nan), content.length - 1)
  else if u.beginsName then
    let more := rest.takeWhile CodeUnit.continuesName
    .ok (.name ⟨u :: more⟩, more.length)
  else if u = '"' || u = '\'' then
    match quotedContent? u rest with
    | some (content, width) => .ok (.quoted ⟨content⟩, width)
    | none => .error (.unterminatedString position)
  else if u.isMark then .ok (.mark u, 0)
  else .error (.unexpectedCharacter u position)

/-- Whether a number that follows this token has no fraction. -/
def isPoint (lexeme : Lexeme) : Bool := lexeme.shown == "."

/-- The tokens of the units from a position on. -/
def scanAll (afterPoint : Bool) (position : Nat) : List CodeUnit → Except TemplateFlaw (List Token)
  | [] => .ok []
  | u :: rest =>
    if u.isBlank then scanAll afterPoint (position + 1) rest
    else
      match scan afterPoint position u rest with
      | .error flaw => .error flaw
      | .ok (lexeme, more) => do
        let tokens ← scanAll (isPoint lexeme) (position + 1 + more) (rest.drop more)
        .ok (⟨lexeme, position, more + 1⟩ :: tokens)
termination_by units => units.length
decreasing_by all_goals simp only [List.length_cons, List.length_drop]; omega

/-- The tokens of a text. -/
def tokenize (source : Text) : Except TemplateFlaw (List Token) := scanAll false 0 source.units

end Token

end BrowserFlow
