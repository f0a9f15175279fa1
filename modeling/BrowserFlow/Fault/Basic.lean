import BrowserFlow.Json.Written
import BrowserFlow.Value.Moment

/-!
What goes wrong, by cause, and what collaborators hand over. A fault is an error
of the engine: each constructor is a cause and carries what its message names.
A failure is anything with a message that a collaborator may throw, an engine
fault among them. A datum is anything that a collaborator may return or throw:
besides values it may be absent, a date, bytes, a function and so on.
-/

set_option autoImplicit false
set_option relaxedAutoImplicit false

namespace BrowserFlow

/-- What is wrong with the text of a template; positions count units of the placeholder or, for
placeholders themselves, of the template. -/
inductive TemplateFlaw where
  /-- A quoted text without its closing quote. -/
  | unterminatedString (position : Nat)
  /-- A character that begins no token. -/
  | unexpectedCharacter (unit : CodeUnit) (position : Nat)
  /-- No token at all. -/
  | emptyExpression
  /-- A token that cannot stand where it does. -/
  | unexpectedToken (written : Text) (position : Nat)
  /-- The tokens end too early. -/
  | unexpectedEnd
  /-- Another token in the place of a punctuation mark. -/
  | expectedMark (mark : Text) (position : Nat)
  /-- No name or index after a point. -/
  | expectedName (position : Nat)
  /-- No index or quoted key in brackets. -/
  | expectedIndex (position : Nat)
  /-- A placeholder without its end. -/
  | unterminatedPlaceholder (position : Nat)
  /-- A blank placeholder. -/
  | emptyPlaceholder (position : Nat)
  /-- A placeholder that opens inside of another. -/
  | nestedPlaceholder (position : Nat)
  /-- A flaw that a collaborator reports in words. -/
  | reported (detail : Text)
  deriving DecidableEq

namespace TemplateFlaw

/-- The flaw in words. -/
def message : TemplateFlaw → Text
  | .unterminatedString pos => "unterminated string starting at " ++ Text.ofNat pos
  | .unexpectedCharacter unit pos =>
    "unexpected character \"" ++ ⟨[unit]⟩ ++ "\" at " ++ Text.ofNat pos
  | .emptyExpression => "empty expression"
  | .unexpectedToken written pos => "unexpected \"" ++ written ++ "\" at " ++ Text.ofNat pos
  | .unexpectedEnd => "unexpected end of expression"
  | .expectedMark mark pos => "expected \"" ++ mark ++ "\" at " ++ Text.ofNat pos
  | .expectedName pos => "expected a property name after \".\" at " ++ Text.ofNat pos
  | .expectedIndex pos => "expected an index or quoted key at " ++ Text.ofNat pos
  | .unterminatedPlaceholder pos => "unterminated placeholder at " ++ Text.ofNat pos
  | .emptyPlaceholder pos => "empty placeholder at " ++ Text.ofNat pos
  | .nestedPlaceholder pos => "nested placeholder at " ++ Text.ofNat pos
  | .reported detail => detail

end TemplateFlaw

/-- A value of the wrong kind or in the wrong range. -/
inductive Mismatch where
  /-- A path reads a member of something that has none. -/
  | unreadable (segment : Text) (kind : Kind) (reference : Text)
  /-- An arithmetic operator between operands that it is not for. -/
  | operands (operator : Text) (left right : Kind)
  /-- A division or remainder by zero. -/
  | divisionByZero
  /-- An arithmetic result that is too large. -/
  | notFinite (left : Number) (operator : Text) (right : Number)
  /-- A minus sign before something that is not a number. -/
  | negation (kind : Kind)
  /-- A comparison between operands that it is not for. -/
  | comparison (operator : Text) (left right : Kind)
  /-- A pattern that cannot be read. -/
  | pattern (source : Text)
  /-- Something else in the place of a number. -/
  | notANumber (label : Text) (value : Value)
  /-- A counting loop that does not move. -/
  | zeroStep
  /-- A loop over something that is not a sequence. -/
  | notASequence (kind : Kind)
  /-- A number of turns that is not a natural number. -/
  | badTimes (times : Number)
  /-- An addition to something that is not a sequence. -/
  | append (name : Text) (kind : Kind)
  /-- A wait of less than no time. -/
  | negativeWait (seconds : Number)
  /-- A name that no variable can have. -/
  | variableName (name : Text)
  /-- A mismatch that a collaborator reports in words. -/
  | reported (message : Text)

namespace Mismatch

/-- The mismatch in words. -/
def message : Mismatch → Text
  | .unreadable segment kind reference =>
    "Cannot read \"" ++ segment ++ "\" of " ++ kind.name ++ " in \"" ++ reference ++ "\""
  | .operands operator left right =>
    "Operator \"" ++ operator ++ "\" cannot be applied to " ++ left.name ++ " and " ++ right.name
  | .divisionByZero => "Division by zero"
  | .notFinite left operator right =>
    "Arithmetic result is not a finite number: " ++ left.toText ++ " " ++ operator ++ " "
      ++ right.toText
  | .negation kind => "Cannot negate " ++ kind.name
  | .comparison operator left right =>
    "Cannot apply \"" ++ operator ++ "\" to " ++ left.name ++ " and " ++ right.name
  | .pattern source => "Invalid pattern " ++ Json.quote source ++ " for \"matches\""
  | .notANumber label value =>
    label ++ " must be a number, got " ++ value.kind.name ++ " " ++ value.toText
  | .zeroStep => "for loop step must not be 0"
  | .notASequence kind => "for_each items must be a sequence, got " ++ kind.name
  | .badTimes times => "repeat times must be a non-negative integer, got " ++ times.toText
  | .append name kind =>
    "Cannot append to \"" ++ name ++ "\": it holds a " ++ kind.name ++ ", not a sequence"
  | .negativeWait seconds => "wait duration must not be negative, got " ++ seconds.toText
  | .variableName name => "\"" ++ name ++ "\" is not a valid variable name"
  | .reported message => message

end Mismatch

/-- The kinds of engine faults that reports tell apart. -/
inductive FaultKind where
  | validation | reference | mismatch | template | execution | timeout | exhausted | cancelled
  deriving DecidableEq

namespace FaultKind

/-- The name of a kind in reports. -/
def name : FaultKind → Text
  | .validation => "ValidationError"
  | .reference => "ReferenceError"
  | .mismatch => "TypeMismatchError"
  | .template => "TemplateSyntaxError"
  | .execution => "StepExecutionError"
  | .timeout => "TimeoutError"
  | .exhausted => "RetryExhaustedError"
  | .cancelled => "Cancelled"

/-- The name that a fault of this kind goes by in a log. -/
def title : FaultKind → Text
  | .reference => "UnresolvedReferenceError"
  | .timeout => "StepTimeoutError"
  | .cancelled => "CancelledError"
  | kind => kind.name

end FaultKind

/-- The errors that reading or calculating raises by itself. -/
inductive RuntimeKind where
  /-- Text that is not in its language. -/
  | malformed
  /-- A value outside of a range. -/
  | outOfRange
  /-- A value of a wrong type. -/
  | wrongType
  deriving DecidableEq

namespace RuntimeKind

/-- The name of a kind. -/
def name : RuntimeKind → Text
  | .malformed => "SyntaxError"
  | .outOfRange => "RangeError"
  | .wrongType => "TypeError"

end RuntimeKind

mutual

/-- Anything that a collaborator hands over. -/
inductive Datum where
  /-- Nothing at all. -/
  | absent
  /-- No value. -/
  | null
  /-- A truth value. -/
  | bool (b : Bool)
  /-- A number. -/
  | number (x : Number)
  /-- A text. -/
  | text (t : Text)
  /-- An integer of any size. -/
  | integer (n : Int)
  /-- A symbol. -/
  | symbol (description : Text)
  /-- A function. -/
  | function
  /-- A date, which may be no moment. -/
  | date (moment : Option Moment)
  /-- Octets. -/
  | bytes (octets : List UInt8)
  /-- Octets of a file or a message. -/
  | buffer (octets : List UInt8)
  /-- Items in a row. -/
  | sequence (items : List Datum)
  /-- An object with its own entries and those of its ancestor. -/
  | object (own inherited : List (Text × Datum))
  /-- A table from anything to anything. -/
  | map
  /-- A set of anything. -/
  | set
  /-- A pattern. -/
  | pattern (source : Text)
  /-- An error. -/
  | failure (f : Failure)

/-- An error, of the engine or not. -/
inductive Failure where
  /-- A fault of the engine. -/
  | fault (f : Fault)
  /-- A refused configuration. -/
  | configuration (issues : List Text)
  /-- An error that reading or calculating raised. -/
  | runtime (kind : RuntimeKind) (message : Text)
  /-- Any other error, which may have a name of its own. -/
  | plain (name : Option Text) (message : Text)

/-- A fault of the engine. -/
inductive Fault where
  /-- A document that is not a workflow. -/
  | validation (issues : List Text)
  /-- A name or member that is not there. -/
  | unresolved (reference : Text)
  /-- A value of the wrong kind or in the wrong range. -/
  | mismatch (m : Mismatch)
  /-- A template that cannot be read. -/
  | template (source : Text) (flaw : TemplateFlaw)
  /-- A collaborator failed. -/
  | execution (message : Text) (cause : Datum)
  /-- A collaborator took too long. -/
  | timeout (message : Text) (cause : Datum)
  /-- The last attempt failed too. -/
  | exhausted (step : Text) (attempts : Nat) (last : Failure)
  /-- The run was cancelled, for a reason that may be absent. -/
  | cancelled (reason : Datum)

end

instance : Inhabited Datum := ⟨.absent⟩
instance : Inhabited Fault := ⟨.cancelled .absent⟩

/-- A list of issues, each on a line of its own below a heading. -/
def issueList (heading : Text) (issues : List Text) : Text :=
  heading ++ "\n" ++ Text.join "\n" (issues.map fun issue ↦ "  - " ++ issue)

namespace Fault

/-- The kind of a fault. -/
def kind : Fault → FaultKind
  | .validation _ => .validation
  | .unresolved _ => .reference
  | .mismatch _ => .mismatch
  | .template _ _ => .template
  | .execution _ _ => .execution
  | .timeout _ _ => .timeout
  | .exhausted _ _ _ => .exhausted
  | .cancelled _ => .cancelled

end Fault

mutual

/-- The message of an error. -/
def Failure.message : Failure → Text
  | .fault f => f.message
  | .configuration issues => issueList "Invalid configuration:" issues
  | .runtime _ message => message
  | .plain _ message => message

/-- The message of a fault. -/
def Fault.message : Fault → Text
  | .validation issues => issueList "Invalid workflow document:" issues
  | .unresolved reference => "Unresolved reference \"" ++ reference ++ "\""
  | .mismatch m => m.message
  | .template source flaw => "Invalid template \"" ++ source ++ "\": " ++ flaw.message
  | .execution message _ => message
  | .timeout message _ => message
  | .exhausted step attempts last =>
    "Step \"" ++ step ++ "\" failed after " ++ Text.ofNat attempts ++ " attempts: " ++ last.message
  | .cancelled (.failure reason) => reason.message
  | .cancelled _ => "Workflow run was cancelled"

end

namespace Failure

/-- The name of an error. -/
def name : Failure → Text
  | .fault f => f.kind.title
  | .configuration _ => "ConfigError"
  | .runtime kind _ => kind.name
  | .plain name _ => name.getD "Error"

end Failure

/-- What a report says about a fault. -/
structure FaultReport where
  /-- The kind of fault. -/
  kind : FaultKind
  /-- The message. -/
  message : Text

namespace Fault

/-- What a report says about a fault. -/
def info (f : Fault) : FaultReport := ⟨f.kind, f.message⟩

end Fault

end BrowserFlow
