import BrowserFlow.Text.Fold
import BrowserFlow.Workflow.Basic

/-!
Result keys: the names under which the results of steps are bound. The name of a
step is put into lower case and every run of other units than letters and digits
becomes one low line, none at the ends. When nothing is left the kind and the
selector take the place of the name, and then the kind alone; a key that would
begin with a digit gets a word in front, so that every key can be read by a
template.
-/

set_option autoImplicit false
set_option relaxedAutoImplicit false

namespace BrowserFlow.ResultKey

/-- A unit of a key besides the low line. -/
def isKeyUnit (u : CodeUnit) : Bool := u.isLower || u.isDigit

/-- The words of folded units: the runs of letters and digits. -/
def words (word : List CodeUnit) : List CodeUnit → List (List CodeUnit)
  | [] => if word.isEmpty then [] else [word.reverse]
  | u :: rest =>
    if isKeyUnit u then words (u :: word) rest
    else if word.isEmpty then words [] rest
    else word.reverse :: words [] rest

/-- The words of a text put together with low lines. -/
def normalize (t : Text) : Text :=
  Text.join "_" ((words [] t.fold.units).map Text.mk)

/-- The key for a name, the name of a kind and a selector. -/
def derive (name kind : Text) (selector : Option Text) : Text :=
  let ofName := normalize name
  let ofKind := normalize (kind ++ " " ++ selector.getD Text.empty)
  let key := if !ofName.isEmpty then ofName else if !ofKind.isEmpty then ofKind else kind
  if (key.units.head?.map CodeUnit.isDigit).getD false then "step_" ++ key else key

end BrowserFlow.ResultKey

namespace BrowserFlow.Step

/-- The key under which the result of a step is bound. -/
def resultKey (step : Step) : Text := ResultKey.derive step.name step.kind.name step.selector?

end BrowserFlow.Step
