import BrowserFlow.Page.Selector
import BrowserFlow.Run.Call
import BrowserFlow.Storage.Path

/-!
A page, and how requests to the browser are carried out on it. A page is what it
shows: the elements that each way of locating finds, the results of scripts, and
the methods that fail. Everything that is asked of the page is noted, in its
order, before it can fail. Main statement: a method that fails has been noted.
-/

set_option autoImplicit false
set_option relaxedAutoImplicit false

namespace BrowserFlow

/-- An element of a page. -/
inductive Element where
  /-- An element with its text, its attributes and what selectors find inside of it. -/
  | mk (text : Option Text) (attributes : List (Text × Text)) (inner : List (Text × List Element))
  deriving Inhabited

namespace Element

/-- The text of an element. -/
def text : Element → Option Text
  | .mk text _ _ => text

/-- An attribute of an element. -/
def attribute? (attributeName : Text) : Element → Option Text
  | .mk _ attributes _ => Entries.find? attributes attributeName

/-- The elements that a selector finds inside of an element. -/
def matching (selector : Text) : Element → List Element
  | .mk _ _ inner => (Entries.find? inner selector).getD []

end Element

/-- What a page shows. -/
structure Page where
  /-- The elements that are found under each label of a target. -/
  elements : Entries (List Element)
  /-- The results of scripts. -/
  scripts : Entries Datum
  /-- What methods throw. -/
  failures : Entries Datum

/-- Something that was asked of a page. -/
structure PageCall where
  /-- What it was asked of. -/
  label : Text
  /-- What was asked. -/
  method : Text
  /-- The operands. -/
  operands : List Value

/-- How a page is used. -/
structure Viewing where
  /-- How long going to an address may take, in seconds. -/
  navigationTimeout : Number
  /-- The place where pictures go. -/
  outputPlace : FilePlace

/-- Asking a page, which may throw. -/
abbrev Visit := ExceptT Datum (StateM (List PageCall))

/-- Elements that have been located. -/
structure Located where
  /-- How they were located. -/
  label : Text
  /-- The elements. -/
  elements : List Element

namespace Target

/-- The label of a target. -/
def label : Target → Text
  | .testId id => "testid:" ++ id
  | .role name none => "role:" ++ name
  | .role name (some accessibleName) => "role:" ++ name ++ ":" ++ accessibleName
  | .css selector => "css:" ++ selector

/-- How a page is asked for a target. -/
def question : Target → PageCall
  | .testId id => ⟨"page", "getByTestId", [.text id]⟩
  | .role name none => ⟨"page", "getByRole", [.text name]⟩
  | .role name (some accessibleName) =>
    ⟨"page", "getByRole", [.text name, .ofEntries [("name", .text accessibleName)]]⟩
  | .css selector => ⟨"page", "locator", [.text selector]⟩

end Target

namespace Page

/-- Something asked of a page and noted. -/
def ask (page : Page) (label method : Text) (operands : List Value) : Visit Unit := do
  modify (· ++ [⟨label, method, operands⟩])
  match Entries.find? page.failures method with
  | some what => throw what
  | none => return ()

/-- The elements that a selector locates. -/
def locate (page : Page) (selector : Text) : Visit Located := do
  let target := Target.ofSelector selector
  let question := target.question
  page.ask question.label question.method question.operands
  return ⟨target.label, (Entries.find? page.elements target.label).getD []⟩

/-- The first of located elements. -/
def first (page : Page) (found : Located) : Visit Located := do
  page.ask found.label "first" []
  return ⟨found.label ++ ".first", found.elements.take 1⟩

/-- The text of the first of located elements without white space at its ends. -/
def trimmedText (page : Page) (found : Located) : Visit Text := do
  page.ask found.label "textContent" []
  return ((found.elements.head?.bind Element.text).getD Text.empty).trim

/-- An attribute of the first of located elements. -/
def readAttribute (page : Page) (found : Located) (attributeName : Text) : Visit (Option Text) := do
  page.ask found.label "getAttribute" [.text attributeName]
  return found.elements.head?.bind (Element.attribute? attributeName)

/-- The text or the attribute that a field spec reads. -/
def readPart (page : Page) (found : Located) (attributeName : Option Text) :
    Visit (Option Text) := do
  match attributeName with
  | none => return some (← page.trimmedText found)
  | some name => page.readAttribute found name

/-- What a field spec reads from an element; nothing where its selector finds nothing. -/
def fieldValue (page : Page) (element : Located) (spec : FieldSpec) : Visit (Option Text) := do
  if spec.selector.isEmpty then page.readPart element spec.attributeName
  else
    page.ask element.label "locator" [.text spec.selector]
    let inner : Located := ⟨element.label ++ ">" ++ spec.selector,
      (element.elements.head?.map (Element.matching spec.selector)).getD []⟩
    page.ask inner.label "count" []
    if inner.elements.isEmpty then return none
    else page.readPart (← page.first inner) spec.attributeName

/-- A text or null. -/
def textOrNull : Option Text → Datum
  | some text => .text text
  | none => .null

/-- The fields of a record read from an element, in order, over those that are done. -/
def fieldValues (page : Page) (element : Located) (done : Entries Datum) :
    List (Text × Text) → Visit (Entries Datum)
  | [] => return done
  | (key, spec) :: rest => do
    let content ← page.fieldValue element (.ofText spec)
    fieldValues page element (done.assign key (textOrNull content)) rest

/-- The record of an element: its text, or the fields that are asked for. -/
def readRecord (page : Page) (fields : Option (Entries Text)) (element : Located) :
    Visit Datum := do
  match fields with
  | none => return .object [("text", .text (← page.trimmedText element))] []
  | some specs => return .object (← page.fieldValues element [] specs) []

/-- The records of the elements of a row, of which the first has this index. -/
def readRecords (page : Page) (fields : Option (Entries Text)) (label : Text) :
    Nat → List Element → Visit (List Datum)
  | _, [] => return []
  | index, element :: rest => do
    let record ← page.readRecord fields ⟨label ++ "[" ++ Text.ofNat index ++ "]", [element]⟩
    return record :: (← readRecords page fields label (index + 1) rest)

/-- Seconds in milliseconds. -/
def milliseconds (seconds : Number) : Value := .number (seconds * 1000)

/-- A script that is the body of a function, as an expression. -/
def bodyScript (script : Text) : Text := "(async () => \x7b\n" ++ script ++ "\n\x7d)()"

/-- The result of a script. -/
def evaluate (page : Page) (script : Text) : Visit Datum := do
  page.ask "page" "evaluate" [.text script]
  return (Entries.find? page.scripts script).getD .null

/-- Something asked of the elements that a selector locates. -/
def act (page : Page) (selector method : Text) (operands : List Value) : Visit Datum := do
  let found ← page.locate selector
  page.ask found.label method operands
  return .absent

/-- A request to the browser carried out on a page. Requests to storage are not its business. -/
def carryOut (page : Page) (viewing : Viewing) : Call → Visit Datum
  | .navigate url => do
    page.ask "page" "goto" [.text url, .ofEntries [("waitUntil", .text "domcontentloaded"),
      ("timeout", milliseconds viewing.navigationTimeout)]]
    return .absent
  | .click selector => page.act selector "click" []
  | .hover selector => page.act selector "hover" []
  | .type selector input => page.act selector "fill" [.text input]
  | .wait seconds => do
    page.ask "page" "waitForTimeout" [milliseconds seconds]
    return .absent
  | .waitFor selector seconds => do
    let found ← page.first (← page.locate selector)
    page.ask found.label "waitFor" [.ofEntries [("state", .text "visible"),
      ("timeout", milliseconds seconds)]]
    return .absent
  | .extract selector fields => do
    let found ← page.locate selector
    page.ask found.label "all" []
    return .sequence (← page.readRecords fields found.label 0 found.elements)
  | .getText selector => do
    return .text (← page.trimmedText (← page.first (← page.locate selector)))
  | .getAttribute selector attributeName => do
    let found ← page.first (← page.locate selector)
    return textOrNull (← page.readAttribute found attributeName)
  | .evaluate script => page.evaluate script
  | .executeScript script => page.evaluate (bodyScript script)
  | .screenshot path => do
    let place := FilePath.resolve viewing.outputPlace path
    page.ask "page" "screenshot" [.ofEntries [("path", .text (FilePath.placeText place)),
      ("fullPage", .bool true)]]
    return .absent
  | .setInputFiles selector paths => page.act selector "setInputFiles" [.sequence (paths.map .text)]
  | .save _ _ => return .absent
  | .load _ => return .absent

/-! ### What is noted -/

/-- What is asked is noted, and fails or not. -/
theorem run_ask (page : Page) (label method : Text) (operands : List Value)
    (noted : List PageCall) :
    (page.ask label method operands).run.run noted =
      (match Entries.find? page.failures method with
        | some what => .error what
        | none => .ok (), noted ++ [⟨label, method, operands⟩]) := by
  unfold ask
  cases Entries.find? page.failures method <;> rfl

end Page

end BrowserFlow
