import BrowserFlow.Text.Blank

/-!
What selectors and field specs mean. A selector with a quoted test of the test
id is taken for that id, one that is a role for the role, and any other for what
it is in the language of style sheets. A field spec is a selector inside of an
element and, behind its last at sign, the name of an attribute. Main statements: a
spec broken at its last mark is put together again by it, and one without an at
sign has no attribute.
-/

set_option autoImplicit false
set_option relaxedAutoImplicit false

namespace BrowserFlow

/-- What a selector is taken for. -/
inductive Target where
  /-- The elements with a test id. -/
  | testId (id : Text)
  /-- The elements with a role and, if it is given, an accessible name. -/
  | role (role : Text) (accessibleName : Option Text)
  /-- The elements that a style sheet would select. -/
  | css (selector : Text)
  deriving DecidableEq

namespace Target

/-- A quote of either sort. -/
def isQuote (u : CodeUnit) : Bool := u = '"' || u = '\''

/-- The value between quotes at the beginning, of which either may open and close, and the rest.
There is a value only if it is not empty. -/
def quoted? (units : List CodeUnit) : Option (Text × List CodeUnit) :=
  match units with
  | [] => none
  | opening :: rest =>
    let value := rest.takeWhile (!isQuote ·)
    match rest.drop value.length with
    | _ :: after => if isQuote opening && !value.isEmpty then some (⟨value⟩, after) else none
    | [] => none

/-- The rest behind a text at the beginning. -/
def behind? (beginning : Text) (units : List CodeUnit) : Option (List CodeUnit) :=
  if beginning.units.isPrefixOf units then some (units.drop beginning.length) else none

/-- The value of a test of an attribute at the beginning, and the rest behind its bracket. -/
def attributeTest? (opening : Text) (units : List CodeUnit) : Option (Text × List CodeUnit) := do
  let (value, rest) ← quoted? (← behind? opening units)
  some (value, ← behind? "]" rest)

/-- The test id of the first test of one. -/
def findTestId? : List CodeUnit → Option Text
  | [] => none
  | u :: rest =>
    match attributeTest? "[data-testid=" (u :: rest) with
    | some (id, _) => some id
    | none => findTestId? rest

/-- A unit of the name of a role. -/
def isRoleUnit (u : CodeUnit) : Bool := u.isLetter || u.isDigit || u = '_'

/-- The role that a whole selector is. -/
def role? (units : List CodeUnit) : Option Target := do
  let rest ← behind? "role=" units
  let name := rest.takeWhile isRoleUnit
  if name.isEmpty then none
  else
    match rest.drop name.length with
    | [] => some (.role ⟨name⟩ none)
    | more =>
      match attributeTest? "[name=" more with
      | some (label, []) => some (.role ⟨name⟩ (some label))
      | _ => none

/-- What a selector is taken for. -/
def ofSelector (selector : Text) : Target :=
  match findTestId? selector.units, role? selector.units with
  | some id, _ => .testId id
  | none, some found => found
  | none, none => .css selector

end Target

/-- What a field of an extracted record is read from. -/
structure FieldSpec where
  /-- The selector inside of the element; an empty one is the element itself. -/
  selector : Text
  /-- The attribute; without one it is the text that is read. -/
  attributeName : Option Text
  deriving DecidableEq

namespace FieldSpec

/-- The units before the last occurrence of a unit and those behind it. -/
def breakAtLast? (mark : CodeUnit) : List CodeUnit → Option (List CodeUnit × List CodeUnit)
  | [] => none
  | u :: rest =>
    match breakAtLast? mark rest with
    | some (before, after) => some (u :: before, after)
    | none => if u = mark then some ([], rest) else none

/-- The spec that a text is. -/
def ofText (spec : Text) : FieldSpec :=
  match breakAtLast? '@' spec.units with
  | some (before, after) => ⟨Text.trim ⟨before⟩, some (Text.trim ⟨after⟩)⟩
  | none => ⟨spec.trim, none⟩

/-- What was broken at its last mark is put together again by it. -/
theorem eq_of_breakAtLast? {mark : CodeUnit} {units before after : List CodeUnit}
    (h : breakAtLast? mark units = some (before, after)) : units = before ++ mark :: after := by
  induction units generalizing before with
  | nil => simp [breakAtLast?] at h
  | cons u rest ih =>
    simp only [breakAtLast?] at h
    split at h
    · next b a found =>
      obtain ⟨rfl, rfl⟩ := Prod.mk.inj (Option.some.inj h)
      rw [ih found]
      rfl
    · split at h
      · next same =>
        obtain ⟨rfl, rfl⟩ := Prod.mk.inj (Option.some.inj h)
        rw [same]
        rfl
      · simp at h

/-- Without the mark there is nothing to break at. -/
theorem breakAtLast?_eq_none_iff {mark : CodeUnit} {units : List CodeUnit} :
    breakAtLast? mark units = none ↔ mark ∉ units := by
  induction units with
  | nil => simp [breakAtLast?]
  | cons u rest ih =>
    simp only [breakAtLast?, List.mem_cons, not_or]
    split
    · next b a found =>
      have : ¬ mark ∉ rest := fun h ↦ by simp [ih.mpr h] at found
      simp [this]
    · next found =>
      have hrest := ih.mp found
      split
      · next same => simp [same]
      · next different => simp [hrest, Ne.symm different]

/-- A spec without an at sign has no attribute. -/
theorem ofText_of_not_mem {spec : Text} (h : CodeUnit.ofChar '@' ∉ spec.units) :
    ofText spec = ⟨spec.trim, none⟩ := by
  unfold ofText
  rw [breakAtLast?_eq_none_iff.mpr h]

end FieldSpec

end BrowserFlow
