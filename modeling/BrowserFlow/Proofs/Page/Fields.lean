import BrowserFlow.Proofs.Page.Targets
import BrowserFlow.Proofs.Value.Order

/-!
Field specs and the records that are read by them. The text of a spec is broken
at its last at sign, so a spec with an attribute is decoded as it was put
together (`FieldSpec.taken_eq_iff`), and a selector with an at sign but
without an attribute is misread (`FieldSpec.IsMisread`). What a spec says of an
element (`FieldSpec.value?`) does not speak of a page and of what is asked of it.
Main statement: where nothing that is read from a page fails, extracting returns
a record for each element in order, with the fields that were asked for, each by
what its spec is taken for (`Page.carryOut_extract`).
-/

set_option autoImplicit false
set_option relaxedAutoImplicit false

namespace BrowserFlow

namespace Entries

variable {α : Type}

/-- Entries but for those under the key of the ancestor, which no record can have. -/
def withoutAncestor (entries : Entries α) : Entries α :=
  entries.filter fun entry ↦ entry.1 != ancestorKey

/-- What is assigned under the key of the ancestor is passed over. -/
theorem assignAll_withoutAncestor (entries later : Entries α) :
    entries.assignAll later.withoutAncestor = entries.assignAll later := by
  induction later generalizing entries with
  | nil => rfl
  | cons entry rest ih =>
    obtain ⟨key, value⟩ := entry
    change _ = assignAll (entries.assign key value) rest
    by_cases hkey : key = ancestorKey
    · have hassign : entries.assign key value = entries := if_pos hkey
      rw [withoutAncestor, List.filter_cons_of_neg (by simp [hkey]), hassign]
      exact ih entries
    · rw [withoutAncestor, List.filter_cons_of_pos (by simpa using hkey)]
      exact ih (entries.assign key value)

end Entries

/-- An attribute of an element, if there is one; without a name the text of the element, without
white space at its ends. -/
def Element.part? (attributeName : Option Text) (element : Element) : Option Text :=
  match attributeName with
  | none => some (element.text.getD Text.empty).trim
  | some name => element.attribute? name

/-! ### Specs as texts -/

namespace FieldSpec

/-- The text of a spec: its selector and, behind an at sign, its attribute. -/
def toText (spec : FieldSpec) : Text :=
  match spec.attributeName with
  | none => spec.selector
  | some attributeName => spec.selector ++ "@" ++ attributeName

/-- What the text of a spec is taken for. -/
def taken (spec : FieldSpec) : FieldSpec := ofText spec.toText

/-- A spec without white space at the ends of its parts, whose attribute holds no at sign. -/
structure IsProper (spec : FieldSpec) : Prop where
  selector : spec.selector.trim = spec.selector
  attributeName : ∀ name ∈ spec.attributeName, name.trim = name ∧ CodeUnit.ofChar '@' ∉ name.units

instance (spec : FieldSpec) : Decidable spec.IsProper :=
  decidable_of_iff (spec.selector.trim = spec.selector ∧
    ∀ name ∈ spec.attributeName, name.trim = name ∧ CodeUnit.ofChar '@' ∉ name.units)
    ⟨fun ⟨hselector, hname⟩ ↦ ⟨hselector, hname⟩, fun h ↦ ⟨h.selector, h.attributeName⟩⟩

/-- Whether an at sign of the selector is taken for the one before an attribute. -/
structure IsMisread (spec : FieldSpec) : Prop where
  selector : CodeUnit.ofChar '@' ∈ spec.selector.units
  attributeName : spec.attributeName = none

/-- Units are broken at a mark behind which there is no other. -/
theorem breakAtLast?_append_cons {mark : CodeUnit} {before after : List CodeUnit}
    (h : mark ∉ after) : breakAtLast? mark (before ++ mark :: after) = some (before, after) := by
  induction before with
  | nil =>
    rw [List.nil_append, breakAtLast?, breakAtLast?_eq_none_iff.mpr h]
    exact if_pos rfl
  | cons u rest ih => rw [List.cons_append, breakAtLast?, ih]

/-- The text of a proper spec is decoded as the spec, unless an at sign of its selector is taken for
the one before an attribute. -/
theorem taken_eq_iff {spec : FieldSpec} (h : spec.IsProper) :
    spec.taken = spec ↔ ¬spec.IsMisread := by
  obtain ⟨selector, attributeName⟩ := spec
  cases attributeName with
  | none =>
    have htrim : selector.trim = selector := h.selector
    by_cases hmark : CodeUnit.ofChar '@' ∈ selector.units
    · obtain ⟨parts, hparts⟩ :=
        Option.ne_none_iff_exists'.mp (mt breakAtLast?_eq_none_iff.mp (not_not.mpr hmark))
      have htaken : (taken ⟨selector, none⟩).attributeName = some (Text.trim ⟨parts.2⟩) := by
        rw [taken, toText, ofText, hparts]
      refine iff_of_false (fun heq ↦ ?_) (not_not.mpr ⟨hmark, rfl⟩)
      rw [heq] at htaken
      cases htaken
    · have htaken : taken ⟨selector, none⟩ = ⟨selector, none⟩ := by
        rw [taken, toText, ofText_of_not_mem hmark, htrim]
      exact iff_of_true htaken fun hmisread ↦ hmark hmisread.selector
  | some name =>
    obtain ⟨htrim, hmark⟩ := h.attributeName name rfl
    have hunits : (toText ⟨selector, some name⟩).units =
        selector.units ++ CodeUnit.ofChar '@' :: name.units := by
      have hat : (("@" : String) : Text).units = [CodeUnit.ofChar '@'] := by decide
      rw [toText, Text.units_append, Text.units_append, hat, List.append_assoc,
        List.singleton_append]
    have htaken : taken ⟨selector, some name⟩ = ⟨selector, some name⟩ := by
      rw [taken, ofText, hunits, breakAtLast?_append_cons hmark]
      exact congrArg₂ FieldSpec.mk h.selector (congrArg some htrim)
    exact iff_of_true htaken fun hmisread ↦ by cases hmisread.attributeName

/-! ### What a spec says of an element -/

/-- What a spec says of an element: a part of the first element that its selector finds inside of
it, where an empty selector finds the element itself. -/
def value? (spec : FieldSpec) (element : Element) : Option Text :=
  let found := if spec.selector.isEmpty then [element] else element.matching spec.selector
  found.head?.bind (Element.part? spec.attributeName)

/-- The record of an element, with what each spec says of it. -/
def record (requests : Entries FieldSpec) (element : Element) : Datum :=
  .object ((requests.withoutAncestor).map fun (name, spec) ↦
    (name, Page.textOrNull (spec.value? element))) []

end FieldSpec

/-! ### Reading from a page -/

/-- A visit that returns a value, whatever was asked before. -/
def Visit.Returns {α : Type} (visit : Visit α) (value : α) : Prop :=
  ∀ noted, (visit.run.run noted).1 = .ok value

namespace Visit.Returns

variable {α β : Type} {visit : Visit α} {next : α → Visit β} {value : α} {other : β}

theorem pure (value : α) : Returns (Pure.pure value) value := fun _ ↦ rfl

theorem bind (h : visit.Returns value) (hnext : (next value).Returns other) :
    Returns (visit >>= next) other := by
  intro noted
  have hvisit := h noted
  change ((ExceptT.bindCont next (visit.run.run noted).1).run (visit.run.run noted).2).1 = _
  rw [hvisit]
  exact hnext _

end Visit.Returns

namespace Page

/-- What is asked of a page when records are read from it. -/
def readingMethods : List Text :=
  ["getByTestId", "getByRole", "locator", "all", "count", "first", "textContent", "getAttribute"]

/-- Whether nothing fails that is asked when records are read. -/
def IsReadable (page : Page) : Prop :=
  ∀ method ∈ readingMethods, Entries.find? page.failures method = none

variable {page : Page} (hreadable : page.IsReadable)

include hreadable

theorem IsReadable.ask {method : Text} (hmethod : method ∈ readingMethods) (label : Text)
    (operands : List Value) : (page.ask label method operands).Returns () := by
  intro noted
  rw [run_ask, hreadable method hmethod]

/-- What is answered once something was asked. -/
theorem IsReadable.answer {α : Type} {method : Text} (hmethod : method ∈ readingMethods)
    (label : Text) (operands : List Value) (value : α) :
    Visit.Returns (do page.ask label method operands; return value) value :=
  (hreadable.ask hmethod label operands).bind (.pure value)

theorem IsReadable.locate (selector : Text) :
    (page.locate selector).Returns (page.shown (Target.ofSelector selector)) := by
  rw [locate_eq]
  refine hreadable.answer ?_ _ _ _
  cases Target.ofSelector selector with
  | role name accessibleName => cases accessibleName <;> simp [Target.question, readingMethods]
  | testId _ | css _ => simp [Target.question, readingMethods]

theorem IsReadable.first (found : Located) :
    (page.first found).Returns ⟨found.label ++ ".first", found.elements.take 1⟩ :=
  hreadable.answer (by simp [readingMethods]) _ _ _

/-- The first of located elements is read: an attribute of it, or its text. -/
theorem IsReadable.readPart {found : Located} {target : Element}
    (hfound : found.elements.head? = some target) (attributeName : Option Text) :
    (page.readPart found attributeName).Returns (target.part? attributeName) := by
  cases attributeName with
  | none =>
    have htext : (page.trimmedText found).Returns (target.text.getD Text.empty).trim := by
      unfold trimmedText
      rw [hfound]
      exact hreadable.answer (by simp [readingMethods]) _ _ _
    exact htext.bind (.pure _)
  | some name =>
    change (page.readAttribute found name).Returns (target.attribute? name)
    unfold readAttribute
    rw [hfound]
    exact hreadable.answer (by simp [readingMethods]) _ _ _

/-- Of the elements that were found the first is read, if there is one. -/
theorem IsReadable.readFirst (found : Located) (attributeName : Option Text) :
    Visit.Returns (do
      if found.elements.isEmpty then return none
      else page.readPart (← page.first found) attributeName)
      (found.elements.head?.bind (Element.part? attributeName)) := by
  obtain ⟨label, elements⟩ := found
  cases elements with
  | nil => exact .pure none
  | cons target others => exact (hreadable.first _).bind (hreadable.readPart rfl attributeName)

/-- A field of an element is what its spec says of the element. -/
theorem IsReadable.fieldValue (label : Text) (element : Element) (spec : FieldSpec) :
    (page.fieldValue ⟨label, [element]⟩ spec).Returns (spec.value? element) := by
  unfold Page.fieldValue FieldSpec.value?
  by_cases hself : spec.selector.isEmpty = true
  · simp only [if_pos hself]
    exact hreadable.readPart rfl spec.attributeName
  · simp only [if_neg hself]
    refine (hreadable.ask (by simp [readingMethods]) _ _).bind ?_
    refine (hreadable.ask (by simp [readingMethods]) _ _).bind ?_
    exact hreadable.readFirst ⟨label ++ ">" ++ spec.selector, element.matching spec.selector⟩ _

/-- The fields of an element are assigned one after the other. -/
theorem IsReadable.fieldValues (label : Text) (element : Element) (done : Entries Datum)
    (specs : Entries Text) :
    (page.fieldValues ⟨label, [element]⟩ done specs).Returns
      (done.assignAll (specs.map fun (name, spec) ↦
        (name, textOrNull ((FieldSpec.ofText spec).value? element)))) := by
  induction specs generalizing done with
  | nil => exact .pure done
  | cons field rest ih =>
    exact (hreadable.fieldValue label element (.ofText field.2)).bind (ih _)

/-- Each element of a row has a record with its fields. -/
theorem IsReadable.readRecords (label : Text) (index : Nat) (elements : List Element)
    (specs : Entries Text) :
    (page.readRecords (some specs) label index elements).Returns (elements.map fun element ↦
      .object (Entries.assignAll [] (specs.map fun (name, spec) ↦
        (name, textOrNull ((FieldSpec.ofText spec).value? element)))) []) := by
  induction elements generalizing index with
  | nil => exact .pure []
  | cons element rest ih =>
    refine Visit.Returns.bind ?_ ((ih (index + 1)).bind (.pure _))
    exact (hreadable.fieldValues _ element [] specs).bind (.pure _)

omit hreadable

/-- The fields that are read for the texts of specs are those of the record of what the specs are
taken for. -/
theorem assignAll_eq_record {requests : Entries FieldSpec}
    (horder : Entries.InOrder requests.withoutAncestor) (element : Element) :
    .object (Entries.assignAll [] ((requests.map fun (name, spec) ↦ (name, spec.toText)).map
      fun (name, spec) ↦ (name, textOrNull ((FieldSpec.ofText spec).value? element)))) [] =
    FieldSpec.record (requests.map fun (name, spec) ↦ (name, spec.taken)) element := by
  have hfields : ∀ fields : Entries Datum,
      Entries.keys fields.withoutAncestor = Entries.keys requests.withoutAncestor →
      Entries.assignAll [] fields = fields.withoutAncestor := fun fields hkeys ↦ by
    rw [← Entries.assignAll_withoutAncestor]
    exact Entries.assignAll_of_inOrder (.of_keys _ hkeys horder)
  rw [hfields _ (by simp [Entries.keys, Entries.withoutAncestor, List.filter_map,
    Function.comp_def]), FieldSpec.record]
  simp [Entries.withoutAncestor, List.filter_map, Function.comp_def, FieldSpec.taken]

/-- Where nothing fails that is read from a page, extracting returns a record for each element that
was located, in order. It has just the fields that were asked for, but for one under the key of the
ancestor, each with what its spec is taken for; and a spec is taken for itself exactly when no at
sign of its selector is taken for the one before an attribute. -/
theorem carryOut_extract (hreadable : page.IsReadable) {requests : Entries FieldSpec}
    (hproper : ∀ request ∈ requests, request.2.IsProper)
    (horder : Entries.InOrder (requests.withoutAncestor)) (viewing : Viewing) (selector : Text)
    (noted : List PageCall) :
    ((page.carryOut viewing (.extract selector
        (some (requests.map fun (name, spec) ↦ (name, spec.toText))))).run.run noted).1 =
      .ok (.sequence ((page.shown (Target.ofSelector selector)).elements.map
        (FieldSpec.record (requests.map fun (name, spec) ↦ (name, spec.taken))))) ∧
    ∀ request ∈ requests, request.2.taken = request.2 ↔ ¬request.2.IsMisread := by
  refine ⟨?_, fun request hrequest ↦ FieldSpec.taken_eq_iff (hproper request hrequest)⟩
  refine Visit.Returns.bind (hreadable.locate selector) ?_ noted
  refine (hreadable.ask (by simp [readingMethods]) _ _).bind ?_
  have hrecords := hreadable.readRecords (page.shown (Target.ofSelector selector)).label 0
    (page.shown (Target.ofSelector selector)).elements
    (requests.map fun (name, spec) ↦ (name, spec.toText))
  simp only [assignAll_eq_record horder] at hrecords
  exact hrecords.bind (.pure _)

/-- A row with the link of a tea, whose price is not told. -/
def teaRow : Element :=
  .mk (some " Tea ") [("data-id", "7")]
    [("a[title=\"x@y\"]", [.mk (some "Read") [("href", "/tea")] []])]

/-- A page with one row, which cannot be clicked. -/
def teaPage : Page := ⟨[("css:li", [teaRow])], [], [("click", .text "detached")]⟩

/-- An attribute behind a selector with an at sign, one of the row itself, a price that is not
found and the text of the row. -/
def teaFields : Entries FieldSpec :=
  [("link", ⟨"a[title=\"x@y\"]", some "href"⟩), ("id", ⟨"", some "data-id"⟩),
    ("price", ⟨".price", none⟩), ("name", ⟨"", none⟩)]

theorem isReadable_teaPage : teaPage.IsReadable := by
  unfold IsReadable
  decide +kernel

/-- The row has one record, with the link, the attribute, null and the text. -/
theorem carryOut_extract_teaPage :
    teaPage.IsReadable ∧ (∀ request ∈ teaFields, request.2.IsProper) ∧
      Entries.InOrder teaFields.withoutAncestor ∧
      ((teaPage.carryOut ⟨30, []⟩ (.extract "li"
        (some (teaFields.map fun (name, spec) ↦ (name, spec.toText))))).run.run []).1 =
        .ok (.sequence [.object [("link", .text "/tea"), ("id", .text "7"), ("price", .null),
          ("name", .text "Tea")] []]) := by
  have hproper : ∀ request ∈ teaFields, request.2.IsProper := by decide +kernel
  have horder : Entries.InOrder teaFields.withoutAncestor :=
    .of_keys ["link", "id", "price", "name"] (by decide +kernel) (by decide)
  refine ⟨isReadable_teaPage, hproper, horder, ?_⟩
  exact (carryOut_extract isReadable_teaPage hproper horder ⟨30, []⟩ "li" []).1.trans (by rfl)

/-- The text that a record has in its first field. -/
def firstText? : Except Datum Datum → Option Text
  | .ok (.sequence (.object ((_, .text t) :: _) _ :: _)) => some t
  | _ => none

/-- A selector with an at sign is read as its text only when an attribute is behind it: not every
record has what its specs say. -/
theorem not_forall_carryOut_extract :
    ¬∀ (page : Page) (viewing : Viewing) (selector : Text) (requests : Entries FieldSpec),
      page.IsReadable → (∀ request ∈ requests, request.2.IsProper) →
        Entries.InOrder requests.withoutAncestor →
        ((page.carryOut viewing (.extract selector
          (some (requests.map fun (name, spec) ↦ (name, spec.toText))))).run.run []).1 =
          .ok (.sequence ((page.shown (Target.ofSelector selector)).elements.map
            (FieldSpec.record requests))) := by
  intro hall
  have horder : Entries.InOrder (Entries.withoutAncestor [(("link" : Text),
      (⟨"a[title=\"x@y\"]", none⟩ : FieldSpec))]) :=
    .of_keys ["link"] (by decide +kernel) (by decide)
  have hread := congrArg firstText? (hall teaPage ⟨30, []⟩ "li" _ isReadable_teaPage
    (by decide +kernel) horder)
  revert hread
  decide +kernel

end Page

end BrowserFlow
