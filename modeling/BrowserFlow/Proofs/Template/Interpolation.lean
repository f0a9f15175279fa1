import BrowserFlow.Proofs.Template.Layout
import BrowserFlow.Proofs.Template.Names

/-!
What templates put together stand for. The parts of a template are rendered one
after the other and each of them once, whatever the template is
(`Template.interpolate_eq_concat`). Two templates that do not join two opening
braces have a layout together, the one behind the other
(`Template.Layout.IsProper.append`), so the text of both together is that of the
first with that of the second behind it (`Template.interpolate_append`).
-/

set_option autoImplicit false
set_option relaxedAutoImplicit false

namespace BrowserFlow.Template

/-! ### Rendering -/

section

variable (scope : Scope) {source : Text} {parts : List Part}

theorem renderAll_textPart_append (units : List CodeUnit) (others : List Part) :
    renderAll scope (textPart units ++ others) = (do
      let behind ← renderAll scope others
      .ok (⟨units⟩ ++ behind)) := by
  cases units with
  | nil =>
    change renderAll scope others = _
    cases renderAll scope others <;> rfl
  | cons u rest => rfl

theorem renderAll_textPart (units : List CodeUnit) :
    renderAll scope (textPart units) = .ok ⟨units⟩ := by
  have h := renderAll_textPart_append scope units []
  rw [List.append_nil] at h
  rw [h]
  exact congrArg Except.ok (Text.append_empty ⟨units⟩)

/-- The parts of a template are rendered in their order and each of them once. -/
theorem renderAll_eq_concat (parts : List Part) : renderAll scope parts = (do
    let pieces ← parts.mapM (Part.render scope)
    .ok (Text.concat pieces)) := by
  induction parts with
  | nil => rfl
  | cons part rest ih =>
    rw [renderAll, List.mapM_cons, ih]
    cases Part.render scope part with
    | error fault => rfl
    | ok first => cases rest.mapM (Part.render scope) <;> rfl

/-- What parts stand for, as a text, are their texts put together, a single placeholder
included. -/
theorem toText_evaluateParts (parts : List Part) : (do
    let value ← evaluateParts scope parts
    .ok value.toText) = renderAll scope parts := by
  unfold evaluateParts
  split
  · next expression =>
    rw [renderAll, Part.render]
    cases expression.evaluate scope with
    | error fault => rfl
    | ok value => exact congrArg Except.ok (Text.append_empty value.toText).symm
  · cases renderAll scope parts <;> rfl

/-- A template that is read stands for the texts of its parts put together. -/
theorem interpolate_of_read (h : read source = .ok parts) :
    interpolate scope source = renderAll scope parts := by
  rw [interpolate, resolve]
  cases hplaceholder : hasPlaceholder source with
  | true =>
    rw [if_pos rfl, h]
    exact toText_evaluateParts scope parts
  | false =>
    have hopen : Text.breakOn? opening source.units = none := by
      simpa [hasPlaceholder] using hplaceholder
    rw [read_eq_ok_iff, readParts_of_plain (Text.breakOn?_eq_none_iff.mp hopen)] at h
    rw [if_neg Bool.false_ne_true, ← Except.ok.inj h, renderAll_textPart]
    rfl

end

/-! ### Seams -/

/-- The last unit of one list and the first of another are both opening braces. -/
def JoinsBraces (front back : List CodeUnit) : Prop := [0x7B] <:+ front ∧ [0x7B] <+: back

section

variable {front back before body after : List CodeUnit} {expression : Expression}

theorem JoinsBraces.prepend (h : JoinsBraces front back) (more : List CodeUnit) :
    JoinsBraces (more ++ front) back :=
  ⟨h.1.trans (List.suffix_append more front), h.2⟩

/-- Behind text without placeholders the first placeholder of other units stays the first. -/
theorem breakOn?_opening_append (hplain : ¬opening <:+: front) (hseam : ¬JoinsBraces front back) :
    Text.breakOn? opening (front ++ back) =
      (Text.breakOn? opening back).map fun (before, after) ↦ (front ++ before, after) := by
  induction front with
  | nil => simp
  | cons u rest ih =>
    have hstart : ¬opening.isPrefixOf (u :: (rest ++ back)) = true := by
      rw [List.isPrefixOf_iff_prefix, opening, List.cons_prefix_cons]
      rintro ⟨rfl, hnext⟩
      cases rest with
      | nil => exact hseam ⟨List.suffix_rfl, hnext⟩
      | cons v more =>
        obtain ⟨rfl, -⟩ := List.cons_prefix_cons.mp hnext
        exact hplain ⟨[], more, rfl⟩
    have hrest := ih (fun h ↦ hplain (List.infix_cons_iff.mpr (.inr h)))
      (fun h ↦ hseam (h.prepend [u]))
    rw [List.cons_append, Text.breakOn?, if_neg hstart, hrest, Option.map_map]
    rfl

theorem IsSlot.prepend (h : IsSlot before body expression after) (hplain : ¬opening <:+: front)
    (hseam : ¬JoinsBraces front (before ++ opening ++ body ++ closing ++ after)) :
    IsSlot (front ++ before) body expression after := by
  have hopen := breakOn?_opening_append hplain hseam
  rw [h.breakOn?_opening] at hopen
  obtain ⟨-, hfirst⟩ := Text.breakOn?_eq_some_iff.mp hopen
  exact { h with text_plain := hfirst.not_infix (by decide), opens_first := hfirst }

theorem IsSlot.append (h : IsSlot before body expression after) (more : List CodeUnit) :
    IsSlot before body expression (after ++ more) := by
  have hfirst := h.opens_first.append more
  rw [List.append_assoc] at hfirst
  exact { h with opens_first := hfirst, closes_first := h.closes_first.append more }

end

/-! ### One layout behind another -/

namespace Layout

/-- A layout with text put in front of it. -/
def prepend (front : List CodeUnit) : Layout → Layout
  | text units => text (front ++ units)
  | slot before body expression rest => slot (front ++ before) body expression rest

/-- A layout with another behind it. -/
def append : Layout → Layout → Layout
  | text units, other => other.prepend units
  | slot before body expression rest, other => slot before body expression (rest.append other)

variable {front : List CodeUnit} {first second : Layout}

theorem written_prepend (front : List CodeUnit) (layout : Layout) :
    (layout.prepend front).written = front ++ layout.written := by
  cases layout with
  | text units => rfl
  | slot before body expression rest => simp only [prepend, written, List.append_assoc]

theorem written_append (first second : Layout) :
    (first.append second).written = first.written ++ second.written := by
  induction first with
  | text units => exact written_prepend units second
  | slot before body expression rest ih =>
    rw [append, written, written, ih]
    simp only [List.append_assoc]

theorem IsProper.prepend (h : first.IsProper) (hplain : ¬opening <:+: front)
    (hseam : ¬JoinsBraces front first.written) : (first.prepend front).IsProper := by
  cases first with
  | text units =>
    have hopen := breakOn?_opening_append hplain hseam
    rw [written, Text.breakOn?_eq_none_iff.mpr h] at hopen
    exact Text.breakOn?_eq_none_iff.mp hopen
  | slot before body expression rest => exact ⟨h.1.prepend hplain hseam, h.2⟩

/-- Proper layouts that do not join opening braces are proper together. -/
theorem IsProper.append (hfirst : first.IsProper) (hsecond : second.IsProper)
    (hseam : ¬JoinsBraces first.written second.written) : (first.append second).IsProper := by
  induction first with
  | text units => exact hsecond.prepend hfirst hseam
  | slot before body expression rest ih =>
    obtain ⟨hslot, hrest⟩ := hfirst
    refine ⟨?_, ih hrest fun h ↦ hseam (h.prepend _)⟩
    rw [written_append]
    exact hslot.append _

theorem renderAll_prepend (scope : Scope) (front : List CodeUnit) (layout : Layout) :
    renderAll scope (layout.prepend front).parts = (do
      let behind ← renderAll scope layout.parts
      .ok (⟨front⟩ ++ behind)) := by
  cases layout with
  | text units =>
    rw [prepend, parts_text, parts_text, renderAll_textPart, renderAll_textPart]
    rfl
  | slot before body expression rest =>
    rw [prepend, parts_slot, parts_slot, renderAll_textPart_append, renderAll_textPart_append]
    cases renderAll scope (.placeholder expression :: rest.parts) with
    | error fault => rfl
    | ok behind => exact congrArg Except.ok (Text.append_assoc ⟨front⟩ ⟨before⟩ behind)

/-- Layouts together stand for the text of the first with that of the second behind it. -/
theorem renderAll_append (scope : Scope) (first second : Layout) :
    renderAll scope (first.append second).parts = (do
      let front ← renderAll scope first.parts
      let behind ← renderAll scope second.parts
      .ok (front ++ behind)) := by
  induction first with
  | text units => rw [append, renderAll_prepend, parts_text, renderAll_textPart]; rfl
  | slot before body expression rest ih =>
    rw [append, parts_slot, parts_slot, renderAll_textPart_append, renderAll_textPart_append,
      renderAll, renderAll, ih]
    cases Part.render scope (.placeholder expression) with
    | error fault => rfl
    | ok value =>
      cases renderAll scope rest.parts with
      | error fault => rfl
      | ok middle =>
        cases renderAll scope second.parts with
        | error fault => rfl
        | ok last =>
          change Except.ok (⟨before⟩ ++ (value ++ (middle ++ last))) =
            Except.ok (⟨before⟩ ++ (value ++ middle) ++ last)
          rw [Text.append_assoc, Text.append_assoc]

end Layout

/-! ### Templates put together -/

section

variable {first middle second : Text} {parts others : List Part} {expression : Expression}

theorem joinsBraces_iff : JoinsBraces first.units second.units ↔
    first.endsWith "\x7b" = true ∧ second.startsWith "\x7b" = true := by
  have hbrace : (Text.ofString "\x7b").units = [0x7B] := by decide
  rw [Text.endsWith, Text.startsWith, hbrace, List.isSuffixOf_iff_suffix,
    List.isPrefixOf_iff_prefix]
  rfl

/-- Templates that do not join opening braces are one template together, and it stands for the
text of the first with that of the second behind it. -/
theorem exists_read_append (hfirst : read first = .ok parts) (hsecond : read second = .ok others)
    (hseam : ¬JoinsBraces first.units second.units) :
    ∃ all, read (first ++ second) = .ok all ∧ ∀ scope,
      interpolate scope (first ++ second) = (do
        let front ← interpolate scope first
        let behind ← interpolate scope second
        .ok (front ++ behind)) := by
  obtain ⟨front, hfront, hwritten, hparts⟩ :=
    exists_layout_of_readParts (read_eq_ok_iff.mp hfirst)
  obtain ⟨back, hback, hbehind, hothers⟩ :=
    exists_layout_of_readParts (read_eq_ok_iff.mp hsecond)
  rw [← hwritten, ← hbehind] at hseam
  have hread : read (first ++ second) = .ok (front.append back).parts := by
    rw [read_eq_ok_iff, Text.units_append, ← hwritten, ← hbehind, ← Layout.written_append]
    exact (hfront.append hback hseam).readParts 0
  refine ⟨_, hread, fun scope ↦ ?_⟩
  rw [interpolate_of_read scope hread, interpolate_of_read scope hfirst,
    interpolate_of_read scope hsecond, ← hparts, ← hothers, Layout.renderAll_append]

theorem Layout.written_of_parts_eq_nil {layout : Layout} (h : layout.parts = []) :
    layout.written = [] := by
  cases layout with
  | text units =>
    cases units with
    | nil => rfl
    | cons u rest => cases h
  | slot before body expression rest => cases before <;> cases h

/-- A template that is one placeholder ends with a closing brace. -/
theorem exists_units_of_placeholder (h : read middle = .ok [.placeholder expression]) :
    ∃ front, middle.units = front ++ [0x7D] := by
  obtain ⟨layout, -, hwritten, hparts⟩ := exists_layout_of_readParts (read_eq_ok_iff.mp h)
  cases layout with
  | text units => cases units <;> cases hparts
  | slot before body other rest =>
    cases before with
    | cons u more => cases hparts
    | nil =>
      rw [Layout.parts_slot] at hparts
      have hrest : rest.written = [] := Layout.written_of_parts_eq_nil (List.cons.inj hparts).2
      refine ⟨opening ++ body ++ [0x7D], ?_⟩
      rw [← hwritten, Layout.written, hrest, List.append_nil, closing]
      simp only [List.nil_append, List.append_assoc, List.cons_append]

theorem not_joinsBraces_of_placeholder (h : read middle = .ok [.placeholder expression])
    (before after : List CodeUnit) : ¬JoinsBraces (before ++ middle.units) after := by
  obtain ⟨front, hfront⟩ := exists_units_of_placeholder h
  rintro ⟨⟨others, hothers⟩, -⟩
  rw [hfront, ← List.append_assoc] at hothers
  exact absurd (List.append_inj' hothers rfl).2 (by decide)

theorem interpolate_placeholder (h : read middle = .ok [.placeholder expression]) {scope : Scope}
    {value : Value} (hvalue : expression.evaluate scope = .ok value) :
    interpolate scope middle = .ok value.toText := by
  rw [interpolate_of_read scope h, ← toText_evaluateParts, evaluateParts, hvalue]
  rfl

/-- Two templates that do not join two opening braces stand together for the text of the first
with that of the second behind it, and the first that fails is the one whose fault is thrown. Each
part of a template is rendered once, so between two templates a placeholder inserts the text of its
value as it is, whatever stands in it. -/
theorem interpolate_append (hfirst : read first = .ok parts) (hsecond : read second = .ok others)
    (hseam : ¬(first.endsWith "\x7b" = true ∧ second.startsWith "\x7b" = true)) (scope : Scope) :
    interpolate scope (first ++ second) = (do
      let front ← interpolate scope first
      let behind ← interpolate scope second
      .ok (front ++ behind)) ∧
    interpolate scope first = (do
      let pieces ← parts.mapM (Part.render scope)
      .ok (Text.concat pieces)) ∧
    ∀ middle expression value, read middle = .ok [.placeholder expression] →
      expression.evaluate scope = .ok value → first.endsWith "\x7b" = false →
      interpolate scope (first ++ middle ++ second) = (do
        let front ← interpolate scope first
        let behind ← interpolate scope second
        .ok (front ++ value.toText ++ behind)) := by
  refine ⟨?_, ?_, fun middle expression value hmiddle hvalue hends ↦ ?_⟩
  · obtain ⟨-, -, htogether⟩ := exists_read_append hfirst hsecond (hseam ∘ joinsBraces_iff.mp)
    exact htogether scope
  · rw [interpolate_of_read scope hfirst, renderAll_eq_concat]
  · obtain ⟨all, hall, hbefore⟩ := exists_read_append hfirst hmiddle fun hjoins ↦
      absurd (joinsBraces_iff.mp hjoins).1 (by rw [hends]; decide)
    obtain ⟨-, -, htogether⟩ := exists_read_append hall hsecond
      (not_joinsBraces_of_placeholder hmiddle first.units second.units)
    rw [htogether, hbefore, interpolate_placeholder hmiddle hvalue]
    cases interpolate scope first with
    | error fault => rfl
    | ok front => rfl

/-- A scope in which the text of a variable looks like a placeholder. -/
def bracedName : Scope :=
  .ofEntries [("name", .text "\x7b\x7bsecret\x7d\x7d"), ("secret", .text "hidden")]

/-- Stray braces that meet open nothing, and neither do braces that are inserted. -/
theorem interpolate_append_bracedName :
    (read "To \x7b\x7bname\x7d\x7d\x7d").isOk = true ∧
    (read "\x7b \x7b\x7bname\x7d\x7d").isOk = true ∧
    (interpolate bracedName
      (Text.ofString "To \x7b\x7bname\x7d\x7d\x7d" ++ "\x7b \x7b\x7bname\x7d\x7d")).toOption =
      some "To \x7b\x7bsecret\x7d\x7d\x7d\x7b \x7b\x7bsecret\x7d\x7d" := by
  have hfirst : (read "To \x7b\x7bname\x7d\x7d\x7d").isOk = true := by decide +kernel
  have hsecond : (read "\x7b \x7b\x7bname\x7d\x7d").isOk = true := by decide +kernel
  have hseam : ¬((Text.ofString "To \x7b\x7bname\x7d\x7d\x7d").endsWith "\x7b" = true ∧
      (Text.ofString "\x7b \x7b\x7bname\x7d\x7d").startsWith "\x7b" = true) := by decide +kernel
  obtain ⟨parts, hparts⟩ := Except.eq_ok_of_isOk hfirst
  obtain ⟨others, hothers⟩ := Except.eq_ok_of_isOk hsecond
  obtain ⟨htogether, -, -⟩ := interpolate_append hparts hothers hseam bracedName
  refine ⟨hfirst, hsecond, ?_⟩
  rw [htogether]
  decide +kernel

end

end BrowserFlow.Template
