import BrowserFlow.Proofs.Fault.Thrown
import BrowserFlow.Proofs.Text.Splitting
import BrowserFlow.Template.Basic
import Mathlib.Logic.ExistsUnique

/-!
How templates are laid out. A layout is a text, or a text with a placeholder
behind it and the layout of what follows. It is proper when each placeholder
opens at the first pair of opening braces and ends at the first pair of closing
ones, and when its body is an expression (`Template.IsSlot`). Reading finds the
parts of every proper layout of a source and nothing else, no source has two
proper layouts, and a source without one is a faulty template
(`Template.read_layout`).
-/

set_option autoImplicit false
set_option relaxedAutoImplicit false

namespace BrowserFlow

/-- Whether a part is more than empty text. -/
def Part.isFilled : Part → Bool
  | .text t => !t.isEmpty
  | .placeholder _ => true

namespace Template

open Text (OccursFirst)

/-! ### Layouts -/

/-- A source taken apart into texts and placeholders. -/
inductive Layout where
  /-- Text to the end. -/
  | text (units : List CodeUnit)
  /-- Text, a placeholder with its body and the expression of it, and the rest. -/
  | slot (before body : List CodeUnit) (expression : Expression) (rest : Layout)

namespace Layout

/-- The units of a layout, with braces around the bodies. -/
def written : Layout → List CodeUnit
  | text units => units
  | slot before body _ rest => before ++ opening ++ body ++ closing ++ rest.written

/-- The texts and the expressions of a layout in their order. -/
def pieces : Layout → List Part
  | text units => [.text ⟨units⟩]
  | slot before _ expression rest => .text ⟨before⟩ :: .placeholder expression :: rest.pieces

/-- The pieces of a layout without the empty texts. -/
def parts (layout : Layout) : List Part := layout.pieces.filter Part.isFilled

end Layout

/-- A placeholder with a body stands between two lists of units where the first pair of opening
braces and the first pair of closing ones behind it are its own. -/
structure IsSlot (before body : List CodeUnit) (expression : Expression)
    (after : List CodeUnit) : Prop where
  /-- No placeholder opens in the text before it. -/
  text_plain : ¬opening <:+: before
  /-- No placeholder opens in the body. -/
  body_plain : ¬opening <:+: body
  /-- No placeholder ends in the body. -/
  body_unclosed : ¬closing <:+: body
  /-- The body is more than white space. -/
  filled : Text.isBlank ⟨body⟩ = false
  /-- The body is an expression. -/
  read : Expression.read ⟨body⟩ = .ok expression
  /-- The placeholder opens at the first pair of opening braces. -/
  opens_first : OccursFirst opening before (body ++ closing ++ after)
  /-- The placeholder ends at the first pair of closing braces. -/
  closes_first : OccursFirst closing body after

/-- All placeholders of a layout are where a reader from the left finds them. -/
def Layout.IsProper : Layout → Prop
  | .text units => ¬opening <:+: units
  | .slot before body expression rest =>
    IsSlot before body expression rest.written ∧ rest.IsProper

@[simp] theorem Layout.parts_text (units : List CodeUnit) :
    (Layout.text units).parts = textPart units := by
  cases units <;> rfl

@[simp] theorem Layout.parts_slot (before body : List CodeUnit) (expression : Expression)
    (rest : Layout) : (Layout.slot before body expression rest).parts =
      textPart before ++ .placeholder expression :: rest.parts := by
  cases before <;> rfl

/-! ### Reading a slot -/

section

variable {before body after units : List CodeUnit} {expression : Expression}

/-- The units that are put together by a slot. -/
theorem units_of_breakOn? {inside : List CodeUnit}
    (hopen : Text.breakOn? opening units = some (before, inside))
    (hclose : Text.breakOn? closing inside = some (body, after)) :
    units = before ++ opening ++ body ++ closing ++ after := by
  rw [Text.eq_of_breakOn? hopen, Text.eq_of_breakOn? hclose]
  simp only [List.append_assoc]

theorem readBody_eq_ok_iff (position : Nat) : readBody position body = .ok expression ↔
    ¬opening <:+: body ∧ Text.isBlank ⟨body⟩ = false ∧
      Expression.read ⟨body⟩ = .ok expression := by
  rw [← Text.breakOn?_eq_none_iff, readBody]
  cases hblank : Text.isBlank ⟨body⟩ <;> cases hopen : Text.breakOn? opening body <;> simp

theorem IsSlot.breakOn?_opening (h : IsSlot before body expression after) :
    Text.breakOn? opening (before ++ opening ++ body ++ closing ++ after) =
      some (before, body ++ closing ++ after) :=
  Text.breakOn?_eq_some_iff.mpr ⟨by simp only [List.append_assoc], h.opens_first⟩

theorem IsSlot.breakOn?_closing (h : IsSlot before body expression after) :
    Text.breakOn? closing (body ++ closing ++ after) = some (body, after) :=
  Text.breakOn?_eq_some_iff.mpr ⟨rfl, h.closes_first⟩

/-- Where a reader from the left finds braces around an expression, there is a slot. -/
theorem isSlot_of_breakOn? {inside : List CodeUnit} {position : Nat}
    (hopen : Text.breakOn? opening units = some (before, inside))
    (hclose : Text.breakOn? closing inside = some (body, after))
    (hbody : readBody position body = .ok expression) :
    IsSlot before body expression after := by
  obtain ⟨rfl, hopens⟩ := Text.breakOn?_eq_some_iff.mp hopen
  obtain ⟨rfl, hcloses⟩ := Text.breakOn?_eq_some_iff.mp hclose
  obtain ⟨hplain, hfilled, hread⟩ := (readBody_eq_ok_iff position).mp hbody
  exact ⟨hopens.not_infix (by decide), hplain, hcloses.not_infix (by decide), hfilled, hread,
    hopens, hcloses⟩

/-! ### Reading the parts -/

variable {position : Nat} {parts : List Part}

theorem readParts_of_plain (h : ¬opening <:+: units) :
    readParts position units = .ok (textPart units) := by
  rw [readParts]
  split
  · rfl
  · next hopen =>
    rw [Text.breakOn?_eq_none_iff.mpr h] at hopen
    cases hopen

/-- A slot gives its text, its expression and what the rest gives. -/
theorem readParts_of_isSlot (h : IsSlot before body expression after) :
    readParts position (before ++ opening ++ body ++ closing ++ after) = (do
      let others ← readParts (position + before.length + body.length + 4) after
      .ok (textPart before ++ .placeholder expression :: others)) := by
  have hbody := (readBody_eq_ok_iff (position + before.length)).mpr
    ⟨h.body_plain, h.filled, h.read⟩
  rw [readParts]
  split
  · next hopen =>
    rw [h.breakOn?_opening] at hopen
    cases hopen
  · next hopen =>
    rw [h.breakOn?_opening] at hopen
    obtain ⟨rfl, rfl⟩ := Prod.mk.inj (Option.some.inj hopen)
    split
    · next hclose =>
      rw [h.breakOn?_closing] at hclose
      cases hclose
    · next hclose =>
      rw [h.breakOn?_closing] at hclose
      obtain ⟨rfl, rfl⟩ := Prod.mk.inj (Option.some.inj hclose)
      rw [hbody]
      rfl

/-- Units with parts are plain text, or they begin with a slot and the rest has parts. -/
theorem cases_of_readParts (h : readParts position units = .ok parts) :
    (¬opening <:+: units ∧ parts = textPart units) ∨
      ∃ before body expression after others next,
        IsSlot before body expression after ∧
        units = before ++ opening ++ body ++ closing ++ after ∧
        readParts next after = .ok others ∧
        parts = textPart before ++ .placeholder expression :: others := by
  rw [readParts] at h
  split at h
  · next hopen => exact .inl ⟨Text.breakOn?_eq_none_iff.mp hopen, (Except.ok.inj h).symm⟩
  · next before inside hopen =>
    split at h
    · cases h
    · next body after hclose =>
      obtain ⟨expression, hbody, h⟩ := Except.parts_of_bind h
      obtain ⟨others, hothers, h⟩ := Except.parts_of_bind h
      exact .inr ⟨before, body, expression, after, others, _,
        isSlot_of_breakOn? hopen hclose hbody, units_of_breakOn? hopen hclose, hothers,
        (Except.ok.inj h).symm⟩

end

/-! ### Reading and layouts -/

/-- Reading finds the parts of a proper layout. -/
theorem Layout.IsProper.readParts {layout : Layout} (h : layout.IsProper) (position : Nat) :
    readParts position layout.written = .ok layout.parts := by
  induction layout generalizing position with
  | text units => rw [parts_text, written, readParts_of_plain h]
  | slot before body expression rest ih =>
    obtain ⟨hslot, hrest⟩ := h
    rw [parts_slot, written, readParts_of_isSlot hslot, ih hrest]
    rfl

/-- What reading finds are the parts of a proper layout of the units. -/
theorem exists_layout_of_readParts {position : Nat} {units : List CodeUnit} {parts : List Part}
    (h : readParts position units = .ok parts) :
    ∃ layout : Layout, layout.IsProper ∧ layout.written = units ∧ layout.parts = parts := by
  -- the units behind a slot are fewer than the units with it
  induction hlength : units.length using Nat.strongRecOn generalizing position units parts with
  | ind length ih =>
    subst hlength
    obtain ⟨hplain, rfl⟩ | ⟨before, body, expression, after, others, next, hslot, rfl, hothers,
      rfl⟩ := cases_of_readParts h
    · exact ⟨.text units, hplain, rfl, Layout.parts_text units⟩
    · have hfewer : after.length < (before ++ opening ++ body ++ closing ++ after).length := by
        simp only [List.length_append, opening, closing, List.length_cons]
        omega
      obtain ⟨rest, hproper, rfl, rfl⟩ := ih _ hfewer hothers rfl
      exact ⟨.slot before body expression rest, ⟨hslot, hproper⟩, rfl, Layout.parts_slot ..⟩

/-- Units have at most one proper layout. -/
theorem Layout.IsProper.eq_of_written {first second : Layout} (hfirst : first.IsProper)
    (hsecond : second.IsProper) (h : first.written = second.written) : first = second := by
  induction first generalizing second with
  | text units =>
    cases second with
    | text others => rw [show units = others from h]
    | slot before body expression rest =>
      have hopen := hsecond.1.breakOn?_opening
      rw [show before ++ opening ++ body ++ closing ++ rest.written = units from h.symm,
        Text.breakOn?_eq_none_iff.mpr hfirst] at hopen
      cases hopen
  | slot before body expression rest ih =>
    obtain ⟨hslot, hrest⟩ := hfirst
    have hopen := hslot.breakOn?_opening
    rw [show before ++ opening ++ body ++ closing ++ rest.written = second.written from h] at hopen
    cases second with
    | text units =>
      rw [show (text units).written = units from rfl,
        Text.breakOn?_eq_none_iff.mpr hsecond] at hopen
      cases hopen
    | slot front inner other tail =>
      obtain ⟨hother, htail⟩ := hsecond
      rw [written, hother.breakOn?_opening] at hopen
      obtain ⟨rfl, hinside⟩ := Prod.mk.inj (Option.some.inj hopen)
      have hclose := hslot.breakOn?_closing
      rw [← hinside, hother.breakOn?_closing] at hclose
      obtain ⟨rfl, hbehind⟩ := Prod.mk.inj (Option.some.inj hclose)
      obtain rfl := Except.ok.inj (hother.read.symm.trans hslot.read)
      rw [ih hrest htail hbehind.symm]

theorem read_eq_ok_iff {source : Text} {parts : List Part} :
    read source = .ok parts ↔ readParts 0 source.units = .ok parts := by
  rw [read]
  cases readParts 0 source.units <;> simp

/-- A source is read when it has a proper layout, which it has once, and the result is the texts
between the placeholders that are not empty and the expressions of the bodies, in their order. A
source without a proper layout is a faulty template. -/
theorem read_layout (source : Text) :
    (∀ layout : Layout, layout.IsProper → layout.written = source.units →
      read source = .ok layout.parts) ∧
    (∀ parts, read source = .ok parts →
      ∃! layout : Layout, layout.IsProper ∧ layout.written = source.units ∧
        layout.parts = parts) ∧
    ((¬∃ layout : Layout, layout.IsProper ∧ layout.written = source.units) →
      ∃ flaw, read source = .error (.template source flaw)) := by
  refine ⟨fun layout hproper hwritten ↦ ?_, fun parts hread ↦ ?_, fun hnone ↦ ?_⟩
  · rw [read_eq_ok_iff, ← hwritten]
    exact hproper.readParts 0
  · obtain ⟨layout, hproper, hwritten, hparts⟩ :=
      exists_layout_of_readParts (read_eq_ok_iff.mp hread)
    refine ⟨layout, ⟨hproper, hwritten, hparts⟩, fun other hother ↦ ?_⟩
    exact hother.1.eq_of_written hproper (hother.2.1.trans hwritten.symm)
  · cases hread : readParts 0 source.units with
    | ok parts =>
      obtain ⟨layout, hproper, hwritten, -⟩ := exists_layout_of_readParts hread
      exact absurd ⟨layout, hproper, hwritten⟩ hnone
    | error flaw => exact ⟨flaw, by rw [read, hread]⟩

end Template

end BrowserFlow
