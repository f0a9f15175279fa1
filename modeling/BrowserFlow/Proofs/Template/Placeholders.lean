import BrowserFlow.Proofs.Expression.Printing
import BrowserFlow.Proofs.Template.Braces

/-!
Templates that are one placeholder. Such a template stands for the value of its expression, of
whatever kind that is (`Template.resolve_of_read`). The words of an expression between double
braces are one, whatever white space is between them, as long as no two like braces stand in a row
(`Template.read_enclosed_of_written`).
-/

set_option autoImplicit false
set_option relaxedAutoImplicit false

namespace BrowserFlow.Template

variable {source : Text} {expression : Expression}

theorem hasPlaceholder_of_read (h : read source = .ok [.placeholder expression]) :
    hasPlaceholder source = true := by
  by_contra hnone
  have hplain : ¬opening <:+: source.units := by
    rw [← Text.breakOn?_eq_none_iff, ← Option.not_isSome_iff_eq_none]
    exact hnone
  rw [read_eq_ok_iff, readParts_of_plain hplain, textPart] at h
  split at h <;> cases h

/-- A template that is one placeholder stands for the value of the expression in it. -/
theorem resolve_of_read (h : read source = .ok [.placeholder expression]) (scope : Scope) :
    resolve scope source = expression.evaluate scope := by
  rw [resolve, if_pos (hasPlaceholder_of_read h), h]
  rfl

/-- The words of an expression are read as the expression. -/
theorem read_of_spaced {words : List Word} (hwords : Expression.Written 0 expression words)
    (hspaced : Spaced words source.units) : Expression.read source = .ok expression := by
  have hlegible := hwords.legible [] follows_nil
  rw [List.append_nil] at hlegible
  obtain ⟨tokens, htokens, hlexemes⟩ := Token.scanAll_spaced hspaced false 0 hlegible
  rw [Expression.read, Token.tokenize, htokens]
  exact Expression.ofTokens_of_derives (hwords.derives (Nat.zero_le 2) tokens hlexemes)

/-- The words of an expression are, between double braces, one placeholder with the expression. -/
theorem read_enclosed_of_written {words : List Word} (hwords : Expression.Written 0 expression words)
    (hspaced : Spaced words source.units) (hopening : ¬opening <:+: source.units)
    (hclosing : ¬closing <:+: source.units) :
    read (enclosed source) = .ok [.placeholder expression] :=
  read_enclosed_of_plain (read_of_spaced hwords hspaced) hopening hclosing

/-- What is not an expression makes a template with the same flaw, unless its braces are taken for
those of a placeholder. -/
theorem read_enclosed_of_error {flaw : TemplateFlaw} (h : Expression.read source = .error flaw)
    (hblank : source.isBlank = false) (hlast : ∀ u ∈ source.units.getLast?, u.isBrace = false)
    (hopening : ¬opening <:+: source.units) (hclosing : ¬closing <:+: source.units) :
    read (enclosed source) = .error (.template (enclosed source) flaw) := by
  have hbody : readBody 0 source.units = .error flaw := by
    rw [readBody, if_neg (by rw [hblank]; exact Bool.false_ne_true),
      Text.breakOn?_eq_none_iff.mpr hopening, if_neg (by simp), h]
  have hparts : readParts 0 (enclosed source).units = .error flaw := by
    rw [enclosed, readParts_enclosed (occursFirst_closing hlast hclosing), hbody]
    rfl
  rw [read, hparts]

end BrowserFlow.Template
