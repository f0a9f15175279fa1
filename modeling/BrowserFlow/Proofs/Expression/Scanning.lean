import BrowserFlow.Proofs.Expression.Words
import BrowserFlow.Proofs.Fault.Thrown

/-!
What is scanned is spelled. A scanned token takes units that are a spelling of its
lexeme (`Token.spelled_of_scan`), so the tokens of a text are words that make up the
text with white space around them (`Token.exists_spaced`). This is the converse of
reading legible words back. No spelling ends with a brace, and so no text with tokens
does (`Spaced.last_isBrace`).
-/

set_option autoImplicit false
set_option relaxedAutoImplicit false

namespace BrowserFlow

/-! ### Braces -/

/-- A brace, opening or closing. -/
def CodeUnit.isBrace (u : CodeUnit) : Bool := u == 0x7B || u == 0x7D

theorem CodeUnit.isBrace_iff {u : CodeUnit} : u.isBrace = true ↔ u = 0x7B ∨ u = 0x7D := by
  rw [isBrace, Bool.or_eq_true, beq_iff_eq, beq_iff_eq]

theorem CodeUnit.isBrace_of_isMark {u : CodeUnit} (h : u.isMark = true) : u.isBrace = false := by
  simp only [isMark, Bool.or_eq_true, beq_iff_eq] at h
  rcases h with ((((((((h | h) | h) | h) | h) | h) | h) | h) | h) | h <;> subst h <;> decide

theorem CodeUnit.isBrace_of_continuesName {u : CodeUnit} (h : u.continuesName = true) :
    u.isBrace = false := by
  rw [← Bool.not_eq_true, isBrace_iff]
  rintro (rfl | rfl)
  all_goals exact absurd h (by decide)

theorem CodeUnit.isBrace_of_isBlank {u : CodeUnit} (h : u.isBlank = true) : u.isBrace = false := by
  rw [← Bool.not_eq_true, isBrace_iff]
  rintro (rfl | rfl)
  all_goals exact absurd h (by decide)

theorem CodeUnit.IsQuote.isBrace {u : CodeUnit} (h : u.IsQuote) : u.isBrace = false := by
  rcases h with rfl | rfl <;> decide

theorem IsNumeral.isBrace {units : List CodeUnit} (h : IsNumeral units) {u : CodeUnit}
    (hu : u ∈ units) : u.isBrace = false := by
  rcases h.mem hu with hdigit | rfl
  · exact CodeUnit.isBrace_of_continuesName (CodeUnit.continuesName_of_isDigit hdigit)
  · decide

/-! ### The units of a token -/

/-- Every numeral reads as a number. -/
theorem Number.exists_ofText? {units : List CodeUnit} (h : IsNumeral units) :
    ∃ x, ofText? ⟨units⟩ = some x := by
  rcases h with hdigits | ⟨whole, fraction, rfl, hwhole, hfraction⟩
  · exact ⟨_, ofText?_digits hdigits⟩
  · exact ⟨_, ofText?_fraction hwhole hfraction⟩

namespace Token

variable {quote u : CodeUnit} {units rest content : List CodeUnit} {afterPoint : Bool}

/-- What is read up to a closing quote is a text behind its escapes. -/
theorem escaped_of_quotedContent? {width : Nat}
    (h : quotedContent? quote units = some (content, width)) : ∃ written behind,
      units = written ++ quote :: behind ∧ width = written.length + 1 ∧
        Escaped quote content written := by
  fun_induction quotedContent? quote units generalizing content width with
  | case1 => cases h
  | case2 rest =>
    cases h
    exact ⟨[], rest, rfl, rfl, .nil⟩
  | case3 => cases h
  | case4 next more _ ih =>
    obtain ⟨⟨others, count⟩, hothers, hpair⟩ := Option.map_eq_some_iff.mp h
    cases hpair
    obtain ⟨written, behind, rfl, rfl, hescaped⟩ := ih hothers
    exact ⟨_ :: next :: written, behind, rfl, rfl, .escape hescaped⟩
  | case5 u rest hne hslash ih =>
    obtain ⟨⟨others, count⟩, hothers, hpair⟩ := Option.map_eq_some_iff.mp h
    cases hpair
    obtain ⟨written, behind, rfl, rfl, hescaped⟩ := ih hothers
    exact ⟨u :: written, behind, rfl, rfl, .plain hne hslash hescaped⟩

theorem isDigits_takeWhile (rest : List CodeUnit) (h : u.isDigit = true) :
    IsDigits ((u :: rest).takeWhile CodeUnit.isDigit) := by
  refine ⟨?_, fun v hv ↦ List.mem_takeWhile_imp hv⟩
  rw [List.takeWhile_cons_of_pos h]
  exact List.cons_ne_nil _ _

/-- The digits of a number and of its fraction are a numeral at the beginning of the units. -/
theorem isNumeral_numberContent (afterPoint : Bool) (rest : List CodeUnit) (h : u.isDigit = true) :
    IsNumeral (numberContent afterPoint (u :: rest)) ∧
      numberContent afterPoint (u :: rest) <+: u :: rest := by
  have hwhole := isDigits_takeWhile rest h
  have hunits := List.takeWhile_append_dropWhile (p := CodeUnit.isDigit) (l := u :: rest)
  unfold numberContent
  dsimp only
  generalize (u :: rest).takeWhile CodeUnit.isDigit = whole at hwhole hunits ⊢
  generalize (u :: rest).dropWhile CodeUnit.isDigit = others at hunits ⊢
  split
  · next point more =>
    split
    · next hfraction =>
      simp only [Bool.and_eq_true, decide_eq_true_eq, Bool.not_eq_true',
        List.isEmpty_eq_false_iff] at hfraction
      obtain ⟨⟨-, rfl⟩, hne⟩ := hfraction
      refine ⟨.inr ⟨whole, _, rfl, hwhole, hne, fun v hv ↦ List.mem_takeWhile_imp hv⟩, ?_⟩
      rw [← hunits, List.prefix_append_right_inj, List.prefix_cons_inj]
      exact List.takeWhile_prefix _
    · exact ⟨.inl hwhole, hunits ▸ List.prefix_append _ _⟩
  · exact ⟨.inl hwhole, hunits ▸ List.prefix_append _ _⟩

section Kinds

variable {position more : Nat} {lexeme : Lexeme}

/-- A digit begins a number. -/
theorem scan_of_isDigit (h : u.isDigit = true) : scan afterPoint position u rest =
    .ok (.number ((Number.ofText? ⟨numberContent afterPoint (u :: rest)⟩).getD .nan),
      (numberContent afterPoint (u :: rest)).length - 1) := if_pos h

/-- A letter begins a name. -/
theorem scan_of_beginsName (h : u.beginsName = true) : scan afterPoint position u rest =
    .ok (.name ⟨u :: rest.takeWhile CodeUnit.continuesName⟩,
      (rest.takeWhile CodeUnit.continuesName).length) := by
  rw [scan, if_neg (by simp [CodeUnit.isDigit_of_beginsName h]), if_pos h]

/-- A quote begins a text that ends at the next quote of its kind. -/
theorem scan_of_quotedContent? {width : Nat} (hquote : u.IsQuote)
    (h : quotedContent? u rest = some (content, width)) :
    scan afterPoint position u rest = .ok (.quoted ⟨content⟩, width) := by
  obtain ⟨-, -, hdigit, hname⟩ := hquote.facts
  rw [scan, if_neg (by simp [hdigit]), if_neg (by simp [hname]),
    if_pos (by simpa [CodeUnit.IsQuote] using hquote), h]

theorem scan_of_isMark (h : u.isMark = true) :
    scan afterPoint position u rest = .ok (.mark u, 0) := by
  obtain ⟨hdigit, hname, hquote⟩ := CodeUnit.facts_of_isMark h
  rw [scan, if_neg (by simp [hdigit]), if_neg (by simp [hname]),
    if_neg (by simpa [CodeUnit.IsQuote] using hquote), if_pos h]

/-- A token is a number, a name, a quoted text or a mark, by its first unit. -/
theorem cases_of_scan (h : scan afterPoint position u rest = .ok (lexeme, more)) :
    u.isDigit = true ∨ u.beginsName = true ∨
      (∃ content, u.IsQuote ∧ quotedContent? u rest = some (content, more)) ∨
      u.isMark = true := by
  unfold scan at h
  split at h
  · next hdigit => exact .inl hdigit
  · split at h
    · next hname => exact .inr (.inl hname)
    · split at h
      · next hquote =>
        split at h
        · next content width hcontent =>
          cases h
          exact .inr (.inr (.inl ⟨content, by simpa [CodeUnit.IsQuote] using hquote, hcontent⟩))
        · cases h
      · split at h
        · next hmark => exact .inr (.inr (.inr hmark))
        · cases h

/-- The units that a token takes spell its lexeme. -/
theorem spelled_of_scan (h : scan afterPoint position u rest = .ok (lexeme, more)) :
    ∃ front behind, rest = front ++ behind ∧ more = front.length ∧ lexeme.Spelled (u :: front) := by
  rcases cases_of_scan h with hdigit | hname | ⟨content, hquote, hcontent⟩ | hmark
  · obtain ⟨hnumeral, behind, hbehind⟩ :=
      isNumeral_numberContent afterPoint rest hdigit
    rw [scan_of_isDigit hdigit] at h
    generalize numberContent afterPoint (u :: rest) = content at h hnumeral hbehind
    obtain ⟨first, front, rfl, -⟩ := hnumeral.exists_cons
    obtain ⟨rfl, rfl⟩ := List.cons.inj hbehind
    obtain ⟨x, hx⟩ := Number.exists_ofText? hnumeral
    cases h
    refine ⟨front, behind, rfl, rfl, .number hnumeral ?_⟩
    rw [hx, Option.getD_some]
  · rw [scan_of_beginsName hname] at h
    cases h
    refine ⟨_, _, (List.takeWhile_append_dropWhile (p := CodeUnit.continuesName)).symm, rfl,
      .name (Bool.and_eq_true_iff.mpr ⟨hname, List.all_eq_true.mpr ?_⟩)⟩
    exact fun v hv ↦ List.mem_takeWhile_imp hv
  · rw [scan_of_quotedContent? hquote hcontent] at h
    cases h
    obtain ⟨written, behind, rfl, rfl, hescaped⟩ := escaped_of_quotedContent? hcontent
    exact ⟨written ++ [u], behind, by simp, by simp, .quoted hquote hescaped⟩
  · rw [scan_of_isMark hmark] at h
    cases h
    exact ⟨[], rest, rfl, rfl, .mark hmark⟩

/-- No token begins with a brace. -/
theorem isBrace_of_scan (h : scan afterPoint position u rest = .ok (lexeme, more)) :
    u.isBrace = false := by
  rcases cases_of_scan h with hdigit | hname | ⟨-, hquote, -⟩ | hmark
  · exact CodeUnit.isBrace_of_continuesName (CodeUnit.continuesName_of_isDigit hdigit)
  · exact CodeUnit.isBrace_of_continuesName (CodeUnit.continuesName_of_beginsName hname)
  · exact hquote.isBrace
  · exact CodeUnit.isBrace_of_isMark hmark

end Kinds

/-- No token is read from white space. -/
theorem scanAll_blanks {blanks : List CodeUnit} {start : Nat}
    (h : ∀ u ∈ blanks, u.isBlank = true) :
    scanAll afterPoint start (blanks ++ rest) =
      scanAll afterPoint (start + blanks.length) rest := by
  induction blanks generalizing start with
  | nil => rfl
  | cons u others ih =>
    obtain ⟨hu, hothers⟩ := List.forall_mem_cons.mp h
    rw [List.cons_append, scanAll, if_pos hu, ih hothers, List.length_cons, Nat.add_assoc,
      Nat.add_comm 1]

/-- The tokens of a text are words that make up the text. -/
theorem exists_spaced {position : Nat} {tokens : List Token}
    (h : scanAll afterPoint position units = .ok tokens) :
    ∃ words, words.map Word.lexeme = tokens.map Token.lexeme ∧ Spaced words units := by
  fun_induction scanAll afterPoint position units generalizing tokens with
  | case1 =>
    cases h
    exact ⟨[], rfl, .nil⟩
  | case2 afterPoint position u rest hblank ih =>
    obtain ⟨words, hwords, hspaced⟩ := ih h
    exact ⟨words, hwords, .blank hblank hspaced⟩
  | case3 => cases h
  | case4 afterPoint position u rest hblank lexeme more hscan ih =>
    obtain ⟨others, hothers, hpair⟩ := Except.parts_of_bind h
    cases hpair
    obtain ⟨words, hwords, hspaced⟩ := ih hothers
    obtain ⟨front, behind, rfl, rfl, hspelled⟩ := spelled_of_scan hscan
    rw [List.drop_left] at hspaced
    exact ⟨⟨lexeme, u :: front, hspelled⟩ :: words, by simp [hwords], .word _ hspaced⟩

end Token

/-! ### The last unit -/

/-- No spelling ends with a brace. -/
theorem Lexeme.Spelled.last_isBrace {lexeme : Lexeme} {units : List CodeUnit}
    (h : lexeme.Spelled units) {u : CodeUnit} (hu : u ∈ units.getLast?) : u.isBrace = false := by
  cases h with
  | mark hmark =>
    obtain rfl := Option.some.inj hu
    exact CodeUnit.isBrace_of_isMark hmark
  | name hname =>
    exact CodeUnit.isBrace_of_continuesName
      (Text.continuesName_of_isName hname u (List.mem_of_getLast? hu))
  | quoted hquote _ =>
    rw [List.getLast?_concat] at hu
    obtain rfl := Option.some.inj hu
    exact hquote.isBrace
  | number hnumeral _ => exact hnumeral.isBrace (List.mem_of_getLast? hu)

/-- No text that words make up ends with a brace. -/
theorem Spaced.last_isBrace {words : List Word} {units : List CodeUnit} (h : Spaced words units)
    {u : CodeUnit} (hu : u ∈ units.getLast?) : u.isBrace = false := by
  induction h with
  | nil => cases hu
  | @blank v words units hblank _ ih =>
    rw [List.getLast?_cons] at hu
    cases hlast : units.getLast? with
    | none =>
      rw [hlast] at hu
      obtain rfl := Option.some.inj hu
      exact CodeUnit.isBrace_of_isBlank hblank
    | some last =>
      rw [hlast] at hu
      exact ih (hlast.trans hu)
  | @word words units word _ ih =>
    rw [List.getLast?_append] at hu
    cases hlast : units.getLast? with
    | none =>
      rw [hlast] at hu
      exact word.spelled.last_isBrace hu
    | some last =>
      rw [hlast] at hu
      exact ih (hlast.trans hu)

end BrowserFlow
