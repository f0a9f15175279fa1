import BrowserFlow.Proofs.Number.Numeral
import BrowserFlow.Proofs.Template.Names

/-!
Lexemes in writing. A mark and a name are written as they are, a text between
quotes of either kind with escapes for whatever would end it, and a number in
decimal digits (`Lexeme.Spelled`). A word is a lexeme with its spelling, and words
make up a text with any white space before, between and behind them, or none
(`Spaced`). Without white space some words run into each other: a name goes on with
the letters of the next, and a point between two rows of digits can belong to a
fraction. `Legible` says of words that this does not happen. The main statement is
that legible words are found again in a text that they make up, whatever white
space it has (`Token.scanAll_spaced`).
-/

set_option autoImplicit false
set_option relaxedAutoImplicit false

namespace BrowserFlow

/-! ### Spellings -/

/-- What may stand between quotes of a kind for a text: its units, each behind a backslash or not
when that makes no difference. -/
inductive Escaped (quote : CodeUnit) : List CodeUnit → List CodeUnit → Prop
  /-- Nothing stands for nothing. -/
  | nil : Escaped quote [] []
  /-- A unit that neither ends the text nor begins an escape stands for itself. -/
  | plain {u : CodeUnit} {content written : List CodeUnit} (hquote : u ≠ quote) (hslash : u ≠ '\\')
      (hrest : Escaped quote content written) : Escaped quote (u :: content) (u :: written)
  /-- An escape. -/
  | escape {u : CodeUnit} {content written : List CodeUnit}
      (hrest : Escaped quote content written) :
      Escaped quote (u.unescaped :: content) ('\\' :: u :: written)

/-- The two units that enclose a text. -/
def CodeUnit.IsQuote (u : CodeUnit) : Prop := u = '"' ∨ u = '\''

/-- How a lexeme is written. -/
inductive Lexeme.Spelled : Lexeme → List CodeUnit → Prop
  /-- A mark is one unit. -/
  | mark {u : CodeUnit} (h : u.isMark = true) : Spelled (.mark u) [u]
  /-- A name has its own units. -/
  | name {t : Text} (h : t.isName = true) : Spelled (.name t) t.units
  /-- A text stands between two quotes of one kind. -/
  | quoted {quote : CodeUnit} {content written : List CodeUnit} (hquote : quote.IsQuote)
      (h : Escaped quote content written) :
      Spelled (.quoted ⟨content⟩) (quote :: written ++ [quote])
  /-- A number is a numeral that reads as the number. -/
  | number {x : Number} {units : List CodeUnit} (h : IsNumeral units)
      (hread : Number.ofText? ⟨units⟩ = some x) : Spelled (.number x) units

/-- A lexeme with the units that it is written with. -/
structure Word where
  /-- What the word says. -/
  lexeme : Lexeme
  /-- The units of the word. -/
  units : List CodeUnit
  /-- The units say what the word says. -/
  spelled : lexeme.Spelled units

/-- Words one after the other with any white space around them. -/
inductive Spaced : List Word → List CodeUnit → Prop
  /-- The end. -/
  | nil : Spaced [] []
  /-- White space. -/
  | blank {u : CodeUnit} {words : List Word} {units : List CodeUnit} (h : u.isBlank = true)
      (hrest : Spaced words units) : Spaced words (u :: units)
  /-- A word. -/
  | word {words : List Word} {units : List CodeUnit} (word : Word) (hrest : Spaced words units) :
      Spaced (word :: words) (word.units ++ units)

/-! ### Words that do not run into each other -/

/-- Words of which the first is a mark, if there is any. -/
def Breaks (words : List Word) : Prop :=
  ∀ word ∈ words.head?, ∃ u, word.lexeme = .mark u

/-- Words of which the first is not a point. -/
def NoPoint (words : List Word) : Prop :=
  ∀ word ∈ words.head?, word.lexeme ≠ .mark '.'

/-- Words that can be told apart without white space. What is not a mark has a mark behind it; a
number behind a point has no fraction, and elsewhere no point follows one without a fraction. -/
def Legible : Bool → List Word → Prop
  | _, [] => True
  | afterPoint, word :: words =>
    match word.lexeme with
    | .mark u => Legible (u == '.') words
    | .name _ | .quoted _ => Breaks words ∧ Legible false words
    | .number _ =>
      Breaks words ∧
        (if afterPoint then IsDigits word.units else IsDigits word.units → NoPoint words) ∧
        Legible false words

section Legible

variable {word : Word} {words : List Word} {afterPoint : Bool}

theorem breaks_mark {u : CodeUnit} (h : word.lexeme = .mark u) : Breaks (word :: words) := by
  intro first hfirst
  obtain rfl := Option.some.inj hfirst
  exact ⟨u, h⟩

theorem legible_mark {u : CodeUnit} (h : word.lexeme = .mark u) :
    Legible afterPoint (word :: words) ↔ Legible (u == '.') words := by
  simp only [Legible, h]

theorem legible_name {t : Text} (h : word.lexeme = .name t) :
    Legible afterPoint (word :: words) ↔ Breaks words ∧ Legible false words := by
  simp only [Legible, h]

theorem legible_quoted {t : Text} (h : word.lexeme = .quoted t) :
    Legible afterPoint (word :: words) ↔ Breaks words ∧ Legible false words := by
  simp only [Legible, h]

theorem legible_number {x : Number} (h : word.lexeme = .number x) :
    Legible afterPoint (word :: words) ↔ Breaks words ∧
      (if afterPoint then IsDigits word.units else IsDigits word.units → NoPoint words) ∧
        Legible false words := by
  simp only [Legible, h]

/-- Before a mark it does not matter whether a point came. -/
theorem Legible.of_breaks {b : Bool} (hbreaks : Breaks words) (h : Legible b words)
    (afterPoint : Bool) : Legible afterPoint words := by
  cases words with
  | nil => trivial
  | cons word words =>
    obtain ⟨u, hu⟩ := hbreaks word rfl
    rw [legible_mark hu] at h ⊢
    exact h

end Legible

/-- Units of which the first belongs to no name and no number, if there is any. -/
def Separates (units : List CodeUnit) : Prop :=
  ∀ u ∈ units.head?, u.isBlank = true ∨ u.isMark = true

section Separates

variable {u : CodeUnit} {words : List Word} {units : List CodeUnit}

theorem CodeUnit.continuesName_of_isMark (h : u.isMark = true) : u.continuesName = false := by
  simp only [isMark, Bool.or_eq_true, beq_iff_eq] at h
  rcases h with ((((((((h | h) | h) | h) | h) | h) | h) | h) | h) | h <;> subst h <;> decide

theorem CodeUnit.isBlank_of_isMark (h : u.isMark = true) : u.isBlank = false := by
  simp only [isMark, Bool.or_eq_true, beq_iff_eq] at h
  rcases h with ((((((((h | h) | h) | h) | h) | h) | h) | h) | h) | h <;> subst h <;> decide

theorem CodeUnit.continuesName_of_isDigit (h : u.isDigit = true) : u.continuesName = true := by
  rw [continuesName, h, Bool.or_true]

theorem CodeUnit.continuesName_of_isBlank (h : u.isBlank = true) : u.continuesName = false := by
  cases hcontinues : u.continuesName with
  | false => rfl
  | true => exact absurd h (by simp [isBlank_of_continuesName hcontinues])

theorem CodeUnit.isDigit_of_continuesName (h : u.continuesName = false) : u.isDigit = false := by
  cases hdigit : u.isDigit with
  | false => rfl
  | true => exact absurd h (by simp [continuesName_of_isDigit hdigit])

theorem Separates.continuesName (h : Separates units) :
    ∀ u ∈ units.head?, u.continuesName = false := by
  intro u hu
  rcases h u hu with hblank | hmark
  · exact CodeUnit.continuesName_of_isBlank hblank
  · exact CodeUnit.continuesName_of_isMark hmark

theorem Separates.isDigit (h : Separates units) : ∀ u ∈ units.head?, u.isDigit = false :=
  fun u hu ↦ CodeUnit.isDigit_of_continuesName (h.continuesName u hu)

theorem Lexeme.Spelled.mark_eq (h : (Lexeme.mark u).Spelled units) :
    units = [u] ∧ u.isMark = true := by
  cases h with
  | mark h => exact ⟨rfl, h⟩

theorem Spaced.separates (h : Spaced words units) (hbreaks : Breaks words) : Separates units := by
  cases h with
  | nil => simp [Separates]
  | blank hblank _ => exact fun u hu ↦ .inl (Option.some.inj hu ▸ hblank)
  | word word _ =>
    obtain ⟨mark, hmark⟩ := hbreaks word rfl
    obtain ⟨hunits, hisMark⟩ := (hmark ▸ word.spelled).mark_eq
    rw [hunits]
    exact fun u hu ↦ .inr (Option.some.inj hu ▸ hisMark)

theorem Spaced.noPoint (h : Spaced words units) (hbreaks : Breaks words) (hpoint : NoPoint words) :
    ∀ u ∈ units.head?, u ≠ '.' := by
  cases h with
  | nil => simp
  | blank hblank _ =>
    rintro u hu rfl
    obtain rfl := Option.some.inj hu
    exact absurd hblank (by decide)
  | word word _ =>
    obtain ⟨mark, hmark⟩ := hbreaks word rfl
    obtain ⟨hunits, -⟩ := (hmark ▸ word.spelled).mark_eq
    rw [hunits]
    rintro u hu rfl
    obtain rfl := Option.some.inj hu
    exact hpoint word rfl hmark

end Separates

/-! ### Reading one word -/

section Scanning

variable {rest : List CodeUnit}

theorem takeWhile_append_of_head {p : CodeUnit → Bool} {units : List CodeUnit}
    (hunits : ∀ u ∈ units, p u = true) (hrest : ∀ u ∈ rest.head?, p u = false) :
    (units ++ rest).takeWhile p = units := by
  rw [List.takeWhile_append_of_pos hunits]
  cases rest with
  | nil => simp
  | cons u others => rw [List.takeWhile_cons_of_neg (by simp [hrest u rfl]), List.append_nil]

theorem dropWhile_append_of_head {p : CodeUnit → Bool} {units : List CodeUnit}
    (hunits : ∀ u ∈ units, p u = true) (hrest : ∀ u ∈ rest.head?, p u = false) :
    (units ++ rest).dropWhile p = rest := by
  rw [List.dropWhile_append_of_pos hunits]
  cases rest with
  | nil => simp
  | cons u others => rw [List.dropWhile_cons_of_neg (by simp [hrest u rfl])]

/-- What stands between quotes is read up to the closing quote. -/
theorem Token.quotedContent?_escaped {quote : CodeUnit} {content written : List CodeUnit}
    (hquote : quote ≠ '\\') (h : Escaped quote content written) :
    quotedContent? quote (written ++ quote :: rest) = some (content, written.length + 1) := by
  induction h with
  | nil =>
    rw [List.nil_append, quotedContent?.eq_def]
    exact if_pos rfl
  | plain hne hslash _ ih =>
    rw [List.cons_append, quotedContent?.eq_def]
    simp only [if_neg hne, if_neg hslash, ih, Option.map_some, List.length_cons]
  | escape _ ih =>
    rw [List.cons_append, List.cons_append, quotedContent?.eq_def]
    simp only [if_neg hquote.symm, if_true, ih, Option.map_some, List.length_cons]

theorem Token.numberContent_digits {afterPoint : Bool} {units : List CodeUnit}
    (h : IsDigits units) (hrest : Separates rest)
    (hpoint : afterPoint = false → ∀ u ∈ rest.head?, u ≠ '.') :
    numberContent afterPoint (units ++ rest) = units := by
  rw [numberContent, takeWhile_append_of_head h.2 hrest.isDigit,
    dropWhile_append_of_head h.2 hrest.isDigit]
  cases rest with
  | nil => rfl
  | cons u others =>
    dsimp only
    rw [if_neg]
    cases afterPoint with
    | true => simp
    | false => simp [hpoint rfl u rfl]

theorem Token.numberContent_fraction {whole fraction : List CodeUnit} (hwhole : IsDigits whole)
    (hfraction : IsDigits fraction) (hrest : Separates rest) :
    numberContent false (whole ++ CodeUnit.ofChar '.' :: fraction ++ rest) =
      whole ++ CodeUnit.ofChar '.' :: fraction := by
  have hpoint : ∀ u ∈ (CodeUnit.ofChar '.' :: (fraction ++ rest)).head?, u.isDigit = false := by
    intro u hu
    obtain rfl := Option.some.inj hu
    decide
  rw [List.append_assoc, List.cons_append, numberContent,
    takeWhile_append_of_head hwhole.2 hpoint, dropWhile_append_of_head hwhole.2 hpoint]
  simp only [takeWhile_append_of_head hfraction.2 hrest.isDigit]
  rw [if_pos]
  simp [hfraction.1]

/-- A quote begins neither a number nor a name. -/
theorem CodeUnit.IsQuote.facts {u : CodeUnit} (h : u.IsQuote) :
    u ≠ '\\' ∧ u.isBlank = false ∧ u.isDigit = false ∧ u.beginsName = false := by
  rcases h with rfl | rfl <;> decide

/-- A mark begins nothing else. -/
theorem CodeUnit.facts_of_isMark {u : CodeUnit} (h : u.isMark = true) :
    u.isDigit = false ∧ u.beginsName = false ∧ ¬u.IsQuote := by
  simp only [isMark, Bool.or_eq_true, beq_iff_eq] at h
  rw [IsQuote]
  rcases h with ((((((((h | h) | h) | h) | h) | h) | h) | h) | h) | h <;> subst h <;> decide

/-- A legible word is read off a text that begins with it. -/
theorem Token.scan_word {afterPoint : Bool} {word : Word} {words : List Word}
    (hlegible : Legible afterPoint (word :: words)) (hrest : Spaced words rest) (position : Nat) :
    ∃ u others, word.units = u :: others ∧ u.isBlank = false ∧
      scan afterPoint position u (others ++ rest) = .ok (word.lexeme, others.length) := by
  obtain ⟨lexeme, units, hspelled⟩ := word
  cases hspelled with
  | @mark u h =>
    obtain ⟨hdigit, hname, hquote⟩ := CodeUnit.facts_of_isMark h
    refine ⟨u, [], rfl, CodeUnit.isBlank_of_isMark h, ?_⟩
    rw [scan, if_neg (by simp [hdigit]), if_neg (by simp [hname]),
      if_neg (by simpa [CodeUnit.IsQuote] using hquote), if_pos h]
    rfl
  | @name t h =>
    obtain ⟨first, others, rfl, hfirst, hothers⟩ := Text.units_of_isName h
    have hcontinues := (hrest.separates hlegible.1).continuesName
    refine ⟨first, others, rfl,
      CodeUnit.isBlank_of_continuesName (CodeUnit.continuesName_of_beginsName hfirst), ?_⟩
    rw [scan, if_neg (by simp [CodeUnit.isDigit_of_beginsName hfirst]), if_pos hfirst,
      takeWhile_append_of_head hothers hcontinues]
  | @quoted quote content written hquote h =>
    obtain ⟨hslash, hblank, hdigit, hname⟩ := hquote.facts
    refine ⟨quote, written ++ [quote], rfl, hblank, ?_⟩
    rw [scan, if_neg (by simp [hdigit]), if_neg (by simp [hname]),
      if_pos (by simpa [CodeUnit.IsQuote] using hquote), List.append_assoc,
      List.singleton_append, quotedContent?_escaped hslash h]
    simp
  | @number x units h hread =>
    obtain ⟨hbreaks, hpoint, -⟩ := hlegible
    have hseparates := hrest.separates hbreaks
    have hcontent : numberContent afterPoint (units ++ rest) = units := by
      cases afterPoint with
      | true => exact numberContent_digits hpoint hseparates (by simp)
      | false =>
        rcases h with h | ⟨whole, fraction, rfl, hwhole, hfraction⟩
        · exact numberContent_digits h hseparates fun _ ↦ hrest.noPoint hbreaks (hpoint h)
        · exact numberContent_fraction hwhole hfraction hseparates
    obtain ⟨u, others, rfl, hdigit⟩ := h.exists_cons
    refine ⟨u, others, rfl, CodeUnit.isBlank_of_isDigit hdigit, ?_⟩
    rw [List.cons_append] at hcontent
    rw [scan, if_pos hdigit, hcontent]
    simp [hread]

end Scanning

/-! ### Reading all words -/

theorem Token.isPoint_mark (u : CodeUnit) : isPoint (.mark u) = (u == '.') := by
  have hpoint : Text.ofString "." = ⟨[CodeUnit.ofChar '.']⟩ := by decide
  simp [isPoint, Lexeme.shown, hpoint, Bool.beq_eq_decide_eq]

/-- What comes behind a legible word is legible after it. -/
theorem Legible.tail {afterPoint : Bool} {word : Word} {words : List Word}
    (h : Legible afterPoint (word :: words)) : Legible (Token.isPoint word.lexeme) words := by
  cases hword : word.lexeme with
  | mark u =>
    rw [Token.isPoint_mark]
    exact (legible_mark hword).mp h
  | name t =>
    obtain ⟨hbreaks, hwords⟩ := (legible_name hword).mp h
    exact hwords.of_breaks hbreaks _
  | quoted t =>
    obtain ⟨hbreaks, hwords⟩ := (legible_quoted hword).mp h
    exact hwords.of_breaks hbreaks _
  | number x =>
    obtain ⟨hbreaks, -, hwords⟩ := (legible_number hword).mp h
    exact hwords.of_breaks hbreaks _

/-- Legible words are found again in a text that they make up. -/
theorem Token.scanAll_spaced {words : List Word} {units : List CodeUnit} (h : Spaced words units) :
    ∀ afterPoint position, Legible afterPoint words → ∃ tokens,
      scanAll afterPoint position units = .ok tokens ∧
        tokens.map lexeme = words.map Word.lexeme := by
  induction h with
  | nil =>
    intro afterPoint position _
    exact ⟨[], by rw [scanAll], rfl⟩
  | blank hblank _ ih =>
    intro afterPoint position hlegible
    obtain ⟨tokens, htokens, hlexemes⟩ := ih afterPoint (position + 1) hlegible
    exact ⟨tokens, by rw [scanAll, if_pos hblank, htokens], hlexemes⟩
  | @word words units word hrest ih =>
    intro afterPoint position hlegible
    obtain ⟨u, others, hunits, hblank, hscan⟩ := scan_word hlegible hrest position
    obtain ⟨tokens, htokens, hlexemes⟩ := ih (isPoint word.lexeme) (position + 1 + others.length)
      hlegible.tail
    refine ⟨⟨word.lexeme, position, others.length + 1⟩ :: tokens, ?_, by simp [hlexemes]⟩
    rw [hunits, List.cons_append, scanAll, if_neg (by simp [hblank]), hscan]
    simp only [List.drop_left, htokens]
    rfl

end BrowserFlow
