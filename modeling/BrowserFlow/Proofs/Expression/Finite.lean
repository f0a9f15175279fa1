import BrowserFlow.Proofs.Number.Layout
import BrowserFlow.Proofs.Number.Range
import BrowserFlow.Proofs.Template.Placeholders
import BrowserFlow.Proofs.Value.Normalised

/-!
What expressions evaluate to where the scope holds finite numbers only. Every operator checks its
result, lengths are counts, and no numeral is read as a number without meaning. So the only values
that are not normalised are literals of too many digits, with minus signs before them or without
(`Expression.IsOversized`), and these evaluate to an infinite number. An expression, or a template,
without a row of more digits than are safe has none of them. All other outcomes are faults of a
reference or of a mismatch (`Expression.evaluate_throwsOnly`).
-/

set_option autoImplicit false
set_option relaxedAutoImplicit false

namespace BrowserFlow

/-! ### Rows of digits -/

/-- Units in which no row of digits is longer than the safe places of a number. -/
def HasSafeDigits (units : List CodeUnit) : Prop :=
  ∀ digits, IsDigits digits → digits <:+: units → digits.length ≤ Magnitude.safePlaces

theorem HasSafeDigits.of_infix {part units : List CodeUnit} (h : HasSafeDigits units)
    (hpart : part <:+: units) : HasSafeDigits part :=
  fun digits hdigits hoccurs ↦ h digits hdigits (hoccurs.trans hpart)

namespace Number

variable {units : List CodeUnit} {x : Number}

/-- A numeral denotes a finite number or, with too many digits, an infinite one. -/
theorem isFinite_or_infinite_of_numeral (h : IsNumeral units) (hread : ofText? ⟨units⟩ = some x) :
    x.isFinite = true ∨ x = .infinite false := by
  rcases h with hdigits | ⟨whole, fraction, rfl, hwhole, hfraction⟩
  · rw [ofText?_digits hdigits] at hread
    obtain rfl := Option.some.inj hread
    exact isFinite_or_infinite false _ 0
  · rw [ofText?_fraction hwhole hfraction] at hread
    obtain rfl := Option.some.inj hread
    exact isFinite_or_infinite false _ _

/-- A numeral without a row of more digits than are safe denotes a finite number. -/
theorem isFinite_of_numeral (h : IsNumeral units) (hread : ofText? ⟨units⟩ = some x)
    (hsafe : HasSafeDigits units) : x.isFinite = true := by
  have hless : ∀ whole fraction : List CodeUnit, whole.length ≤ Magnitude.safePlaces →
      (∀ u ∈ whole ++ fraction, u.isDigit = true) →
      digitsValue 10 (whole ++ fraction) < 10 ^ (Magnitude.safePlaces + fraction.length) := by
    intro whole fraction hlength hdigits
    refine Nat.lt_of_lt_of_le (digitsValue_lt _ hdigits) ?_
    rw [List.length_append]
    exact Nat.pow_le_pow_right (by omega) (by omega)
  rcases h with hdigits | ⟨whole, fraction, rfl, hwhole, hfraction⟩
  · rw [ofText?_digits hdigits] at hread
    obtain rfl := Option.some.inj hread
    have hvalue := hless units [] (hsafe units hdigits List.infix_rfl) (by simpa using hdigits.2)
    rw [List.append_nil, List.length_nil] at hvalue
    simpa using ofDecimal_isFinite false hvalue
  · rw [ofText?_fraction hwhole hfraction] at hread
    obtain rfl := Option.some.inj hread
    have hlength := hsafe whole hwhole (List.prefix_append _ _).isInfix
    exact ofDecimal_isFinite false (hless whole fraction hlength
      (List.forall_mem_append.mpr ⟨hwhole.2, hfraction.2⟩))

end Number

/-- A word is a part of every text that it makes up with others. -/
theorem Spaced.isInfix {words : List Word} {units : List CodeUnit} (h : Spaced words units)
    {word : Word} (hword : word ∈ words) : word.units <:+: units := by
  induction h with
  | nil => cases hword
  | blank _ _ ih => exact (ih hword).trans (List.suffix_cons _ _).isInfix
  | word first _ ih =>
    rcases List.mem_cons.mp hword with rfl | hrest
    · exact (List.prefix_append _ _).isInfix
    · exact (ih hrest).trans (List.suffix_append _ _).isInfix

/-! ### Literals that are too large -/

namespace Expression

variable {scope : Scope} {source : Text} {expression : Expression} {level : Nat}
variable {tokens : List Token}

/-- A literal that is too large for a number, with minus signs before it or without. -/
inductive IsOversized : Expression → Prop
  /-- The literal. -/
  | literal : IsOversized (.literal (.number (.infinite false)))
  /-- One minus sign more. -/
  | negate {operand : Expression} (h : IsOversized operand) : IsOversized (.negate operand)

theorem IsOversized.evaluate (h : expression.IsOversized) (scope : Scope) :
    ∃ negative, expression.evaluate scope = .ok (.number (.infinite negative)) := by
  induction h with
  | literal => exact ⟨false, rfl⟩
  | negate _ ih =>
    obtain ⟨negative, hoperand⟩ := ih
    refine ⟨!negative, ?_⟩
    rw [Expression.evaluate, hoperand]
    rfl

/-- The numbers of an expression that is read are denoted by numerals in the text. -/
theorem exists_numerals_of_read (h : read source = .ok expression) :
    ∃ tokens, Derives 0 tokens expression ∧ ∀ token ∈ tokens, ∀ x, token.lexeme = .number x →
      ∃ units, units <:+: source.units ∧ IsNumeral units ∧ Number.ofText? ⟨units⟩ = some x := by
  obtain ⟨tokens, htokens, hderives⟩ := exists_tokens_of_read h
  obtain ⟨words, hlexemes, hspaced⟩ := Token.exists_spaced htokens
  refine ⟨tokens, hderives, fun token htoken x hx ↦ ?_⟩
  have hmem : token.lexeme ∈ words.map Word.lexeme := hlexemes ▸ List.mem_map_of_mem htoken
  obtain ⟨word, hword, hsame⟩ := List.mem_map.mp hmem
  have hspelled := word.spelled
  rw [hsame, hx] at hspelled
  cases hspelled with
  | number hnumeral hread => exact ⟨word.units, hspaced.isInfix hword, hnumeral, hread⟩

theorem cases_of_literalOfName? {name : Text} {value : Value}
    (h : literalOfName? name = some value) : (∃ b, value = .bool b) ∨ value = .null := by
  unfold literalOfName? at h
  split at h
  · exact .inl ⟨true, (Option.some.inj h).symm⟩
  · split at h
    · exact .inl ⟨false, (Option.some.inj h).symm⟩
    · split at h
      · exact .inr (Option.some.inj h).symm
      · cases h

/-- What is derived from tokens with finite numbers, or with such as are too large, is no literal
that is too large, or it is one. -/
theorem Derives.isNormalised_or_isOversized (h : Derives level tokens expression)
    (hnumbers : ∀ token ∈ tokens, ∀ x, token.lexeme = .number x →
      x.isFinite = true ∨ x = .infinite false) :
    expression.isNormalised = true ∨ expression.IsOversized := by
  induction h with
  | lift _ _ ih => exact ih hnumbers
  | @number token x htoken =>
    rcases hnumbers token (by simp) x htoken with hfinite | rfl
    · exact .inl hfinite
    · exact .inr .literal
  | quoted _ => exact .inl rfl
  | constant _ hvalue =>
    obtain ⟨b, rfl⟩ | rfl := cases_of_literalOfName? hvalue
    · exact .inl rfl
    · exact .inl rfl
  | path _ _ _ => exact .inl rfl
  | enclosed _ _ _ ih =>
    exact ih fun token htoken ↦ hnumbers token (by simp [htoken])
  | negated _ _ ih =>
    exact (ih fun token htoken ↦ hnumbers token (.tail _ htoken)).imp_right .negate
  | binary _ _ _ _ _ => exact .inl rfl

/-- A literal that is too large comes from a token that is. -/
theorem Derives.exists_infinite (h : Derives level tokens expression)
    (hoversized : expression.IsOversized) :
    ∃ token ∈ tokens, token.lexeme = .number (.infinite false) := by
  induction h with
  | lift _ _ ih => exact ih hoversized
  | @number token x htoken =>
    cases hoversized
    exact ⟨token, by simp, htoken⟩
  | quoted _ => cases hoversized
  | constant _ hvalue =>
    obtain ⟨b, rfl⟩ | rfl := cases_of_literalOfName? hvalue
    · cases hoversized
    · cases hoversized
  | path _ _ _ => cases hoversized
  | enclosed _ _ _ ih =>
    obtain ⟨token, htoken, hlexeme⟩ := ih hoversized
    exact ⟨token, by simp [htoken], hlexeme⟩
  | negated _ _ ih =>
    cases hoversized with
    | negate hoperand =>
      obtain ⟨token, htoken, hlexeme⟩ := ih hoperand
      exact ⟨token, .tail _ htoken, hlexeme⟩
  | binary _ _ _ _ _ => cases hoversized

theorem isNormalised_or_isOversized_of_read (h : read source = .ok expression) :
    expression.isNormalised = true ∨ expression.IsOversized := by
  obtain ⟨tokens, hderives, hnumerals⟩ := exists_numerals_of_read h
  refine hderives.isNormalised_or_isOversized fun token htoken x hx ↦ ?_
  obtain ⟨units, -, hnumeral, hread⟩ := hnumerals token htoken x hx
  exact Number.isFinite_or_infinite_of_numeral hnumeral hread

theorem not_isOversized_of_read (h : read source = .ok expression)
    (hsafe : HasSafeDigits source.units) : ¬expression.IsOversized := by
  intro hoversized
  obtain ⟨tokens, hderives, hnumerals⟩ := exists_numerals_of_read h
  obtain ⟨token, htoken, hlexeme⟩ := hderives.exists_infinite hoversized
  obtain ⟨units, hoccurs, hnumeral, hread⟩ := hnumerals token htoken _ hlexeme
  have hfinite := Number.isFinite_of_numeral hnumeral hread (hsafe.of_infix hoccurs)
  cases hfinite

end Expression

/-! ### Faults of evaluation -/

/-- A fault of a reference that is not there, or of a value of the wrong kind. -/
def Fault.IsOfEvaluation (fault : Fault) : Prop := fault.kind = .reference ∨ fault.kind = .mismatch

theorem Segment.read_throwsOnly (target : Value) (segment : Segment) (reference : Text) :
    ThrowsOnly Fault.IsOfEvaluation (segment.read target reference) := by
  unfold read
  repeat' split
  all_goals first
    | exact .ok _
    | exact .error (.inl rfl)
    | exact .error (.inr rfl)

namespace Expression

variable {scope : Scope}

theorem follow_throwsOnly (target : Value) (reference : Text) (segments : List Segment) :
    ThrowsOnly Fault.IsOfEvaluation (follow target reference segments) := by
  induction segments generalizing target reference with
  | nil => exact .ok _
  | cons segment rest ih =>
    have hread := segment.read_throwsOnly target (reference ++ segment.written)
    rw [follow]
    split
    · next fault hfault =>
      rw [hfault] at hread
      exact hread.rethrow
    · next next _ => exact ih next _

theorem combine_throwsOnly (operator : Operator) (left right : Value) :
    ThrowsOnly Fault.IsOfEvaluation (combine operator left right) := by
  unfold combine calculate
  dsimp only
  repeat' split
  all_goals first
    | exact .ok _
    | exact .error (.inr rfl)

/-- Evaluation throws only faults of a reference and of a mismatch. -/
theorem evaluate_throwsOnly (scope : Scope) (expression : Expression) :
    ThrowsOnly Fault.IsOfEvaluation (expression.evaluate scope) := by
  induction expression with
  | literal value => exact .ok _
  | path root segments =>
    rw [evaluate]
    split
    · exact follow_throwsOnly _ _ _
    · exact .error (.inl rfl)
  | negate operand ih =>
    rw [evaluate]
    refine ih.bind fun found ↦ ?_
    split
    · exact .ok _
    · exact .error (.inr rfl)
  | binary operator left right ihleft ihright =>
    rw [evaluate]
    exact ihleft.bind fun l ↦ ihright.bind fun r ↦ combine_throwsOnly operator l r

end Expression

/-! ### Templates -/

namespace Template

variable {template : Text} {expression : Expression}

/-- The expression of a template that is one placeholder is read from a part of the template. -/
theorem exists_body_of_read (h : read template = .ok [.placeholder expression]) :
    ∃ body : Text, body.units <:+: template.units ∧ Expression.read body = .ok expression := by
  obtain ⟨-, hparts⟩ | ⟨before, body, found, after, others, next, hslot, hunits, -, hparts⟩ :=
    cases_of_readParts (read_eq_ok_iff.mp h)
  · unfold textPart at hparts
    split at hparts <;> cases hparts
  · refine ⟨⟨body⟩, ⟨before ++ opening, closing ++ after, by rw [hunits]; simp⟩, ?_⟩
    unfold textPart at hparts
    split at hparts
    · obtain ⟨hsame, -⟩ := List.cons.inj hparts
      rw [Part.placeholder.inj hsame]
      exact hslot.read
    · cases hparts

/-- A template stands for a normalised value, or it is one literal that is too large. -/
theorem resolve_normalised_or {scope : Scope} (hscope : scope.IsNormalised) {value : Value}
    (h : resolve scope template = .ok value) : value.isNormalised = true ∨
      ∃ expression, read template = .ok [.placeholder expression] ∧ expression.IsOversized := by
  by_cases hfinite : isFinite template = true
  · exact .inl (resolve_normalised hscope (fun _ ↦ hfinite) h)
  · unfold isFinite at hfinite
    split at hfinite
    · next expression hread =>
      obtain ⟨body, -, hbody⟩ := exists_body_of_read hread
      have hcases := Expression.isNormalised_or_isOversized_of_read hbody
      exact .inr ⟨expression, hread, hcases.resolve_left hfinite⟩
    · exact absurd rfl hfinite

/-- A template without a row of more digits than are safe stands for a normalised value. -/
theorem resolve_normalised_of_safe {scope : Scope} (hscope : scope.IsNormalised)
    (hsafe : HasSafeDigits template.units) {value : Value}
    (h : resolve scope template = .ok value) : value.isNormalised = true := by
  obtain hnormalised | ⟨expression, hread, hoversized⟩ := resolve_normalised_or hscope h
  · exact hnormalised
  · obtain ⟨body, hpart, hbody⟩ := exists_body_of_read hread
    exact absurd hoversized (Expression.not_isOversized_of_read hbody (hsafe.of_infix hpart))

end Template

namespace Expression

variable {scope : Scope} {source : Text} {expression : Expression}

/-- Where the numbers of a scope are finite, an expression that was read throws only faults of a
reference and of a mismatch, or evaluates to a value with finite numbers. The one exception is a
literal that is too large for a number, with minus signs before it or without, which evaluates to an
infinite number. Without a row of more than 308 digits there is none. The same holds of what
templates stand for. -/
theorem evaluate_finite (hscope : scope.IsNormalised) (hread : read source = .ok expression) :
    (∀ fault, expression.evaluate scope = .error fault →
      fault.kind = .reference ∨ fault.kind = .mismatch) ∧
    (¬expression.IsOversized → ∀ value, expression.evaluate scope = .ok value →
      value.isNormalised = true) ∧
    (expression.IsOversized → ∃ negative,
      expression.evaluate scope = .ok (.number (.infinite negative))) ∧
    (HasSafeDigits source.units → ¬expression.IsOversized) ∧
    ∀ template value, Template.resolve scope template = .ok value →
      (HasSafeDigits template.units → value.isNormalised = true) ∧
      (value.isNormalised = true ∨ ∃ literal,
        Template.read template = .ok [.placeholder literal] ∧ literal.IsOversized) :=
  ⟨evaluate_throwsOnly scope expression,
    fun hfits _ hvalue ↦ evaluate_normalised hscope
      ((isNormalised_or_isOversized_of_read hread).resolve_right hfits) hvalue,
    fun hoversized ↦ hoversized.evaluate scope, not_isOversized_of_read hread,
    fun _ _ hvalue ↦ ⟨fun hsafe ↦ Template.resolve_normalised_of_safe hscope hsafe hvalue,
      Template.resolve_normalised_or hscope hvalue⟩⟩

theorem isNormalised_ofEntries {entries : Entries Value}
    (h : ∀ entry ∈ entries, entry.2.isNormalised = true) :
    (Scope.ofEntries entries).IsNormalised :=
  fun _ _ hfound ↦ h _ (Entries.mem_of_find? hfound)

/-- Twice a price, negated, is finite in the scope of a finite price. -/
theorem evaluate_finite_doubledPrice :
    (Scope.ofEntries [("price", .number 5)]).IsNormalised ∧
    ∃ expression, read "-(2 * price)" = .ok expression ∧ ¬expression.IsOversized ∧
      ∃ value, expression.evaluate (.ofEntries [("price", .number 5)]) = .ok value ∧
        value.isNormalised = true := by
  have hscope : (Scope.ofEntries [("price", .number 5)]).IsNormalised := by
    refine isNormalised_ofEntries fun entry hentry ↦ ?_
    obtain rfl := List.mem_singleton.mp hentry
    rw [Value.isNormalised_number]
    exact Number.ofNat_isFinite (by decide)
  have hexpression : (read "-(2 * price)").isOk = true := by decide +kernel
  have hsafe : HasSafeDigits ("-(2 * price)" : Text).units := by
    intro digits _ hoccurs
    exact hoccurs.length_le.trans (by decide)
  obtain ⟨expression, hread⟩ := Except.eq_ok_of_isOk hexpression
  obtain ⟨-, hnormalised, -, hfits, -⟩ := evaluate_finite hscope hread
  have hvalue : ((read "-(2 * price)").toOption.map fun expression ↦
      (expression.evaluate (.ofEntries [("price", .number 5)])).isOk) = some true := by
    decide +kernel
  rw [hread] at hvalue
  obtain ⟨value, hevaluate⟩ := Except.eq_ok_of_isOk (Option.some.inj hvalue)
  exact ⟨hscope, expression, hread, hfits hsafe, value, hevaluate,
    hnormalised (hfits hsafe) value hevaluate⟩

/-- A literal of 309 digits evaluates to an infinite number, in the scope without variables. -/
theorem not_forall_evaluate_finite :
    ¬∀ (scope : Scope) (source : Text) (expression : Expression) (value : Value),
      scope.IsNormalised → read source = .ok expression →
      expression.evaluate scope = .ok value → value.isNormalised = true := by
  intro hall
  let source := Text.repeated 309 "9"
  have hdigits : IsDigits source.units := by decide +kernel
  have hnumber : Number.ofText? ⟨source.units⟩ = some (.infinite false) := by decide +kernel
  let words : List Word :=
    [⟨.number (.infinite false), source.units, .number (.inl hdigits) hnumber⟩]
  have hspaced : Spaced words source.units := by
    have hunits : source.units = words.flatMap fun word ↦ word.units ++ [] := by simp [words]
    rw [hunits]
    exact spaced_flatMap [] (by simp) words
  have hread := Template.read_of_spaced (.number rfl) hspaced
  have hvalue := hall (.ofEntries []) source _ _ (isNormalised_ofEntries (by simp)) hread rfl
  cases hvalue

end Expression

end BrowserFlow
