import BrowserFlow.Number.Numeral
import BrowserFlow.Proofs.Number.Finite
import BrowserFlow.Proofs.Text.Numerals
import Mathlib.Data.List.TakeDrop
import Mathlib.Tactic.Ring

/-!
Plain decimal numerals: digits, with or without a fraction behind a point, and
without sign or exponent. A numeral reads as the number nearest to what its digits
say (`Number.ofText?_digits`, `Number.ofText?_fraction`). Every magnitude has a
numeral of its own: a count of units, which are halves of halves and so on, comes
out even after as many decimal places as the unit is halved
(`Number.exists_numeral`), and an integer needs no fraction
(`Number.exists_digits`).
-/

set_option autoImplicit false
set_option relaxedAutoImplicit false

namespace BrowserFlow

/-- One digit or more. -/
def IsDigits (units : List CodeUnit) : Prop :=
  units ≠ [] ∧ ∀ u ∈ units, u.isDigit = true

instance (units : List CodeUnit) : Decidable (IsDigits units) :=
  decidable_of_iff (!units.isEmpty && units.all CodeUnit.isDigit) (by simp [IsDigits])

/-- Digits, with or without a fraction behind a point. -/
def IsNumeral (units : List CodeUnit) : Prop :=
  IsDigits units ∨ ∃ whole fraction, units = whole ++ CodeUnit.ofChar '.' :: fraction ∧
    IsDigits whole ∧ IsDigits fraction

theorem IsDigits.exists_cons {units : List CodeUnit} (h : IsDigits units) :
    ∃ u others, units = u :: others ∧ u.isDigit = true := by
  obtain ⟨u, others, rfl⟩ := List.exists_cons_of_ne_nil h.1
  exact ⟨u, others, rfl, h.2 u (by simp)⟩

/-- A numeral begins with a digit. -/
theorem IsNumeral.exists_cons {units : List CodeUnit} (h : IsNumeral units) :
    ∃ u others, units = u :: others ∧ u.isDigit = true := by
  rcases h with h | ⟨whole, fraction, rfl, hwhole, -⟩
  · exact h.exists_cons
  · obtain ⟨u, others, rfl, hu⟩ := hwhole.exists_cons
    exact ⟨u, others ++ CodeUnit.ofChar '.' :: fraction, rfl, hu⟩

theorem IsNumeral.mem {units : List CodeUnit} (h : IsNumeral units) {u : CodeUnit}
    (hu : u ∈ units) : u.isDigit = true ∨ u = CodeUnit.ofChar '.' := by
  rcases h with h | ⟨whole, fraction, rfl, hwhole, hfraction⟩
  · exact .inl (h.2 u hu)
  · rcases List.mem_append.mp hu with hu | hu
    · exact .inl (hwhole.2 u hu)
    · rcases List.mem_cons.mp hu with rfl | hu
      · exact .inr rfl
      · exact .inl (hfraction.2 u hu)

/-! ### Rounding a quotient that comes out even -/

namespace Magnitude

theorem halfEven_mul_right (num den : Nat) {scale : Nat} (h : 0 < scale) :
    halfEven (num * scale) (den * scale) = halfEven num den := by
  have hdiv : num * scale / (den * scale) = num / den := Nat.mul_div_mul_right _ _ h
  have hmod : num * scale % (den * scale) = num % den * scale := Nat.mul_mod_mul_right _ _ _
  have hless : 2 * (num % den * scale) < den * scale ↔ 2 * (num % den) < den := by
    rw [← Nat.mul_assoc]
    exact Nat.mul_lt_mul_right h
  have hmore : den * scale < 2 * (num % den * scale) ↔ den < 2 * (num % den) := by
    rw [← Nat.mul_assoc]
    exact Nat.mul_lt_mul_right h
  simp only [halfEven, hdiv, hmod, hless, hmore]

/-- A quotient that is a magnitude is left alone. -/
theorem nearest_mul (size : Magnitude) {den : Nat} (h : 0 < den) :
    nearest (size.units * den) den = size.units := by
  have hdiv : size.units * den / den = size.units := Nat.mul_div_cancel _ h
  calc nearest (size.units * den) den
      = halfEven (size.units * den) (grain size.units * den) * grain size.units := by
        rw [nearest, hdiv, Nat.mul_comm den]
    _ = halfEven size.units (1 * grain size.units) * grain size.units := by
        rw [halfEven_mul_right _ _ h, Nat.one_mul]
    _ = nearest size.units 1 := by rw [nearest, Nat.div_one]
    _ = size.units := nearest_one size.onGrid

end Magnitude

namespace Number

theorem ofQuotient_mul (negative : Bool) (size : Magnitude) (den : Nat) (h : 0 < den) :
    ofQuotient negative (size.units * den) den = .finite negative size := by
  have hnearest := Magnitude.nearest_mul size h
  have hbounded : Magnitude.nearest (size.units * den) den < Magnitude.limit := by
    rw [hnearest]
    exact size.bounded
  rw [ofQuotient, dif_pos hbounded]
  congr 1
  cases size
  simp only [hnearest]

/-! ### Reading numerals -/

section Reading

variable {units whole fraction : List CodeUnit}

theorem takeDigits_eq {rest : List CodeUnit} (hunits : ∀ u ∈ units, u.isDigit = true)
    (hrest : ∀ u ∈ rest.head?, u.isDigit = false) : takeDigits (units ++ rest) = (units, rest) := by
  rw [takeDigits, List.span_eq_takeWhile_dropWhile, List.takeWhile_append_of_pos hunits,
    List.dropWhile_append_of_pos hunits]
  cases rest with
  | nil => simp
  | cons u others => simp [hrest u rfl]

theorem takeDecimal?_digits (h : IsDigits units) :
    takeDecimal? false units = some (ofDecimal false (digitsValue 10 units) 0, []) := by
  have htake : takeDigits units = (units, []) := by
    have happend := @takeDigits_eq units [] h.2 (by simp)
    rwa [List.append_nil] at happend
  simp [takeDecimal?, htake, h.1, takeExponent]

theorem takeDecimal?_fraction (hwhole : IsDigits whole) (hfraction : IsDigits fraction) :
    takeDecimal? false (whole ++ CodeUnit.ofChar '.' :: fraction) =
      some (ofDecimal false (digitsValue 10 (whole ++ fraction)) (-fraction.length), []) := by
  have htake : takeDigits (whole ++ CodeUnit.ofChar '.' :: fraction) =
      (whole, CodeUnit.ofChar '.' :: fraction) := by
    refine takeDigits_eq hwhole.2 fun u hu ↦ ?_
    obtain rfl := Option.some.inj hu
    decide
  have hmore : takeDigits fraction = (fraction, []) := by
    have happend := @takeDigits_eq fraction [] hfraction.2 (by simp)
    rwa [List.append_nil] at happend
  simp [takeDecimal?, htake, hmore, hwhole.1, takeExponent]

/-- A numeral has no sign, no mark of a base and no white space around it. -/
theorem ofText?_numeral (h : IsNumeral units) : ofText? ⟨units⟩ = unsigned? false units := by
  have hinked : Text.Inked ⟨units⟩ := by
    intro u hu
    rcases h.mem hu with hdigit | rfl
    · exact CodeUnit.isBlank_of_isDigit hdigit
    · decide
  obtain ⟨first, rest, rfl, hfirst⟩ := h.exists_cons
  have hsign : first ≠ '-' ∧ first ≠ '+' := by
    constructor <;> (rintro rfl; exact absurd hfirst (by decide))
  rw [ofText?, hinked.trim]
  dsimp only
  rw [if_neg hsign.1, if_neg hsign.2]
  cases rest with
  | nil => rfl
  | cons mark digits =>
    -- The second unit of a numeral is a digit or a point, and no base has such a mark.
    have hother : ∀ letter : CodeUnit, letter.isDigit = false → letter ≠ '.' → mark ≠ letter := by
      rintro letter hdigit hpoint rfl
      rcases h.mem (u := mark) (by simp) with hmark | hmark
      · exact absurd hmark (by simp [hdigit])
      · exact hpoint hmark
    simp [hother 'x' (by decide) (by decide), hother 'X' (by decide) (by decide),
      hother 'o' (by decide) (by decide), hother 'O' (by decide) (by decide),
      hother 'b' (by decide) (by decide), hother 'B' (by decide) (by decide)]

/-- A numeral reads as the decimal at its beginning when that is all of it. -/
theorem ofText?_of_takeDecimal? {x : Number} (h : IsNumeral units)
    (htake : takeDecimal? false units = some (x, [])) : ofText? ⟨units⟩ = some x := by
  have hword : units ≠ (Text.ofString "Infinity").units := by
    rintro rfl
    obtain ⟨u, others, hunits, hdigit⟩ := h.exists_cons
    obtain rfl : CodeUnit.ofChar 'I' = u := (List.cons.inj hunits).1
    exact absurd hdigit (by decide)
  rw [ofText?_numeral h, unsigned?, if_neg hword, htake]

/-- Digits read as the number nearest to their value. -/
theorem ofText?_digits (h : IsDigits units) :
    ofText? ⟨units⟩ = some (ofDecimal false (digitsValue 10 units) 0) :=
  ofText?_of_takeDecimal? (.inl h) (takeDecimal?_digits h)

/-- With a fraction the digits count as many decimal places less. -/
theorem ofText?_fraction (hwhole : IsDigits whole) (hfraction : IsDigits fraction) :
    ofText? ⟨whole ++ CodeUnit.ofChar '.' :: fraction⟩ =
      some (ofDecimal false (digitsValue 10 (whole ++ fraction)) (-fraction.length)) :=
  ofText?_of_takeDecimal? (.inr ⟨whole, fraction, rfl, hwhole, hfraction⟩)
    (takeDecimal?_fraction hwhole hfraction)

end Reading

/-! ### Writing numbers -/

/-- Every value below ten has a digit. -/
theorem exists_digit {n : Nat} (h : n < 10) :
    ∃ u : CodeUnit, u.isDigit = true ∧ u.valueInBase? 10 = some n := by
  have hdigit : ∀ m : Fin 10, CodeUnit.isDigit (48 + m.val).toUInt16 = true ∧
      CodeUnit.valueInBase? 10 (48 + m.val).toUInt16 = some m.val := by decide
  exact ⟨_, hdigit ⟨n, h⟩⟩

/-- There are digits of any length for a number that has no more. -/
theorem exists_digits_of_lt (length : Nat) : ∀ n < 10 ^ length, ∃ digits : List CodeUnit,
    digits.length = length ∧ (∀ u ∈ digits, u.isDigit = true) ∧ digitsValue 10 digits = n := by
  induction length with
  | zero =>
    intro n hn
    obtain rfl : n = 0 := by simpa using hn
    exact ⟨[], rfl, by simp, rfl⟩
  | succ length ih =>
    intro n hn
    obtain ⟨digits, hlength, hdigits, hvalue⟩ := ih (n / 10) (by omega)
    obtain ⟨u, hu, hlast⟩ := exists_digit (Nat.mod_lt n (by omega : 10 > 0))
    refine ⟨digits ++ [u], by simp [hlength], ?_, ?_⟩
    · simpa [or_imp, forall_and] using ⟨hdigits, hu⟩
    · rw [digitsValue, List.foldl_append, ← digitsValue, hvalue]
      simp only [List.foldl_cons, List.foldl_nil, hlast, Option.getD_some]
      omega

theorem exists_isDigits (n : Nat) :
    ∃ digits : List CodeUnit, IsDigits digits ∧ digitsValue 10 digits = n := by
  have hlt : n < 10 ^ (n + 1) := Nat.lt_trans (Nat.lt_succ_self n) (Nat.lt_pow_self (by omega))
  obtain ⟨digits, hlength, hdigits, hvalue⟩ := exists_digits_of_lt (n + 1) n hlt
  exact ⟨digits, ⟨List.ne_nil_of_length_eq_add_one hlength, hdigits⟩, hvalue⟩

theorem digitsValue_append (whole fraction : List CodeUnit) :
    digitsValue 10 (whole ++ fraction) =
      digitsValue 10 whole * 10 ^ fraction.length + digitsValue 10 fraction := by
  have hfold : ∀ (digits : List CodeUnit) (init : Nat),
      digits.foldl (fun value u ↦ value * 10 + (u.valueInBase? 10).getD 0) init =
        init * 10 ^ digits.length + digitsValue 10 digits := by
    intro digits
    induction digits with
    | nil => simp [digitsValue]
    | cons u rest ih =>
      intro init
      rw [digitsValue, List.foldl_cons, List.foldl_cons, ih, ih, List.length_cons, Nat.pow_succ]
      ring
  rw [digitsValue, List.foldl_append, ← digitsValue, hfold]

theorem ofDecimal_zero_exponent (size : Magnitude) {count : Nat}
    (h : size.units = count * Magnitude.one) : ofDecimal false count 0 = .finite false size := by
  have hquotient : ofQuotient false (count * Magnitude.one) 1 = .finite false size := by
    rw [← h]
    simpa using ofQuotient_mul false size 1 (by omega)
  by_cases hzero : count = 0
  · subst hzero
    rw [Nat.zero_mul] at hquotient
    rw [ofDecimal, if_pos rfl, zero, hquotient]
  · rw [ofDecimal, if_neg hzero, if_neg (by omega), if_neg (by omega), if_pos (by omega)]
    simpa using hquotient

/-- A count of units is a decimal with as many places as one is halved to get the unit. -/
theorem ofDecimal_units (size : Magnitude) {places : Nat} (hplaces : 0 < places)
    (hone : Magnitude.one = 2 ^ places) :
    ofDecimal false (size.units * 5 ^ places) (-places) = .finite false size := by
  have hquotient := ofQuotient_mul false size (10 ^ places) (Nat.pow_pos (by omega))
  by_cases hzero : size.units = 0
  · have hunit := ofQuotient_mul false size 1 (by omega)
    rw [hzero, Nat.zero_mul] at hunit ⊢
    rw [ofDecimal, if_pos rfl, zero, hunit]
  · have hpos : 0 < 5 ^ places := Nat.pow_pos (by omega)
    have hne : size.units * 5 ^ places ≠ 0 := Nat.mul_ne_zero hzero (by omega)
    -- The digits outnumber the places by far, so that the decimal is not too small to be read.
    have hlog : places ≤ (size.units * 5 ^ places).log2 := by
      rw [Nat.le_log2 hne]
      calc 2 ^ places ≤ 5 ^ places := Nat.pow_le_pow_left (by omega) places
        _ ≤ size.units * 5 ^ places := Nat.le_mul_of_pos_left _ (by omega)
    have hscaled : size.units * 5 ^ places * Magnitude.one = size.units * 10 ^ places := by
      rw [hone, Nat.mul_assoc, ← Nat.mul_pow]
    rw [ofDecimal, if_neg hne, if_neg (by omega), if_neg (by omega), if_neg (by omega), hscaled]
    simpa using hquotient

/-- An integer without a minus sign is written in digits. -/
theorem exists_digits {x : Number} (hinteger : x.isInteger = true) (hsign : x.isNegative = false) :
    ∃ digits, IsDigits digits ∧ ofText? ⟨digits⟩ = some x := by
  cases x with
  | nan | infinite negative => cases hinteger
  | finite negative size =>
    obtain rfl : negative = false := hsign
    have hmod : size.units % Magnitude.one = 0 := by
      by_contra hne
      simp [isInteger, toInt?, hne] at hinteger
    obtain ⟨digits, hdigits, hvalue⟩ := exists_isDigits (size.units / Magnitude.one)
    have hunits : size.units = size.units / Magnitude.one * Magnitude.one :=
      (Nat.div_mul_cancel (Nat.dvd_of_mod_eq_zero hmod)).symm
    refine ⟨digits, hdigits, ?_⟩
    rw [ofText?_digits hdigits, hvalue, ofDecimal_zero_exponent size hunits]

/-- A finite number without a minus sign is written as a numeral. -/
theorem exists_numeral {x : Number} (hfinite : x.isFinite = true) (hsign : x.isNegative = false) :
    ∃ units, IsNumeral units ∧ ofText? ⟨units⟩ = some x := by
  cases x with
  | nan | infinite negative => cases hfinite
  | finite negative size =>
    obtain rfl : negative = false := hsign
    obtain ⟨places, hpos, hone, -⟩ := Magnitude.exists_places
    obtain ⟨whole, hwhole, hwholeValue⟩ := exists_isDigits (size.units * 5 ^ places / 10 ^ places)
    obtain ⟨fraction, hlength, hdigits, hfractionValue⟩ := exists_digits_of_lt places
      (size.units * 5 ^ places % 10 ^ places) (Nat.mod_lt _ (Nat.pow_pos (by omega)))
    have hfraction : IsDigits fraction :=
      ⟨List.ne_nil_of_length_pos (by omega), hdigits⟩
    have hvalue : digitsValue 10 (whole ++ fraction) = size.units * 5 ^ places := by
      rw [digitsValue_append, hwholeValue, hfractionValue, hlength]
      exact Nat.div_add_mod' _ _
    refine ⟨_, .inr ⟨whole, fraction, rfl, hwhole, hfraction⟩, ?_⟩
    rw [ofText?_fraction hwhole hfraction, hvalue, hlength, ofDecimal_units size hpos hone]

end Number

end BrowserFlow
