import BrowserFlow.Proofs.Number.Integers

/-!
What numerals denote. Digits denote an integer, however they are rounded, unless there are too many
of them (`Number.isInteger_or_infinite`). A decimal with at most 308 places before the point is
finite (`Number.ofDecimal_isFinite`); what is not finite is infinite with the sign that was read,
and never a number without meaning (`Number.isFinite_or_infinite`).
-/

set_option autoImplicit false
set_option relaxedAutoImplicit false

namespace BrowserFlow

namespace Magnitude

/-- An integer of any size is rounded to an integer. -/
theorem one_dvd_nearest (count : Nat) : one ∣ nearest (count * one) 1 := by
  obtain ⟨places, -, hone, -⟩ := exists_places
  obtain ⟨shift, hgrain⟩ : ∃ shift, grain (count * one) = 2 ^ shift := ⟨_, Nat.pow_eq⟩
  have hcount : one ∣ count * one := Nat.dvd_mul_left _ _
  rcases Nat.le_total places shift with hcoarse | hfine
  · have hdvd : one ∣ grain (count * one) := by
      rw [hgrain, hone]
      exact Nat.pow_dvd_pow 2 hcoarse
    simp only [nearest, Nat.div_one]
    exact hdvd.mul_left _
  · have hdvd : grain (count * one) ∣ one := by
      rw [hgrain, hone]
      exact Nat.pow_dvd_pow 2 hfine
    have hsame := nearest_one (Nat.dvd_trans hdvd hcount)
    exact hcount.trans (dvd_of_eq hsame.symm)

/-- So many places before the point are never too many for a finite number. -/
def safePlaces : Nat := 308

/-- There is a magnitude above everything with so many places. -/
theorem exists_above_safe : ∃ size : Magnitude, 10 ^ safePlaces * one ≤ size.units := by
  obtain ⟨places, -, hone, hlimit⟩ := exists_places
  obtain ⟨top, htop, hpow⟩ : ∃ top, 1024 = 2 + top ∧ 10 ^ safePlaces ≤ 3 * 2 ^ top :=
    ⟨1022, rfl, by decide +kernel⟩
  have hunits : 3 * Nat.pow 2 (top + places) = 3 * 2 ^ top * one := by
    rw [hone, Nat.pow_eq, Nat.pow_add, Nat.mul_assoc]
  have hlarge : limit = 4 * Nat.pow 2 (top + places) := by
    rw [hlimit, htop, Nat.add_assoc, Nat.pow_add, Nat.pow_eq]
  have hbounded : 3 * Nat.pow 2 (top + places) < limit := by
    rw [hlarge]
    exact Nat.mul_lt_mul_of_pos_right (by omega) (Nat.two_pow_pos _)
  refine ⟨⟨3 * Nat.pow 2 (top + places), grain_dvd_mul_two_pow 3 _ (by decide), hbounded⟩, ?_⟩
  calc 10 ^ safePlaces * one ≤ 3 * 2 ^ top * one := Nat.mul_le_mul_right _ hpow
    _ = 3 * Nat.pow 2 (top + places) := hunits.symm

end Magnitude

namespace Number

/-- A quotient is rounded to a finite number or is too large for one. -/
theorem exists_ofQuotient_or (negative : Bool) (num den : Nat) :
    (∃ size : Magnitude, size.units = Magnitude.nearest num den ∧
      ofQuotient negative num den = .finite negative size) ∨
    ofQuotient negative num den = .infinite negative := by
  rw [ofQuotient]
  split
  · exact .inl ⟨_, rfl, rfl⟩
  · exact .inr rfl

theorem isFinite_or_infinite (negative : Bool) (digits : Nat) (exponent : Int) :
    (ofDecimal negative digits exponent).isFinite = true ∨
      ofDecimal negative digits exponent = .infinite negative := by
  have hquotient : ∀ num den, (ofQuotient negative num den).isFinite = true ∨
      ofQuotient negative num den = .infinite negative := by
    intro num den
    obtain ⟨size, -, heq⟩ | heq := exists_ofQuotient_or negative num den
    · exact .inl (heq ▸ rfl)
    · exact .inr heq
  unfold ofDecimal
  split
  · exact hquotient 0 1
  · split
    · exact .inr rfl
    · split
      · exact hquotient 0 1
      · split
        · exact hquotient _ 1
        · exact hquotient _ _

theorem isInteger_of_dvd {negative : Bool} {size : Magnitude} (h : Magnitude.one ∣ size.units) :
    isInteger (.finite negative size) = true := by
  rw [isInteger, toInt?, if_pos (Nat.mod_eq_zero_of_dvd h)]
  rfl

/-- Digits denote an integer, unless there are too many of them. -/
theorem isInteger_or_infinite (negative : Bool) (digits : Nat) :
    (ofDecimal negative digits 0).isInteger = true ∨
      ofDecimal negative digits 0 = .infinite negative := by
  have hquotient : ∀ count, (ofQuotient negative (count * Magnitude.one) 1).isInteger = true ∨
      ofQuotient negative (count * Magnitude.one) 1 = .infinite negative := by
    intro count
    obtain ⟨size, hunits, heq⟩ | heq := exists_ofQuotient_or negative (count * Magnitude.one) 1
    · have hdvd : Magnitude.one ∣ size.units := hunits ▸ Magnitude.one_dvd_nearest count
      exact .inl (heq ▸ isInteger_of_dvd hdvd)
    · exact .inr heq
  by_cases hzero : digits = 0
  · have hnone := hquotient 0
    rw [Nat.zero_mul] at hnone
    rwa [ofDecimal, if_pos hzero, zero]
  · rw [ofDecimal, if_neg hzero, if_neg (by omega), if_neg (by omega), if_pos le_rfl,
      Int.toNat_zero, Nat.pow_eq, Nat.pow_zero, Nat.mul_one]
    exact hquotient digits

/-- A decimal with no more than the safe places before the point is finite. -/
theorem ofDecimal_isFinite (negative : Bool) {digits places : Nat}
    (h : digits < 10 ^ (Magnitude.safePlaces + places)) :
    (ofDecimal negative digits (-places)).isFinite = true := by
  obtain ⟨size, hsize⟩ := Magnitude.exists_above_safe
  have hzero : (ofQuotient negative 0 1).isFinite = true :=
    ofQuotient_isFinite negative (Nat.zero_le size.units)
  have hdigits : digits * Magnitude.one ≤ 10 ^ places * size.units := by
    calc digits * Magnitude.one ≤ 10 ^ (Magnitude.safePlaces + places) * Magnitude.one :=
          Nat.mul_le_mul_right _ (Nat.le_of_lt h)
      _ = 10 ^ places * (10 ^ Magnitude.safePlaces * Magnitude.one) := by rw [Nat.pow_add]; ring
      _ ≤ 10 ^ places * size.units := Nat.mul_le_mul_left _ hsize
  unfold ofDecimal
  split
  · exact hzero
  · rw [if_neg (by omega)]
    split
    · exact hzero
    · split
      · have hnone : places = 0 := by omega
        subst hnone
        rw [Nat.pow_zero, Nat.one_mul] at hdigits
        refine ofQuotient_isFinite negative (Nat.le_trans (Nat.le_of_eq ?_) hdigits)
        rw [Int.ofNat_zero, Int.neg_zero, Int.toNat_zero, Nat.pow_eq, Nat.pow_zero, Nat.mul_one]
      · have hexponent : (-(-(places : Int))).toNat = places := by omega
        rw [hexponent, Nat.pow_eq]
        exact ofQuotient_isFinite_of_le negative (Nat.pow_pos (by omega)) hdigits

/-- A natural number with no more than the safe places denotes an integer. -/
theorem isInteger_of_lt (negative : Bool) {digits : Nat} (h : digits < 10 ^ Magnitude.safePlaces) :
    (ofDecimal negative digits 0).isInteger = true := by
  have hfinite : (ofDecimal negative digits 0).isFinite = true := by
    rw [← Nat.add_zero Magnitude.safePlaces] at h
    simpa using ofDecimal_isFinite negative h
  rcases isInteger_or_infinite negative digits with hinteger | hinfinite
  · exact hinteger
  · rw [hinfinite] at hfinite
    cases hfinite

end Number

end BrowserFlow
