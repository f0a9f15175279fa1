import BrowserFlow.Proofs.Number.Numeral

/-!
Numbers that are integers. A finite number is an integer when its units are a
multiple of those of one (`Number.toInt?_eq_some_iff`). Up to 2 to the power of
53 nothing is rounded: every integer is a number (`Number.toInt?_ofInt`), and
the sum of two integers is exact as long as it is not past that bound
(`Number.toInt?_add`). Integers compare as they should, of any size, and a
positive integer of any size is the number of its count
(`Number.ofNat_of_toInt?`).
-/

set_option autoImplicit false
set_option relaxedAutoImplicit false

namespace BrowserFlow

namespace Magnitude

/-- Integers up to 2 to the power of 53 are magnitudes. -/
theorem exists_units {count : Nat} (h : count ≤ 2 ^ 53) :
    ∃ size : Magnitude, size.units = count * one := by
  obtain ⟨places, -, hone, hlimit⟩ := exists_places
  refine ⟨⟨count * one, ?_, ?_⟩, rfl⟩
  · have hgrid := grain_dvd_mul_two_pow count places (by simpa using h)
    rwa [Nat.pow_eq, ← hone] at hgrid
  · calc count * one ≤ 2 ^ 53 * one := Nat.mul_le_mul_right _ h
      _ = 2 ^ (53 + places) := by rw [hone, Nat.pow_add]
      _ < limit := by
        rw [hlimit]
        exact Nat.pow_lt_pow_right (by omega) (by omega)

end Magnitude

namespace Number

variable {x y : Number} {m n : Int}

/-- A finite number is an integer when its units are that many times those of one. -/
theorem toInt?_finite_iff {negative : Bool} {size : Magnitude} :
    toInt? (.finite negative size) = some n ↔ signed negative size = n * Magnitude.one := by
  have hone := Magnitude.one_pos
  constructor
  · intro h
    by_cases hmod : size.units % Magnitude.one = 0
    · simp only [toInt?, hmod, if_true, Option.some.injEq] at h
      have hunits : (size.units : Int) = (size.units / Magnitude.one : Nat) * Magnitude.one := by
        exact_mod_cast (Nat.div_mul_cancel (Nat.dvd_of_mod_eq_zero hmod)).symm
      rw [← h, signed]
      cases negative with
      | true =>
        rw [if_pos rfl, if_pos rfl, Int.neg_mul]
        exact congrArg Neg.neg hunits
      | false =>
        rw [if_neg Bool.false_ne_true, if_neg Bool.false_ne_true]
        exact hunits
    · rw [toInt?, if_neg hmod] at h
      cases h
  · intro h
    have hunits : size.units = n.natAbs * Magnitude.one := by
      rw [← natAbs_signed negative size, h, Int.natAbs_mul, Int.natAbs_natCast]
    have hsign : (if negative then -(n.natAbs : Int) else n.natAbs) = n := by
      have hpos : (0 : Int) < Magnitude.one := by exact_mod_cast hone
      rw [signed, hunits] at h
      refine Int.eq_of_mul_eq_mul_right (Int.ne_of_gt hpos) (Eq.trans ?_ h)
      cases negative with
      | true => rw [if_pos rfl, if_pos rfl, Int.natCast_mul, Int.neg_mul]
      | false => rw [if_neg Bool.false_ne_true, if_neg Bool.false_ne_true, Int.natCast_mul]
    simp only [toInt?, hunits, Nat.mul_mod_left, if_true, Nat.mul_div_cancel _ hone, hsign]

/-- An integer is a finite number of a multiple of units. -/
theorem toInt?_eq_some_iff : x.toInt? = some n ↔
    ∃ negative size, x = .finite negative size ∧ signed negative size = n * Magnitude.one := by
  cases x with
  | finite negative size =>
    rw [toInt?_finite_iff]
    constructor
    · exact fun h ↦ ⟨negative, size, rfl, h⟩
    · rintro ⟨_, _, heq, h⟩
      obtain ⟨rfl, rfl⟩ := Number.finite.inj heq
      exact h
  | _ => simp only [toInt?, reduceCtorEq, false_and, exists_false]

/-- The number nearest to an integer of units that 53 places can hold is that integer. -/
theorem toInt?_ofQuotient {negative : Bool} (h : n.natAbs ≤ 2 ^ 53)
    (hsign : n ≠ 0 → negative = decide (n < 0)) :
    (ofQuotient negative (n.natAbs * Magnitude.one) 1).toInt? = some n := by
  obtain ⟨size, hsize⟩ := Magnitude.exists_units h
  have hexact := ofQuotient_mul negative size 1 (by omega)
  rw [Nat.mul_one, hsize] at hexact
  rw [hexact, toInt?_finite_iff, signed, hsize]
  by_cases hzero : n = 0
  · simp only [hzero, Int.natAbs_zero, Nat.zero_mul, Int.cast_ofNat_Int, Int.neg_zero, ite_self,
      Int.zero_mul]
  · rw [hsign hzero]
    by_cases hneg : n < 0
    · have habs : ((n.natAbs : Nat) : Int) = -n := by omega
      simp only [hneg, decide_true, if_true, Int.natCast_mul, habs, Int.neg_mul, Int.neg_neg]
    · have habs : ((n.natAbs : Nat) : Int) = n := by omega
      simp only [hneg, decide_false, Bool.false_eq_true, if_false, Int.natCast_mul, habs]

theorem toInt?_ofInt (h : n.natAbs ≤ 2 ^ 53) : (ofInt n).toInt? = some n :=
  toInt?_ofQuotient h fun _ ↦ rfl

theorem toInt?_ofNat {count : Nat} (h : count ≤ 2 ^ 53) :
    (ofNat count).toInt? = some (count : Int) :=
  toInt?_ofInt (by simpa using h)

theorem toInt?_zero : (0 : Number).toInt? = some 0 := @toInt?_ofNat 0 (by decide)

theorem toInt?_one : (1 : Number).toInt? = some 1 := @toInt?_ofNat 1 (by decide)

/-- The sum of two integers is exact when it is not too large. -/
theorem toInt?_add (hx : x.toInt? = some m) (hy : y.toInt? = some n)
    (h : (m + n).natAbs ≤ 2 ^ 53) : (x + y).toInt? = some (m + n) := by
  obtain ⟨s, a, rfl, ha⟩ := toInt?_eq_some_iff.mp hx
  obtain ⟨t, b, rfl, hb⟩ := toInt?_eq_some_iff.mp hy
  have hpos : (0 : Int) < Magnitude.one := by exact_mod_cast Magnitude.one_pos
  rw [add_finite, ha, hb, ← Int.add_mul, ofUnits, Int.natAbs_mul, Int.natAbs_natCast]
  refine toInt?_ofQuotient h fun hne ↦ ?_
  have hunits : (m + n) * (Magnitude.one : Int) ≠ 0 := Int.mul_ne_zero hne (Int.ne_of_gt hpos)
  have hneg : (m + n) * (Magnitude.one : Int) < 0 * Magnitude.one ↔ m + n < 0 :=
    Int.mul_lt_mul_right hpos
  rw [Int.zero_mul] at hneg
  rw [if_neg hunits, decide_eq_decide]
  exact hneg

/-- Integers compare as their units do. -/
theorem le_iff_of_toInt? (hx : x.toInt? = some m) (hy : y.toInt? = some n) :
    le x y = true ↔ m ≤ n := by
  obtain ⟨s, a, rfl, ha⟩ := toInt?_eq_some_iff.mp hx
  obtain ⟨t, b, rfl, hb⟩ := toInt?_eq_some_iff.mp hy
  have hpos : (0 : Int) < Magnitude.one := by exact_mod_cast Magnitude.one_pos
  change (compare? (.finite s a) (.finite t b) == some .lt ||
    compare? (.finite s a) (.finite t b) == some .eq) = true ↔ m ≤ n
  have hcompare : compare? (.finite s a) (.finite t b) =
      some (compare (m * (Magnitude.one : Int)) (n * Magnitude.one)) := by
    rw [← ha, ← hb]
    rfl
  rw [hcompare, ← Int.mul_le_mul_right hpos, Int.le_iff_lt_or_eq]
  simp only [Bool.or_eq_true, beq_iff_eq, Option.some.injEq, compare_lt_iff_lt, compare_eq_iff_eq]

theorem lt_zero_iff_of_toInt? (hx : x.toInt? = some n) : lt 0 x = true ↔ 0 < n := by
  obtain ⟨s, a, rfl, ha⟩ := toInt?_eq_some_iff.mp hx
  have hpos : (0 : Int) < Magnitude.one := by exact_mod_cast Magnitude.one_pos
  have hmul : 0 * (Magnitude.one : Int) < n * Magnitude.one ↔ 0 < n := Int.mul_lt_mul_right hpos
  rw [Int.zero_mul] at hmul
  rw [lt_zero_iff, ha]
  exact hmul

theorem isZero_iff_of_toInt? (hx : x.toInt? = some n) : x.isZero = true ↔ n = 0 := by
  obtain ⟨s, a, rfl, ha⟩ := toInt?_eq_some_iff.mp hx
  have hone := Magnitude.one_pos
  have hunits : a.units = n.natAbs * Magnitude.one := by
    rw [← natAbs_signed s a, ha, Int.natAbs_mul, Int.natAbs_natCast]
  simp only [isZero, beq_iff_eq, hunits, Nat.mul_eq_zero, Int.natAbs_eq_zero]
  omega

/-- A positive integer of any size is the number of its count. -/
theorem ofNat_of_toInt? {count : Nat} (hx : x.toInt? = some (count : Int)) (hpos : 0 < count) :
    ofNat count = x := by
  obtain ⟨s, a, rfl, ha⟩ := toInt?_eq_some_iff.mp hx
  have hunits : a.units = count * Magnitude.one := by
    rw [← natAbs_signed s a, ha, Int.natAbs_mul, Int.natAbs_natCast, Int.natAbs_natCast]
  have hsign : s = false := by
    cases s with
    | false => rfl
    | true =>
      have hproduct : 0 < count * Magnitude.one := Nat.mul_pos hpos Magnitude.one_pos
      have hcast : signed true a = ((count * Magnitude.one : Nat) : Int) := by
        rw [ha, Int.natCast_mul]
      simp only [signed, if_true] at hcast
      omega
  subst hsign
  rw [ofNat, ofInt, Int.natAbs_natCast, decide_eq_false (by omega), ← hunits]
  simpa using ofQuotient_mul false a 1 (by omega)

end Number

end BrowserFlow
