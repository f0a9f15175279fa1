import BrowserFlow.Proofs.Number.Range

/-!
Differences of numbers tell how these compare. Rounding loses no units altogether
(`Magnitude.nearest_pos`), so a difference is zero only where there is none, and it has the sign
that it should have even when it is too large for a finite number (`Number.compare?_ofUnits_zero`).
The one pair of numbers whose difference says less than comparing them are two equal infinite ones:
their difference is meaningless (`Number.compare?_sub_zero`).
-/

set_option autoImplicit false
set_option relaxedAutoImplicit false

namespace BrowserFlow

/-- What is positive is not rounded to zero. -/
theorem Magnitude.nearest_pos {units : Nat} (h : 0 < units) : 0 < nearest units 1 := by
  have hgrain : 0 < grain units := Nat.two_pow_pos _
  have hle : grain units ≤ units := by
    calc grain units ≤ 2 ^ units.log2 := Nat.pow_le_pow_right (by omega) (Nat.sub_le _ _)
      _ ≤ units := Nat.log2_self_le (Nat.ne_of_gt h)
  have hfloor : 0 < units / grain units := Nat.div_pos hle hgrain
  have hcount : 0 < halfEven units (grain units) := by
    unfold halfEven
    dsimp only
    repeat' split
    all_goals omega
  rw [nearest, Nat.div_one, Nat.one_mul]
  exact Nat.mul_pos hcount hgrain

namespace Number

variable {x y : Number} {s t : Bool} {a b : Magnitude}

theorem compare?_finite : compare? (.finite s a) (.finite t b) =
    some (compare (signed s a) (signed t b)) := rfl

theorem compare?_finite_zero : compare? (.finite s a) 0 = some (compare (signed s a) 0) := by
  obtain ⟨size, hzero, hunits⟩ := zero_eq
  rw [hzero, compare?_finite, signed, signed, hunits]
  rfl

theorem compare?_infinite_zero : compare? (.infinite s) 0 = some (if s then .lt else .gt) := by
  obtain ⟨size, hzero, -⟩ := zero_eq
  rw [hzero]
  rfl

/-- Nothing compares with a number that is meaningless. -/
theorem compare?_nan : compare? .nan x = none := rfl

/-- The two ways to compare two numbers are each other's opposite. -/
theorem compare?_swap (x y : Number) : compare? y x = (compare? x y).map Ordering.swap := by
  cases x with
  | nan => cases y <;> rfl
  | infinite s =>
    cases y with
    | nan => rfl
    | infinite t => cases s <;> cases t <;> rfl
    | finite t b => cases s <;> rfl
  | finite s a =>
    cases y with
    | nan => rfl
    | infinite t => cases t <;> rfl
    | finite t b =>
      rw [compare?_finite, compare?_finite, Option.map_some]
      exact congrArg some Std.OrientedOrd.eq_swap

/-- What is nearest to units is on the side of zero on which they are. -/
theorem compare?_ofUnits_zero (units : Int) (zeroNegative : Bool) :
    compare? (ofUnits units zeroNegative) 0 = some (compare units 0) := by
  by_cases hzero : units = 0
  · subst hzero
    obtain ⟨size, -⟩ := zero_eq
    obtain ⟨size, hunits, heq⟩ | heq := exists_ofQuotient_or zeroNegative 0 1
    · have hnone : size.units = 0 := hunits.trans (Magnitude.nearest_one (Nat.dvd_zero _))
      have hsigned : signed zeroNegative size = 0 := by simp [signed, hnone]
      rw [ofUnits, if_pos rfl, Int.natAbs_zero, heq, compare?_finite_zero, hsigned]
    · have hfinite := ofQuotient_isFinite zeroNegative (Nat.zero_le size.units)
      rw [heq] at hfinite
      cases hfinite
  · have hpos : 0 < units.natAbs := Int.natAbs_pos.mpr hzero
    rw [ofUnits, if_neg hzero]
    obtain ⟨size, hunits, heq⟩ | heq := exists_ofQuotient_or (decide (units < 0)) units.natAbs 1
    · have hsize : 0 < size.units := hunits ▸ Magnitude.nearest_pos hpos
      rw [heq, compare?_finite_zero]
      by_cases hneg : units < 0
      · rw [decide_eq_true hneg, compare_lt_iff_lt.mpr hneg, signed, if_pos rfl,
          compare_lt_iff_lt.mpr (by omega)]
      · have hup : 0 < units := by omega
        rw [decide_eq_false hneg, compare_gt_iff_gt.mpr hup, signed, if_neg Bool.false_ne_true,
          compare_gt_iff_gt.mpr (by omega)]
    · rw [heq, compare?_infinite_zero]
      by_cases hneg : units < 0
      · rw [decide_eq_true hneg, compare_lt_iff_lt.mpr hneg, if_pos rfl]
      · have hup : 0 < units := by omega
        rw [decide_eq_false hneg, compare_gt_iff_gt.mpr hup, if_neg Bool.false_ne_true]

theorem compare_sub_zero (m n : Int) : compare (m - n) 0 = compare m n := by
  rcases Int.lt_trichotomy m n with h | h | h
  · rw [compare_lt_iff_lt.mpr h, compare_lt_iff_lt.mpr (by omega)]
  · rw [compare_eq_iff_eq.mpr h, compare_eq_iff_eq.mpr (by omega)]
  · rw [compare_gt_iff_gt.mpr h, compare_gt_iff_gt.mpr (by omega)]

/-- The difference of finite numbers is on the side of zero that tells how they compare. -/
theorem compare?_sub_zero_finite :
    compare? (.finite s a - .finite t b) 0 = compare? (.finite s a) (.finite t b) := by
  have hneg : signed (!t) b = -signed t b := by cases t <;> simp [signed]
  have hsub : (.finite s a - .finite t b : Number) =
      ofUnits (signed s a - signed t b) (s && !t) := by
    rw [Int.sub_eq_add_neg, ← hneg]
    exact add_finite s (!t) a b
  rw [hsub, compare?_ofUnits_zero, compare?_finite, compare_sub_zero]

/-- Whether two numbers are the same infinite one. -/
def AreSameInfinite (x y : Number) : Prop :=
  ∃ negative, x = .infinite negative ∧ y = .infinite negative

theorem AreSameInfinite.symm (h : AreSameInfinite x y) : AreSameInfinite y x := by
  obtain ⟨negative, hx, hy⟩ := h
  exact ⟨negative, hy, hx⟩

/-- The same infinite number has no difference that means anything. -/
theorem compare?_sub_zero_infinite (h : AreSameInfinite x y) :
    compare? (x - y) 0 = none ∧ compare? x y = some .eq := by
  obtain ⟨negative, rfl, rfl⟩ := h
  cases negative <;> exact ⟨rfl, rfl⟩

/-- Two numbers compare as their difference and zero do, unless they are the same infinite one. -/
theorem compare?_sub_zero (h : ¬AreSameInfinite x y) : compare? (x - y) 0 = compare? x y := by
  cases x with
  | nan => cases y <;> exact compare?_nan
  | infinite s =>
    cases y with
    | nan => rfl
    | infinite t =>
      have hne : s ≠ t := fun heq ↦ h ⟨s, rfl, heq ▸ rfl⟩
      cases s <;> cases t <;> first | exact absurd rfl hne | exact compare?_infinite_zero
    | finite t b => cases s <;> exact compare?_infinite_zero
  | finite s a =>
    cases y with
    | nan => rfl
    | infinite t => cases t <;> exact compare?_infinite_zero
    | finite t b => exact compare?_sub_zero_finite

end Number

end BrowserFlow
