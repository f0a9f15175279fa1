import BrowserFlow.Proofs.Number.Sums
import BrowserFlow.Proofs.Number.Written

/-!
Products within bounds. A number from zero to a count is finite, and rounding a
quotient does not lead past a count. Main statement: a number that does not pass
one count, taken another count of times, does not pass the product of the counts
(`Number.mul_le_ofNat`).
-/

set_option autoImplicit false
set_option relaxedAutoImplicit false

namespace BrowserFlow.Number

variable {x : Number} {bound factor most : Nat}

theorem rank_finite_false (size : Magnitude) : (finite false size).rank = size.units := by
  rw [rank, signed, if_neg Bool.false_ne_true]

/-- A number from zero to a count is finite, and its units are no more than those of the count. -/
theorem exists_of_le_ofNat (hbound : bound ≤ 2 ^ 53) (hlow : le 0 x = true)
    (hhigh : le x (ofNat bound) = true) :
    ∃ s a, x = .finite s a ∧ a.units ≤ bound * Magnitude.one := by
  obtain ⟨none, hzero, hnone⟩ := zero_eq
  obtain ⟨top, htop⟩ := Magnitude.exists_units hbound
  have hx : x ≠ .nan := by
    rintro rfl
    exact Bool.false_ne_true hhigh
  rw [hzero, le_iff_rank (by simp) hx, rank_finite_false, hnone] at hlow
  rw [ofNat_eq_finite htop, le_iff_rank hx (by simp), rank_finite_false] at hhigh
  have hlimit : (top.units : Int) < Magnitude.limit := by exact_mod_cast top.bounded
  cases x with
  | nan => exact absurd rfl hx
  | infinite s =>
    -- An infinite number is on the wrong side of one of the bounds.
    simp only [rank] at hlow hhigh
    generalize (Magnitude.limit : Int) = limit at hlimit hlow hhigh
    cases s <;> simp only [Bool.false_eq_true, if_false, if_true] at hlow hhigh <;> omega
  | finite s a =>
    have hsigned : 0 ≤ signed s a ∧ signed s a ≤ top.units := ⟨hlow, hhigh⟩
    refine ⟨s, a, rfl, ?_⟩
    rw [← htop, ← natAbs_signed s a]
    omega

theorem mul_finite (s t : Bool) (a b : Magnitude) :
    (.finite s a * .finite t b : Number) =
      ofQuotient (s != t) (a.units * b.units) Magnitude.one := by
  change mul (.finite s a) (.finite t b) = _
  simp only [mul]

/-- Rounding a quotient of units does not lead past a count that the quotient does not pass. -/
theorem ofQuotient_le_ofNat {negative : Bool} {num den : Nat} (hmost : most ≤ 2 ^ 53)
    (hden : 0 < den) (h : num ≤ den * (most * Magnitude.one)) :
    le (ofQuotient negative num den) (ofNat most) = true := by
  obtain ⟨top, htop⟩ := Magnitude.exists_units hmost
  rw [← htop] at h
  obtain ⟨size, hsize, hfound⟩ | hinfinite := exists_ofQuotient_or negative num den
  · have hnearest : size.units ≤ top.units := hsize ▸ Magnitude.nearest_le hden h top.onGrid
    have hsigned : signed negative size ≤ size.units := by
      cases negative <;> simp only [signed, Bool.false_eq_true, if_false, if_true] <;> omega
    rw [hfound, ofNat_eq_finite htop, le_iff_rank (by simp) (by simp), rank_finite_false]
    exact hsigned.trans (by exact_mod_cast hnearest)
  · have hfinite := ofQuotient_isFinite_of_le negative hden h
    rw [hinfinite] at hfinite
    cases hfinite

/-- A number from zero to a bound, taken a count of times, does not pass what the bound taken as
often does not pass. -/
theorem mul_le_ofNat (hbound : bound ≤ 2 ^ 53) (hfactor : factor ≤ 2 ^ 53) (hmost : most ≤ 2 ^ 53)
    (h : bound * factor ≤ most) (hlow : le 0 x = true) (hhigh : le x (ofNat bound) = true) :
    le (x * ofNat factor) (ofNat most) = true := by
  obtain ⟨s, a, rfl, hunits⟩ := exists_of_le_ofNat hbound hlow hhigh
  obtain ⟨count, hcount⟩ := Magnitude.exists_units hfactor
  rw [ofNat_eq_finite hcount, mul_finite]
  refine ofQuotient_le_ofNat hmost Magnitude.one_pos ?_
  rw [hcount]
  calc a.units * (factor * Magnitude.one)
      ≤ bound * Magnitude.one * (factor * Magnitude.one) := Nat.mul_le_mul_right _ hunits
    _ = Magnitude.one * (bound * factor * Magnitude.one) := by ring
    _ ≤ Magnitude.one * (most * Magnitude.one) :=
        Nat.mul_le_mul_left _ (Nat.mul_le_mul_right _ h)

end BrowserFlow.Number
