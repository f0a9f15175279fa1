import BrowserFlow.Number.Binary
import Mathlib.Data.Nat.Log
import Mathlib.Tactic.Ring

/-!
Numbers that are finite. Rounding does not pass a magnitude that the format can
hold (`Magnitude.nearest_le`). So integers up to 2 to the power of 53 are finite
(`Number.ofInt_isFinite`), and with them all counts
(`Number.ofCount_isFinite`); and a sum that has passed neither of two finite
numbers, one on each side, is finite. With that, a number that is reached from a
finite one by a step is finite as long as it is not past a finite end
(`Number.add_isFinite_of_le`, `Number.add_isFinite_of_ge`).
-/

set_option autoImplicit false
set_option relaxedAutoImplicit false

namespace BrowserFlow

namespace Magnitude

/-- A quotient that is rounded to an integer does not pass an integer above it. -/
theorem halfEven_le_of_le {num den bound : Nat} (hden : 0 < den) (h : num ≤ den * bound) :
    halfEven num den ≤ bound := by
  by_cases hrest : num % den = 0
  · have hexact : halfEven num den = num / den := by
      simp [halfEven, hrest, hden]
    rw [hexact]
    exact Nat.div_le_of_le_mul h
  · have hless : num / den < bound := by
      have hsplit := Nat.div_add_mod num den
      have hmul : den * (num / den) < den * bound := by omega
      exact Nat.lt_of_mul_lt_mul_left hmul
    exact Nat.le_trans (halfEven_le num den) hless

theorem log2_le_log2 {units size : Nat} (h : units ≤ size) : units.log2 ≤ size.log2 := by
  rw [Nat.log2_eq_log_two, Nat.log2_eq_log_two]
  exact Nat.log_mono_right h

/-- The weight of the last place of a magnitude goes into those of all greater ones. -/
theorem grain_dvd_grain {units size : Nat} (h : units ≤ size) : grain units ∣ grain size :=
  Nat.pow_dvd_pow 2 (Nat.sub_le_sub_right (log2_le_log2 h) 52)

/-- A magnitude that the format can hold is a multiple of the weight of every lesser one. -/
theorem grain_dvd_of_le {units size : Nat} (hle : units ≤ size) (hsize : grain size ∣ size) :
    grain units ∣ size :=
  Nat.dvd_trans (grain_dvd_grain hle) hsize

/-- Rounding does not pass a magnitude that the format can hold. -/
theorem nearest_le {num den size : Nat} (hden : 0 < den) (hle : num ≤ den * size)
    (hsize : grain size ∣ size) : nearest num den ≤ size := by
  obtain ⟨count, hcount⟩ := grain_dvd_of_le (Nat.div_le_of_le_mul hle) hsize
  have hgrain : 0 < grain (num / den) := Nat.two_pow_pos _
  have hhalf : halfEven num (den * grain (num / den)) ≤ count := by
    refine halfEven_le_of_le (Nat.mul_pos hden hgrain) ?_
    rwa [Nat.mul_assoc, ← hcount]
  calc nearest num den ≤ count * grain (num / den) := Nat.mul_le_mul_right _ hhalf
    _ = size := by rw [Nat.mul_comm, ← hcount]

/-- A power of two is a magnitude that the format can hold. -/
theorem grain_two_pow_dvd (places : Nat) : grain (2 ^ places) ∣ 2 ^ places := by
  rw [grain, Nat.log2_two_pow, Nat.pow_eq]
  exact Nat.pow_dvd_pow 2 (Nat.sub_le _ _)

/-- The number one and the least count of units that is too large are powers of two. -/
theorem exists_places :
    ∃ places, 0 < places ∧ one = 2 ^ places ∧ limit = 2 ^ (1024 + places) :=
  ⟨1074, by omega, Nat.pow_eq, Nat.pow_eq⟩

theorem one_pos : 0 < one := by
  obtain ⟨places, -, hone, -⟩ := exists_places
  rw [hone]
  exact Nat.two_pow_pos places

end Magnitude

namespace Number

/-- The nearest number to a quotient that is not above a magnitude is finite. -/
theorem ofQuotient_isFinite_of_le (negative : Bool) {num den : Nat} {size : Magnitude}
    (hden : 0 < den) (h : num ≤ den * size.units) :
    (ofQuotient negative num den).isFinite = true := by
  have hnearest := Nat.lt_of_le_of_lt (Magnitude.nearest_le hden h size.onGrid) size.bounded
  rw [ofQuotient, dif_pos hnearest]
  rfl

theorem ofQuotient_isFinite (negative : Bool) {units : Nat} {size : Magnitude}
    (h : units ≤ size.units) : (ofQuotient negative units 1).isFinite = true :=
  ofQuotient_isFinite_of_le negative Nat.one_pos (by rwa [Nat.one_mul])

/-- The greatest integer up to which all are numbers is a magnitude. -/
theorem exists_mostExact : ∃ size : Magnitude, size.units = 2 ^ 53 * Magnitude.one := by
  obtain ⟨places, -, hone, hlimit⟩ := Magnitude.exists_places
  have hunits : 2 ^ 53 * Magnitude.one = 2 ^ (53 + places) := by rw [hone, Nat.pow_add]
  refine ⟨⟨2 ^ 53 * Magnitude.one, ?_, ?_⟩, rfl⟩
  · rw [hunits]
    exact Magnitude.grain_two_pow_dvd _
  · rw [hunits, hlimit]
    exact Nat.pow_lt_pow_right (by omega) (by omega)

theorem ofInt_isFinite {n : Int} (h : n.natAbs ≤ 2 ^ 53) : (ofInt n).isFinite = true := by
  obtain ⟨size, hsize⟩ := exists_mostExact
  have hunits : n.natAbs * Magnitude.one ≤ size.units := by
    rw [hsize]
    exact Nat.mul_le_mul_right _ h
  exact ofQuotient_isFinite _ hunits

theorem ofNat_isFinite {n : Nat} (h : n ≤ 2 ^ 53) : (ofNat n).isFinite = true :=
  ofInt_isFinite (by simpa using h)

theorem ofCount_isFinite (n : Nat) : (ofCount n).isFinite = true := by
  have hmost : mostParts ≤ 2 ^ 53 := Nat.sub_le _ _
  exact ofNat_isFinite (Nat.le_trans (Nat.min_le_right _ _) hmost)

theorem neg_isFinite {x : Number} (h : x.isFinite = true) : x.neg.isFinite = true := by
  cases x with
  | finite negative size => rfl
  | _ => cases h

theorem isFinite_of_isInteger {x : Number} (h : x.isInteger = true) : x.isFinite = true := by
  cases x with
  | finite negative size => rfl
  | _ => cases h

/-! ### Sums -/

section Sums

variable {x step stop : Number} {units : Int} {zeroNegative : Bool}

/-- The units of a finite number with a sign. -/
def signed (negative : Bool) (size : Magnitude) : Int :=
  if negative then -(size.units : Int) else size.units

theorem natAbs_signed (negative : Bool) (size : Magnitude) :
    (signed negative size).natAbs = size.units := by
  cases negative <;> simp [signed]

theorem add_finite (s t : Bool) (a b : Magnitude) :
    (.finite s a + .finite t b : Number) = ofUnits (signed s a + signed t b) (s && t) := by
  change add (.finite s a) (.finite t b) = _
  simp only [add, signed]

theorem zero_eq : ∃ size : Magnitude, (0 : Number) = .finite false size ∧ size.units = 0 := by
  have hnearest : Magnitude.nearest 0 1 = 0 := Magnitude.nearest_one (Nat.dvd_zero _)
  have hbounded : Magnitude.nearest 0 1 < Magnitude.limit := by
    obtain ⟨places, -, -, hlimit⟩ := Magnitude.exists_places
    rw [hnearest, hlimit]
    exact Nat.two_pow_pos _
  refine ⟨⟨Magnitude.nearest 0 1, Magnitude.grain_dvd_nearest 0 1, hbounded⟩, ?_, hnearest⟩
  change ofNat 0 = _
  rw [ofNat, ofInt, Int.natAbs_natCast, Nat.zero_mul, ofQuotient, dif_pos hbounded]
  rfl

/-- A step is upwards when it is infinitely far up or its units are positive. -/
theorem lt_zero_iff (negative : Bool) (size : Magnitude) :
    lt 0 (.finite negative size) = true ↔ 0 < signed negative size := by
  obtain ⟨none, hzero, hunits⟩ := zero_eq
  rw [hzero]
  simp only [lt, compare?, hunits, Bool.false_eq_true, if_false, Int.natCast_zero, signed,
    beq_iff_eq, Option.some.injEq]
  exact compare_lt_iff_lt

/-- A number is not less than one that is at most as large. -/
theorem lt_eq_false_of_le {x y : Number} (h : le x y = true) : lt y x = false := by
  cases x with
  | nan => cases h
  | infinite s =>
    cases y with
    | nan => cases h
    | infinite t => cases s <;> cases t <;> first | rfl | cases h
    | finite t b => cases s <;> first | rfl | cases h
  | finite s a =>
    cases y with
    | nan => cases h
    | infinite t => cases t <;> first | rfl | cases h
    | finite t b =>
      simp only [le, lt, compare?, Bool.or_eq_true, beq_iff_eq, Option.some.injEq,
        compare_lt_iff_lt, compare_eq_iff_eq] at h ⊢
      rw [beq_eq_false_iff_ne, ne_eq, Option.some.injEq, compare_lt_iff_lt]
      omega

theorem lt_zero_infinite (negative : Bool) : lt 0 (.infinite negative) = !negative := by
  obtain ⟨none, hzero, -⟩ := zero_eq
  rw [hzero]
  cases negative <;> rfl

/-- What is nearest to units is finite, or infinite to the side on which the units are. -/
theorem ofUnits_cases (units : Int) (zeroNegative : Bool) :
    (ofUnits units zeroNegative).isFinite = true ∨
      units ≠ 0 ∧ ofUnits units zeroNegative = .infinite (decide (units < 0)) := by
  by_cases hzero : units = 0
  · subst hzero
    obtain ⟨size, -⟩ := exists_mostExact
    exact .inl (ofQuotient_isFinite _ (Nat.zero_le size.units))
  · rw [ofUnits, if_neg hzero, ofQuotient]
    split
    · exact .inl rfl
    · exact .inr ⟨hzero, rfl⟩

/-- Units that are not past a finite number above, nor past a magnitude below, are finite. -/
theorem ofUnits_isFinite_of_le (size : Magnitude) (hstop : stop.isFinite = true)
    (hbelow : units < 0 → units.natAbs ≤ size.units)
    (hle : le (ofUnits units zeroNegative) stop = true) :
    (ofUnits units zeroNegative).isFinite = true := by
  rcases ofUnits_cases units zeroNegative with hfinite | ⟨hne, hinfinite⟩
  · exact hfinite
  · by_cases hneg : units < 0
    · rw [ofUnits]
      exact ofQuotient_isFinite _ (hbelow hneg)
    · cases stop with
      | finite t b =>
        rw [hinfinite, decide_eq_false hneg] at hle
        simp [le, compare?] at hle
      | _ => cases hstop

/-- Units that are not past a finite number below, nor past a magnitude above, are finite. -/
theorem ofUnits_isFinite_of_ge (size : Magnitude) (hstop : stop.isFinite = true)
    (habove : 0 < units → units.natAbs ≤ size.units)
    (hge : le stop (ofUnits units zeroNegative) = true) :
    (ofUnits units zeroNegative).isFinite = true := by
  rcases ofUnits_cases units zeroNegative with hfinite | ⟨hne, hinfinite⟩
  · exact hfinite
  · by_cases hneg : units < 0
    · cases stop with
      | finite t b =>
        rw [hinfinite, decide_eq_true hneg] at hge
        simp [le, compare?] at hge
      | _ => cases hstop
    · rw [ofUnits]
      exact ofQuotient_isFinite _ (habove (by omega))

theorem exists_of_isFinite (h : x.isFinite = true) :
    ∃ negative size, x = .finite negative size := by
  cases x with
  | finite negative size => exact ⟨negative, size, rfl⟩
  | _ => cases h

/-- A step upwards from a finite number leads to a finite one when it is not past a finite end. -/
theorem add_isFinite_of_le (hx : x.isFinite = true) (hstop : stop.isFinite = true)
    (hstep : lt 0 step = true) (hle : le (x + step) stop = true) : (x + step).isFinite = true := by
  obtain ⟨s, a, rfl⟩ := exists_of_isFinite hx
  cases step with
  | nan =>
    change le .nan stop = true at hle
    simp [le, compare?] at hle
  | infinite t =>
    obtain ⟨r, c, rfl⟩ := exists_of_isFinite hstop
    obtain rfl : t = false := by simpa [lt_zero_infinite] using hstep
    change le (.infinite false) _ = true at hle
    simp [le, compare?] at hle
  | finite t b =>
    have hpositive := (lt_zero_iff t b).mp hstep
    rw [add_finite] at hle ⊢
    refine ofUnits_isFinite_of_le a hstop (fun hneg ↦ ?_) hle
    rw [← natAbs_signed s a]
    omega

/-- A step that is not upwards from a finite number leads to a finite one when it is not past a
finite end. -/
theorem add_isFinite_of_ge (hx : x.isFinite = true) (hstop : stop.isFinite = true)
    (hstep : lt 0 step = false) (hge : le stop (x + step) = true) :
    (x + step).isFinite = true := by
  obtain ⟨s, a, rfl⟩ := exists_of_isFinite hx
  cases step with
  | nan =>
    change le stop .nan = true at hge
    cases stop <;> simp [le, compare?] at hge
  | infinite t =>
    obtain ⟨r, c, rfl⟩ := exists_of_isFinite hstop
    obtain rfl : t = true := by simpa [lt_zero_infinite] using hstep
    change le _ (.infinite true) = true at hge
    simp [le, compare?] at hge
  | finite t b =>
    have hnot : ¬0 < signed t b := fun hpositive ↦ by
      rw [(lt_zero_iff t b).mpr hpositive] at hstep
      cases hstep
    rw [add_finite] at hge ⊢
    refine ofUnits_isFinite_of_ge a hstop (fun hpos ↦ ?_) hge
    rw [← natAbs_signed s a]
    omega

end Sums

/-! ### The plain form of a number -/

/-- The number, with zero of either sign as zero without one. -/
def plain (x : Number) : Number := if x.isZero then .zero false else x

theorem plain_isFinite (x : Number) : x.plain.isFinite = x.isFinite := by
  unfold plain
  split
  · next hzero =>
    cases x with
    | finite negative size => exact ofQuotient_isFinite false (Nat.zero_le size.units)
    | infinite negative => cases hzero
    | nan => cases hzero
  · rfl

end Number

end BrowserFlow
