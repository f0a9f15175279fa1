import BrowserFlow.Number.Numeral
import BrowserFlow.Proofs.Number.Midpoints
import Mathlib.Algebra.Order.Field.Power
import Mathlib.Data.Rat.Cast.Order
import Mathlib.Tactic.FieldSimp
import Mathlib.Tactic.Linarith
import Mathlib.Tactic.LinearCombination
import Mathlib.Tactic.NormNum
import Mathlib.Tactic.Positivity

/-!
The shortest decimal of a magnitude reads back as this magnitude
(`Number.ofDecimal_shortest`). What a decimal is worth is a rational number of
units (`Magnitude.Decimal.worth`), and it reads back when it is worth no more and
no less than the midpoints around the magnitude (`Magnitude.readsAs_iff`).

One of the grids that are searched holds such a decimal. The coarsest grid that
has seventeen places is finer than the gap below the magnitude
(`Magnitude.spacing_lt`), so the nearer of the two decimals around the magnitude
lies within the midpoints (`Magnitude.exists_nearestOn?`). Taking zeros from the
end of the digits changes nothing that a decimal is worth.
-/

set_option autoImplicit false
set_option relaxedAutoImplicit false

namespace BrowserFlow

namespace Magnitude

variable {units : Nat} {d : Decimal} {exponent : Int}

/-! ### What a decimal is worth -/

namespace Decimal

/-- What a decimal is worth, in units. -/
def worth (d : Decimal) : ℚ := d.digits * 10 ^ d.exponent * one

theorem digits_ne_zero (h : 0 < d.worth) : d.digits ≠ 0 := by
  intro hzero
  rw [worth, hzero, Nat.cast_zero, zero_mul, zero_mul] at h
  exact lt_irrefl 0 h

theorem worth_of_nonneg (h : 0 ≤ d.exponent) :
    d.worth = ((d.digits * Nat.pow 10 d.exponent.toNat * one : Nat) : ℚ) := by
  have hpow : (10 : ℚ) ^ d.exponent = 10 ^ d.exponent.toNat := by
    rw [← zpow_natCast, Int.toNat_of_nonneg h]
  rw [worth, hpow, Nat.pow_eq]
  push_cast
  rfl

theorem worth_of_neg (h : ¬ 0 ≤ d.exponent) :
    ((d.digits * one : Nat) : ℚ) = d.worth * (Nat.pow 10 (-d.exponent).toNat : Nat) := by
  have hpow : (10 : ℚ) ^ d.exponent * 10 ^ (-d.exponent).toNat = 1 := by
    rw [← zpow_natCast, Int.toNat_of_nonneg (by omega), ← zpow_add₀ (by norm_num)]
    simp
  rw [worth, Nat.pow_eq]
  push_cast
  linear_combination -(d.digits * one : ℚ) * hpow

theorem quarters_eq (d : Decimal) :
    0 < d.quarters.2 ∧ (d.quarters.1 : ℚ) = 4 * d.worth * d.quarters.2 := by
  unfold quarters
  split
  · next h =>
    rw [worth_of_nonneg h]
    refine ⟨Nat.one_pos, ?_⟩
    push_cast
    ring
  · next h =>
    refine ⟨Nat.pow_pos (by norm_num), ?_⟩
    dsimp only
    rw [Nat.cast_mul, worth_of_neg h]
    push_cast
    ring

/-- Without zeros at its end, a decimal is worth the same, and its exponent is no less. -/
theorem stripped_spec (d : Decimal) :
    d.stripped.worth = d.worth ∧ d.exponent ≤ d.stripped.exponent := by
  have hgo : ∀ (count : Nat) (d : Decimal),
      (stripped.go count d).worth = d.worth ∧ d.exponent ≤ (stripped.go count d).exponent := by
    intro count
    induction count with
    | zero => exact fun d ↦ ⟨rfl, le_rfl⟩
    | succ count ih =>
      intro d
      rw [stripped.go]
      split
      · next h =>
        obtain ⟨hworth, hexponent⟩ := ih ⟨d.digits / 10, d.exponent + 1⟩
        refine ⟨hworth.trans ?_, (Int.le_add_one le_rfl).trans hexponent⟩
        have hdigits : (d.digits : ℚ) = (d.digits / 10 : Nat) * 10 := by
          exact_mod_cast (Nat.div_mul_cancel (Nat.dvd_of_mod_eq_zero h.2)).symm
        rw [worth, worth, zpow_add_one₀ (by norm_num), hdigits]
        ring
      · exact ⟨rfl, le_rfl⟩
  exact hgo _ d

end Decimal

/-! ### Decimals that read back -/

/-- What a decimal is worth lies between the midpoints around a magnitude, or on one of them when
the last place of the magnitude is even. -/
def Within (units : Nat) (worth : ℚ) : Prop :=
  2 * (units : ℚ) ≤ 2 * worth + grainBelow units ∧ 2 * worth ≤ 2 * (units : ℚ) + grain units ∧
    (units / grain units % 2 = 0 ∨
      2 * (units : ℚ) < 2 * worth + grainBelow units ∧ 2 * worth < 2 * (units : ℚ) + grain units)

/-- A quotient lies between the midpoints when what it is worth does. -/
theorem between_iff {num den : Nat} {worth : ℚ} (hden : 0 < den) (hnum : (num : ℚ) = worth * den) :
    Between units num den ↔ Within units worth := by
  have hdenQ : (0 : ℚ) < den := by exact_mod_cast hden
  have hlow : 2 * (units * den) ≤ 2 * num + grainBelow units * den ↔
      2 * (units : ℚ) ≤ 2 * worth + grainBelow units := by
    rw [← mul_le_mul_iff_left₀ hdenQ, ← Nat.cast_le (α := ℚ)]
    push_cast
    rw [hnum]
    ring_nf
  have hlow' : 2 * (units * den) < 2 * num + grainBelow units * den ↔
      2 * (units : ℚ) < 2 * worth + grainBelow units := by
    rw [← mul_lt_mul_iff_left₀ hdenQ, ← Nat.cast_lt (α := ℚ)]
    push_cast
    rw [hnum]
    ring_nf
  have hhigh : 2 * num ≤ 2 * (units * den) + grain units * den ↔
      2 * worth ≤ 2 * (units : ℚ) + grain units := by
    rw [← mul_le_mul_iff_left₀ hdenQ, ← Nat.cast_le (α := ℚ)]
    push_cast
    rw [hnum]
    ring_nf
  have hhigh' : 2 * num < 2 * (units * den) + grain units * den ↔
      2 * worth < 2 * (units : ℚ) + grain units := by
    rw [← mul_lt_mul_iff_left₀ hdenQ, ← Nat.cast_lt (α := ℚ)]
    push_cast
    rw [hnum]
    ring_nf
  rw [Between, Within, hlow, hlow', hhigh, hhigh']

/-- A decimal reads back when what it is worth lies between the midpoints. -/
theorem readsAs_iff (hunits : 0 < units) (hgrid : grain units ∣ units) (d : Decimal) :
    readsAs units d = true ↔ Within units d.worth := by
  obtain ⟨hden, hnum⟩ := d.quarters_eq
  have hreach := grainBelow_le_self hunits hgrid
  have hbetween : Between units d.quarters.1 (4 * d.quarters.2) ↔ Within units d.worth := by
    refine between_iff (by omega) ?_
    rw [hnum]
    push_cast
    ring
  have hlow : (4 * units - 2 * grainBelow units) * d.quarters.2
      + 2 * (grainBelow units * d.quarters.2) = 4 * (units * d.quarters.2) := by
    rw [← Nat.mul_assoc, ← Nat.add_mul, Nat.sub_add_cancel (by omega), Nat.mul_assoc]
  have hhigh : (4 * units + 2 * grain units) * d.quarters.2
      = 4 * (units * d.quarters.2) + 2 * (grain units * d.quarters.2) := by ring
  rw [← hbetween, Between, Nat.mul_left_comm units, Nat.mul_left_comm (grainBelow units),
    Nat.mul_left_comm (grain units), readsAs]
  dsimp only
  rw [hhigh]
  split
  · next heven =>
    simp only [heven, Bool.and_eq_true, decide_eq_true_eq, true_or, and_true]
    omega
  · next heven =>
    simp only [heven, Bool.and_eq_true, decide_eq_true_eq, false_or]
    omega

theorem Within.of_lt {worth : ℚ} (hlow : 2 * (units : ℚ) < 2 * worth + grainBelow units)
    (hhigh : 2 * worth < 2 * (units : ℚ) + grain units) : Within units worth :=
  ⟨hlow.le, hhigh.le, .inr ⟨hlow, hhigh⟩⟩

/-- A quotient that is worth what reads back is rounded to the magnitude. -/
theorem nearest_of_within {num den : Nat} {worth : ℚ} (hunits : 0 < units)
    (hgrid : grain units ∣ units) (hden : 0 < den) (hnum : (num : ℚ) = worth * den)
    (h : Within units worth) : nearest num den = units :=
  nearest_of_between hden hunits hgrid ((between_iff hden hnum).mpr h)

/-! ### The grids that are searched -/

theorem one_pos_rat : (0 : ℚ) < one := by
  exact_mod_cast one_pos

theorem length_repr_pos (n : Nat) : 0 < (Nat.repr n).length := by
  rw [← String.length_toList, Nat.toList_repr]
  exact Nat.length_toDigits_pos

/-- A positive number with so many digits is no less than the power of ten with so many. -/
theorem pow_le_of_length_repr {n : Nat} (h : 0 < n) : 10 ^ ((Nat.repr n).length - 1) ≤ n := by
  by_cases hshort : (Nat.repr n).length - 1 = 0
  · rw [hshort]
    exact h
  · have hiff := Nat.length_toDigits_le_iff (b := 10) (n := n) (by omega)
      (Nat.pos_of_ne_zero hshort)
    have hlength : (Nat.repr n).length = (Nat.toDigits 10 n).length := by
      rw [← String.length_toList, Nat.toList_repr]
    by_contra hless
    have := hiff.mpr (Nat.lt_of_not_le hless)
    omega

/-- The place of the first digit: the power of ten there is no greater than the magnitude. -/
theorem pow_scale_le (hunits : 0 < units) : (10 : ℚ) ^ (scale units - 1) * one ≤ units := by
  -- One unit begins before the 330th place.
  have hone : one ≤ 10 ^ 330 := by decide +kernel
  have hpos : 0 < units * 10 ^ 330 / one := by
    refine Nat.div_pos (le_trans hone ?_) one_pos
    exact Nat.le_mul_of_pos_left _ hunits
  have hdigits := pow_le_of_length_repr hpos
  have hlength := length_repr_pos (units * 10 ^ 330 / one)
  have hscale : scale units - 1 =
      (((Nat.repr (units * 10 ^ 330 / one)).length - 1 : Nat) : Int) - 330 := by
    rw [scale, Nat.pow_eq]
    omega
  rw [hscale, zpow_sub₀ (by norm_num), zpow_natCast, div_mul_eq_mul_div,
    div_le_iff₀ (by positivity)]
  have hmul : 10 ^ ((Nat.repr (units * 10 ^ 330 / one)).length - 1) * one ≤ units * 10 ^ 330 :=
    (Nat.mul_le_mul_right one hdigits).trans (Nat.div_mul_le_self _ _)
  exact_mod_cast hmul

/-- A magnitude is at most 2 to the power of 53 times the gap below it. -/
theorem le_mul_grainBelow (units : Nat) : units ≤ 2 ^ 53 * grainBelow units := by
  have hnext : units < 2 ^ (units.log2 + 1) := Nat.lt_log2_self
  rcases grainBelow_cases units with hsame | ⟨hone, hpower, hhalf⟩
  · rw [hsame, grain, Nat.pow_eq, ← Nat.pow_add]
    exact (Nat.le_of_lt hnext).trans (Nat.pow_le_pow_right (by omega) (by omega))
  · rw [grain, Nat.pow_eq] at hone hhalf
    have hmany : 52 < units.log2 := by
      by_contra hfew
      rw [Nat.sub_eq_zero_of_le (by omega)] at hone
      simp at hone
    have hsplit : 2 ^ units.log2 = 2 ^ 52 * 2 ^ (units.log2 - 52) := by
      rw [← Nat.pow_add]
      congr 1
      omega
    omega

/-- The coarsest grid with seventeen places is finer than the gap below the magnitude. -/
theorem spacing_lt (hunits : 0 < units) :
    (10 : ℚ) ^ (scale units - 17) * one < grainBelow units := by
  have hscale := pow_scale_le hunits
  have hsplit : (10 : ℚ) ^ (scale units - 1) = 10 ^ (scale units - 17) * 10 ^ 16 := by
    rw [← zpow_natCast, ← zpow_add₀ (by norm_num)]
    congr 1
    omega
  have hgap : (units : ℚ) ≤ 2 ^ 53 * grainBelow units := by
    exact_mod_cast le_mul_grainBelow units
  have hpos : (0 : ℚ) < grainBelow units := by exact_mod_cast grainBelow_pos units
  have hten : (10 : ℚ) ^ 16 = 10000000000000000 := by norm_num
  have htwo : (2 : ℚ) ^ 53 = 9007199254740992 := by norm_num
  rw [hsplit, hten] at hscale
  rw [htwo] at hgap
  linarith

/-- The two decimals of a grid around a magnitude. -/
theorem floorOn_spec (units : Nat) (exponent : Int) :
    (floorOn units exponent).exponent = exponent ∧ (floorOn units exponent).worth ≤ units ∧
      (units : ℚ) < (floorOn units exponent).worth + 10 ^ exponent * one := by
  have hone := one_pos_rat
  unfold floorOn
  split
  · next h =>
    have hpow : (10 : ℚ) ^ exponent = 10 ^ exponent.toNat := by
      rw [← zpow_natCast, Int.toNat_of_nonneg h]
    have hpos : 0 < Nat.pow 10 exponent.toNat * one :=
      Nat.mul_pos (Nat.pow_pos (by norm_num)) one_pos
    refine ⟨rfl, ?_, ?_⟩
    · rw [Decimal.worth, hpow]
      have hle := Nat.div_mul_le_self units (Nat.pow 10 exponent.toNat * one)
      rw [Nat.pow_eq] at hle ⊢
      rw [mul_assoc]
      exact_mod_cast hle
    · rw [Decimal.worth, hpow]
      have hlt := Nat.lt_div_mul_add (a := units) hpos
      rw [Nat.pow_eq] at hlt ⊢
      rw [mul_assoc]
      exact_mod_cast hlt
  · next h =>
    have hpow : (10 : ℚ) ^ exponent * 10 ^ (-exponent).toNat = 1 := by
      rw [← zpow_natCast, Int.toNat_of_nonneg (by omega), ← zpow_add₀ (by norm_num)]
      simp
    have hpowPos : (0 : ℚ) < 10 ^ exponent := by positivity
    have hunits : (units : ℚ) = (units * Nat.pow 10 (-exponent).toNat : Nat) * 10 ^ exponent := by
      rw [Nat.pow_eq]
      push_cast
      linear_combination (-(units : ℚ)) * hpow
    refine ⟨rfl, ?_, ?_⟩
    · rw [Decimal.worth]
      have hle := Nat.div_mul_le_self (units * Nat.pow 10 (-exponent).toNat) one
      have hcast : ((units * Nat.pow 10 (-exponent).toNat / one : Nat) : ℚ) * one
          ≤ (units * Nat.pow 10 (-exponent).toNat : Nat) := by exact_mod_cast hle
      rw [mul_right_comm, hunits]
      exact mul_le_mul_of_nonneg_right hcast hpowPos.le
    · rw [Decimal.worth]
      have hlt := Nat.lt_div_mul_add (a := units * Nat.pow 10 (-exponent).toNat)
        (b := one) one_pos
      have hcast : ((units * Nat.pow 10 (-exponent).toNat : Nat) : ℚ)
          < (units * Nat.pow 10 (-exponent).toNat / one : Nat) * one + one := by exact_mod_cast hlt
      have := mul_lt_mul_of_pos_right hcast hpowPos
      rw [← hunits] at this
      linarith

/-- What is found on a grid reads back and lies on the grid. -/
theorem nearestOn?_spec (h : nearestOn? units exponent = some d) :
    readsAs units d = true ∧ d.exponent = exponent := by
  obtain ⟨hexponent, -, -⟩ := floorOn_spec units exponent
  unfold nearestOn? at h
  dsimp only at h
  split at h
  · next hbelow habove =>
    split at h
    · exact Option.some.inj h ▸ ⟨hbelow, hexponent⟩
    · split at h
      · exact Option.some.inj h ▸ ⟨habove, rfl⟩
      · split at h
        · exact Option.some.inj h ▸ ⟨hbelow, hexponent⟩
        · exact Option.some.inj h ▸ ⟨habove, rfl⟩
  · next hbelow _ => exact Option.some.inj h ▸ ⟨hbelow, hexponent⟩
  · next _ habove => exact Option.some.inj h ▸ ⟨habove, rfl⟩
  · cases h

/-- Where one of the two decimals of a grid around the magnitude reads back, one is found. -/
theorem exists_nearestOn?_of_readsAs (h : readsAs units (floorOn units exponent) = true ∨
    readsAs units ⟨(floorOn units exponent).digits + 1, exponent⟩ = true) :
    ∃ d, nearestOn? units exponent = some d := by
  simp only [nearestOn?]
  cases hbelow : readsAs units (floorOn units exponent) with
  | false =>
    have hreads := h.resolve_left (by simp [hbelow])
    exact ⟨_, by rw [hreads]⟩
  | true =>
    cases hnext : readsAs units ⟨(floorOn units exponent).digits + 1, exponent⟩ with
    | false => exact ⟨_, rfl⟩
    | true =>
      dsimp only
      split
      · exact ⟨_, rfl⟩
      · split
        · exact ⟨_, rfl⟩
        · split <;> exact ⟨_, rfl⟩

/-- A grid that is finer than the gap below the magnitude holds a decimal that reads back. -/
theorem exists_nearestOn? (hunits : 0 < units) (hgrid : grain units ∣ units)
    (hspacing : (10 : ℚ) ^ exponent * one < grainBelow units) :
    ∃ d, nearestOn? units exponent = some d := by
  obtain ⟨hexponent, hle, hlt⟩ := floorOn_spec units exponent
  have hgap : (grainBelow units : ℚ) ≤ grain units := by exact_mod_cast grainBelow_le units
  have hpos : (0 : ℚ) < grainBelow units := by exact_mod_cast grainBelow_pos units
  have habove : (⟨(floorOn units exponent).digits + 1, exponent⟩ : Decimal).worth
      = (floorOn units exponent).worth + 10 ^ exponent * one := by
    rw [Decimal.worth, Decimal.worth, hexponent]
    push_cast
    ring
  refine exists_nearestOn?_of_readsAs ?_
  rw [readsAs_iff hunits hgrid, readsAs_iff hunits hgrid, habove]
  by_cases hnear : 2 * (units : ℚ) < 2 * (floorOn units exponent).worth + grainBelow units
  · exact .inl (.of_lt hnear (by linarith))
  · exact .inr (.of_lt (by linarith) (by linarith))

/-- The decimal that is found reads back. Its exponent is bounded by that of the finest grid. -/
theorem shortest_spec (hunits : 0 < units) (hgrid : grain units ∣ units) :
    Within units (shortest units).worth ∧ scale units - 17 ≤ (shortest units).exponent := by
  have hfound : ∃ d, (List.range 17).findSome?
      (fun more ↦ nearestOn? units (scale units - (more + 1 : Nat))) = some d := by
    obtain ⟨d, hd⟩ := exists_nearestOn? hunits hgrid (spacing_lt hunits)
    refine Option.isSome_iff_exists.mp (List.findSome?_isSome_iff.mpr ⟨16, by simp, ?_⟩)
    have hexponent : scale units - ((16 + 1 : Nat) : Int) = scale units - 17 := rfl
    rw [hexponent, hd]
    rfl
  obtain ⟨d, hd⟩ := hfound
  obtain ⟨more, hmore, hnearest⟩ := List.exists_of_findSome?_eq_some hd
  obtain ⟨hreads, hexponent⟩ := nearestOn?_spec hnearest
  obtain ⟨hworth, hstripped⟩ := d.stripped_spec
  have hshortest : shortest units = d.stripped := by
    simp only [shortest, hd, Option.getD_some]
  have hfew := List.mem_range.mp hmore
  rw [hshortest, hworth]
  exact ⟨(readsAs_iff hunits hgrid d).mp hreads, by omega⟩

theorem Within.worth_bounds (hunits : 0 < units) (hgrid : grain units ∣ units) {worth : ℚ}
    (h : Within units worth) : 0 < worth ∧ worth ≤ 2 * units := by
  have hbelow : (grainBelow units : ℚ) ≤ units := by
    exact_mod_cast grainBelow_le_self hunits hgrid
  have habove : (grain units : ℚ) ≤ units := by exact_mod_cast Nat.le_of_dvd hunits hgrid
  have hpos : (0 : ℚ) < units := by exact_mod_cast hunits
  obtain ⟨hlow, hhigh, -⟩ := h
  constructor <;> linarith

end Magnitude

namespace Number

open Magnitude

/-- A decimal that is worth as much as reads back as a magnitude is read as the number of this
magnitude, if its exponent is not too small to be looked at. -/
theorem ofDecimal_of_within (negative : Bool) {size : Magnitude} (hunits : 0 < size.units)
    {d : Decimal} (h : Within size.units d.worth) (hexponent : -400 ≤ d.exponent) :
    ofDecimal negative d.digits d.exponent = .finite negative size := by
  obtain ⟨hpos, hbound⟩ := h.worth_bounds hunits size.onGrid
  have hdigits : d.digits ≠ 0 := Decimal.digits_ne_zero hpos
  have hquotient : ∀ num den : Nat, 0 < den → (num : ℚ) = d.worth * den →
      ofQuotient negative num den = .finite negative size := by
    intro num den hden hnum
    have hnearest := nearest_of_within hunits size.onGrid hden hnum h
    rw [ofQuotient, dif_pos (hnearest ▸ size.bounded)]
    congr 1
    cases size
    simp only [hnearest]
  have hsmall : d.exponent ≤ 400 := by
    by_contra hlarge
    -- Beyond this power of ten nothing is finite.
    have hlimit : 2 * limit ≤ 10 ^ 400 * one := by decide +kernel
    have hpow : (10 : ℚ) ^ 400 ≤ 10 ^ d.exponent := by
      rw [← zpow_natCast]
      exact zpow_le_zpow_right₀ (by norm_num) (by omega)
    have hone := one_pos_rat
    have hcount : (1 : ℚ) ≤ d.digits := by exact_mod_cast Nat.pos_of_ne_zero hdigits
    have hworth : (10 : ℚ) ^ 400 * one ≤ d.worth := by
      rw [Decimal.worth]
      refine mul_le_mul_of_nonneg_right ?_ hone.le
      exact hpow.trans (le_mul_of_one_le_left (by positivity) hcount)
    have hunitsLt : (size.units : ℚ) < limit := by exact_mod_cast size.bounded
    have hlimitQ : (2 : ℚ) * limit ≤ 10 ^ 400 * one := by exact_mod_cast hlimit
    linarith
  rw [ofDecimal, if_neg hdigits, if_neg (by omega), if_neg (by omega)]
  split
  · next hnonneg =>
    refine hquotient _ 1 Nat.one_pos ?_
    rw [Nat.cast_one, mul_one]
    exact (Decimal.worth_of_nonneg hnonneg).symm
  · next hneg =>
    exact hquotient _ _ (Nat.pow_pos (by norm_num)) (Decimal.worth_of_neg hneg)

/-- The shortest decimal of a magnitude reads back as this magnitude. -/
theorem ofDecimal_shortest (negative : Bool) {size : Magnitude} (h : size.units ≠ 0) :
    ofDecimal negative (shortest size.units).digits (shortest size.units).exponent
      = .finite negative size := by
  have hunits := Nat.pos_of_ne_zero h
  obtain ⟨hwithin, hexponent⟩ := shortest_spec hunits size.onGrid
  refine ofDecimal_of_within negative hunits hwithin ?_
  have hscale := length_repr_pos (size.units * Nat.pow 10 330 / one)
  rw [scale] at hexponent
  omega

/-- The shortest decimal of a magnitude that is not zero has a digit that is not zero. -/
theorem digits_shortest_ne_zero {size : Magnitude} (h : size.units ≠ 0) :
    (shortest size.units).digits ≠ 0 := by
  have hunits := Nat.pos_of_ne_zero h
  obtain ⟨hwithin, -⟩ := shortest_spec hunits size.onGrid
  exact Decimal.digits_ne_zero (hwithin.worth_bounds hunits size.onGrid).1

end Number

end BrowserFlow
