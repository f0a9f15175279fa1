import BrowserFlow.Number.Decimal
import BrowserFlow.Proofs.Number.Finite
import Mathlib.Tactic.Ring

/-!
Rounding between midpoints. A quotient that lies between the midpoints from a
magnitude to its two neighbours is rounded to this magnitude, and so is a midpoint
itself when the last place of the magnitude is even
(`Magnitude.nearest_of_between`). Below a power of two the neighbours lie twice as
close, and the quotient is rounded on the finer of the two grids
(`Magnitude.grain_of_between`).
-/

set_option autoImplicit false
set_option relaxedAutoImplicit false

namespace BrowserFlow.Magnitude

variable {units num den n : Nat}

/-- A quotient within a half of a natural number is rounded to it, and half way too when the number
is even. -/
theorem halfEven_eq (hden : 0 < den) (hlow : 2 * (n * den) ≤ 2 * num + den)
    (hhigh : 2 * num ≤ 2 * (n * den) + den)
    (htie : n % 2 = 0 ∨ 2 * (n * den) < 2 * num + den ∧ 2 * num < 2 * (n * den) + den) :
    halfEven num den = n := by
  have hsplit : num / den * den + num % den = num := Nat.div_add_mod' num den
  have hrest : num % den < den := Nat.mod_lt _ hden
  have hle : num / den ≤ n := by
    by_contra hlt
    have hmul : (n + 1) * den ≤ num / den * den := Nat.mul_le_mul_right den (by omega)
    rw [Nat.add_mul, Nat.one_mul] at hmul
    omega
  have hge : n ≤ num / den + 1 := by
    by_contra hlt
    have hmul : (num / den + 2) * den ≤ n * den := Nat.mul_le_mul_right den (by omega)
    rw [Nat.add_mul] at hmul
    omega
  rcases Nat.lt_or_eq_of_le hle with hlt | heq
  · have hn : n = num / den + 1 := by omega
    have hmul : n * den = num / den * den + den := by rw [hn, Nat.add_mul, Nat.one_mul]
    unfold halfEven
    dsimp only
    split
    · omega
    · split
      · omega
      · split <;> omega
  · have hmul : n * den = num / den * den := by rw [heq]
    unfold halfEven
    dsimp only
    split
    · omega
    · split
      · omega
      · split <;> omega

theorem grain_pos (units : Nat) : 0 < grain units := Nat.two_pow_pos _

theorem grain_eq {places : Nat} (hlow : 2 ^ places ≤ units) (hhigh : units < 2 ^ (places + 1)) :
    grain units = 2 ^ (places - 52) := by
  have hne : units ≠ 0 := by
    have := Nat.two_pow_pos places
    omega
  have hlog : units.log2 = places := by
    have hle := (Nat.le_log2 hne).mpr hlow
    have hlt := (Nat.log2_lt hne).mpr hhigh
    omega
  rw [grain, hlog, Nat.pow_eq]

/-- The neighbour below is one grain away, or half a grain below a power of two. -/
theorem grainBelow_cases (units : Nat) :
    grainBelow units = grain units ∨
      1 < grain units ∧ units = 2 ^ units.log2 ∧ 2 * grainBelow units = grain units := by
  unfold grainBelow
  split
  · next h =>
    obtain ⟨hone, hpower⟩ := h
    refine .inr ⟨hone, by rwa [Nat.pow_eq] at hpower, ?_⟩
    have heven : 2 ∣ grain units := by
      rw [grain, Nat.pow_eq] at hone ⊢
      exact dvd_pow_self 2 (by rintro h; simp [h] at hone)
    omega
  · exact .inl rfl

theorem grainBelow_pos (units : Nat) : 0 < grainBelow units := by
  have hgrain := grain_pos units
  rcases grainBelow_cases units with h | ⟨-, -, h⟩ <;> omega

theorem grainBelow_le (units : Nat) : grainBelow units ≤ grain units := by
  rcases grainBelow_cases units with h | ⟨-, -, h⟩ <;> omega

theorem grainBelow_le_self (hunits : 0 < units) (hgrid : grain units ∣ units) :
    grainBelow units ≤ units :=
  Nat.le_trans (grainBelow_le units) (Nat.le_of_dvd hunits hgrid)

/-- A quotient lies between the midpoints around a magnitude, or on one of them when the last place
of the magnitude is even. -/
def Between (units num den : Nat) : Prop :=
  2 * (units * den) ≤ 2 * num + grainBelow units * den ∧
    2 * num ≤ 2 * (units * den) + grain units * den ∧
    (units / grain units % 2 = 0 ∨
      2 * (units * den) < 2 * num + grainBelow units * den ∧
        2 * num < 2 * (units * den) + grain units * den)

/-- Between the midpoints around a magnitude, quotients are rounded on its own grid, or, below a
power of two, on the grid of its neighbour below. -/
theorem grain_of_between (hden : 0 < den) (hunits : 0 < units) (hgrid : grain units ∣ units)
    (h : Between units num den) :
    grain (num / den) = grain units ∨
      grain (num / den) = grainBelow units ∧ num < units * den ∧ 2 * grainBelow units ∣ units := by
  obtain ⟨hlow, hhigh, -⟩ := h
  obtain ⟨places, hplaces⟩ : ∃ places, places = units.log2 := ⟨_, rfl⟩
  have hself : 2 ^ places ≤ units := hplaces ▸ Nat.log2_self_le (by omega)
  have hnext : units < 2 ^ (places + 1) := hplaces ▸ Nat.lt_log2_self
  have hgrain : grain units = 2 ^ (places - 52) := grain_eq hself hnext
  -- The next magnitude above is no more than the next power of two.
  have hroom : units + grain units ≤ 2 ^ (places + 1) := by
    have hdvd : grain units ∣ 2 ^ (places + 1) := by
      rw [hgrain]
      exact Nat.pow_dvd_pow 2 (by omega)
    obtain ⟨count, hcount⟩ := hgrid
    obtain ⟨limit, hlimit⟩ := hdvd
    have hlt : grain units * count < grain units * limit := by
      rw [← hcount, ← hlimit]
      exact hnext
    have hle : count + 1 ≤ limit := Nat.lt_of_mul_lt_mul_left hlt
    calc units + grain units = grain units * (count + 1) := by rw [Nat.mul_succ, ← hcount]
      _ ≤ grain units * limit := Nat.mul_le_mul_left _ hle
      _ = 2 ^ (places + 1) := hlimit.symm
  have habove : num / den < 2 ^ (places + 1) := by
    rw [Nat.div_lt_iff_lt_mul hden]
    have hmul : (units + grain units) * den ≤ 2 ^ (places + 1) * den := Nat.mul_le_mul_right _ hroom
    have hpos : 0 < grain units * den := Nat.mul_pos (grain_pos units) hden
    rw [Nat.add_mul] at hmul
    omega
  by_cases hbelow : 2 ^ places ≤ num / den
  · exact .inl (by rw [grain_eq hbelow habove, hgrain])
  -- A quotient below the power of two that begins with the magnitude is within reach of that power
  -- only.
  · have hless : num < 2 ^ places * den := by
      rw [← Nat.div_lt_iff_lt_mul hden]
      omega
    have hpower : units = 2 ^ places := by
      have hdvd : grain units ∣ 2 ^ places := by
        rw [hgrain]
        exact Nat.pow_dvd_pow 2 (by omega)
      have hdiff : grain units ∣ units - 2 ^ places := Nat.dvd_sub hgrid hdvd
      by_contra hne
      have hstep : grain units ≤ units - 2 ^ places := Nat.le_of_dvd (by omega) hdiff
      have hmul : (2 ^ places + grain units) * den ≤ units * den :=
        Nat.mul_le_mul_right _ (by omega)
      have hgap : grainBelow units * den ≤ grain units * den :=
        Nat.mul_le_mul_right _ (grainBelow_le units)
      rw [Nat.add_mul] at hmul
      omega
    rcases grainBelow_cases units with hsame | ⟨hone, -, hhalf⟩
    · -- Without a finer grid below, the weight is one on both sides.
      have hsmall : ¬ 1 < grain units := by
        intro hone
        have hcontra : grainBelow units = grain units / 2 := by
          rw [grainBelow, if_pos ⟨hone, by rw [Nat.pow_eq, ← hplaces]; exact hpower⟩]
        have := grain_pos units
        omega
      left
      have hone : grain units = 1 := by
        have := grain_pos units
        omega
      have hfew : places - 52 = 0 := by
        rw [hgrain] at hone
        by_contra hne
        exact absurd hone (Nat.ne_of_gt (Nat.one_lt_two_pow hne))
      rw [hone, grain, Nat.pow_eq]
      have hlog : (num / den).log2 ≤ 52 := by
        by_cases hzero : num / den = 0
        · simp [hzero]
        · have := (Nat.log2_lt hzero).mpr (Nat.lt_of_not_le hbelow)
          omega
      simp [Nat.sub_eq_zero_of_le hlog]
    · have hmany : 52 < places := by
        by_contra hfew
        rw [hgrain, Nat.sub_eq_zero_of_le (by omega)] at hone
        simp at hone
      obtain ⟨more, rfl⟩ : ∃ more, places = more + 53 := ⟨places - 53, by omega⟩
      have hfine : grainBelow units = 2 ^ more := by
        have hexp : more + 53 - 52 = more + 1 := by omega
        rw [hgrain, hexp, Nat.pow_succ] at hhalf
        omega
      have hreach : 2 ^ (more + 52) ≤ num / den := by
        rw [Nat.le_div_iff_mul_le hden]
        have hunitsMul : units * den = 2 * (2 ^ (more + 52) * den) := by
          rw [hpower, Nat.pow_succ]
          ring
        have hsmall : grainBelow units * den ≤ 2 ^ (more + 52) * den := by
          rw [hfine]
          exact Nat.mul_le_mul_right _ (Nat.pow_le_pow_right (by omega) (by omega))
        omega
      refine .inr ⟨?_, hpower ▸ hless, ?_⟩
      · rw [grain_eq hreach (Nat.lt_of_not_le hbelow), hfine]
        congr 1
      · rw [hfine, hpower, ← Nat.pow_succ']
        exact Nat.pow_dvd_pow 2 (by omega)

/-- A quotient between the midpoints around a magnitude is rounded to this magnitude. -/
theorem nearest_of_between (hden : 0 < den) (hunits : 0 < units) (hgrid : grain units ∣ units)
    (h : Between units num den) : nearest num den = units := by
  have hless : grainBelow units * den ≤ grain units * den :=
    Nat.mul_le_mul_right _ (grainBelow_le units)
  have hgrain := grain_of_between hden hunits hgrid h
  obtain ⟨hlow, hhigh, htie⟩ := h
  rw [nearest]
  rcases hgrain with hsame | ⟨hfine, hbelow, heven⟩
  · rw [hsame]
    have hcount : units / grain units * grain units = units := Nat.div_mul_cancel hgrid
    have hmul : units / grain units * (den * grain units) = units * den := by
      rw [Nat.mul_comm den, ← Nat.mul_assoc, hcount]
    have hscale : den * grain units = grain units * den := Nat.mul_comm _ _
    rw [halfEven_eq (Nat.mul_pos hden (grain_pos units)) (by rw [hmul]; omega)
      (by rw [hmul]; omega) (by rw [hmul]; omega), hcount]
  · rw [hfine]
    obtain ⟨half, hhalf⟩ := heven
    have hcount : 2 * half * grainBelow units = units := by
      rw [Nat.mul_right_comm]
      exact hhalf.symm
    have hmul : 2 * half * (den * grainBelow units) = units * den :=
      calc 2 * half * (den * grainBelow units) = 2 * half * grainBelow units * den := by ring
        _ = units * den := by rw [hcount]
    have hscale : den * grainBelow units = grainBelow units * den := Nat.mul_comm _ _
    rw [halfEven_eq (n := 2 * half) (Nat.mul_pos hden (grainBelow_pos units)) (by rw [hmul]; omega)
      (by rw [hmul]; omega) (.inl (by omega)), hcount]

end BrowserFlow.Magnitude
