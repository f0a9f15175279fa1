import BrowserFlow.Proofs.Number.Differences
import BrowserFlow.Proofs.Number.Written

/-!
Sums and the order of numbers. Numbers have their places in units (`Number.rank`), and rounding
keeps the order of what is rounded (`Magnitude.nearest_le`, `Magnitude.le_nearest`). So a step
upwards leads to no lesser number (`Number.rank_le_rank_add`), a step downwards to no greater one
(`Number.rank_add_le_rank`), and where the place is the same the number is
(`Number.add_eq_of_rank`): a step that is too short for the number leaves it as it is. A step that
is as long as the way to the next greater number leads on from it (`Number.add_ne_of_leadsOnFrom`),
and then also from any number between two such ones (`Number.leadsOnFrom_of_rank`).
-/

set_option autoImplicit false
set_option relaxedAutoImplicit false

namespace BrowserFlow

namespace Magnitude

theorem div_le_halfEven (num den : Nat) : num / den ≤ halfEven num den := by
  unfold halfEven
  dsimp only
  repeat' split
  all_goals omega

/-- Rounding does not fall below a magnitude that the format can hold. -/
theorem le_nearest {units size : Nat} (hle : size ≤ units) (hsize : grain size ∣ size) :
    size ≤ nearest units 1 := by
  have hcut : units / grain units * grain units ≤ nearest units 1 := by
    rw [nearest, Nat.div_one, Nat.one_mul]
    exact Nat.mul_le_mul_right _ (div_le_halfEven _ _)
  refine Nat.le_trans ?_ hcut
  -- A multiple of the weight that is not above the units is not above what is left of them.
  have hkeep : ∀ kept, kept ≤ units → grain units ∣ kept →
      kept ≤ units / grain units * grain units := by
    rintro _ hkept ⟨count, rfl⟩
    rw [Nat.mul_comm]
    refine Nat.mul_le_mul_right _ ((Nat.le_div_iff_mul_le (Nat.two_pow_pos _)).mpr ?_)
    rwa [Nat.mul_comm]
  rcases Nat.eq_zero_or_pos size with rfl | hpos
  · exact Nat.zero_le _
  by_cases hlog : size.log2 = units.log2
  · refine hkeep size hle ?_
    rwa [grain, ← hlog]
  · have hlow : 2 ^ units.log2 ≤ units := Nat.log2_self_le (by omega)
    have hless : size < 2 ^ units.log2 :=
      (Nat.log2_lt (by omega)).mp (Nat.lt_of_le_of_ne (log2_le_log2 hle) hlog)
    exact Nat.le_trans (Nat.le_of_lt hless)
      (hkeep _ hlow (Nat.pow_dvd_pow 2 (Nat.sub_le _ _)))

/-- The next greater magnitude is on the grid. -/
theorem grain_dvd_add_grain {units : Nat} (h : grain units ∣ units) :
    grain (units + grain units) ∣ units + grain units := by
  obtain ⟨shift, hgrain⟩ : ∃ shift, shift = units.log2 - 52 := ⟨_, rfl⟩
  have hweight : grain units = Nat.pow 2 shift := by rw [grain, hgrain]
  obtain ⟨count, hcount⟩ := h
  have hsum : units + grain units = (count + 1) * Nat.pow 2 shift := by
    conv => lhs; lhs; rw [hcount]
    rw [hweight, Nat.add_mul, Nat.one_mul, Nat.mul_comm]
  have hfew : count < Nat.pow 2 53 := by
    have hpos : 0 < grain units := Nat.two_pow_pos _
    have htop : units < 2 ^ (53 + shift) :=
      Nat.lt_of_lt_of_le Nat.lt_log2_self (Nat.pow_le_pow_right (by omega) (by omega))
    rw [Nat.pow_add, Nat.mul_comm, ← Nat.pow_eq, ← Nat.pow_eq, ← hweight] at htop
    refine Nat.lt_of_mul_lt_mul_left (a := grain units) ?_
    rwa [← hcount]
  rw [hsum]
  exact grain_dvd_mul_two_pow _ _ hfew

/-- So is what is a grain less. -/
theorem grain_dvd_sub_grain {units : Nat} (h : grain units ∣ units) :
    grain (units - grain units) ∣ units - grain units :=
  Nat.dvd_trans (grain_dvd_grain (Nat.sub_le _ _)) (Nat.dvd_sub h (Nat.dvd_refl _))

theorem limit_pos : 0 < limit := by
  obtain ⟨places, -, -, hlimit⟩ := exists_places
  rw [hlimit]
  exact Nat.two_pow_pos _

end Magnitude

namespace Number

variable {x y step : Number} {s t : Bool} {a b : Magnitude}

/-- Where a number is in the order of the numbers, in units: both zeros are at the same place, and
the infinite numbers are past all finite ones. -/
def rank : Number → Int
  | .nan => 0
  | .infinite negative => if negative then -(Magnitude.limit : Int) else Magnitude.limit
  | .finite negative size => signed negative size

theorem signed_lt_limit (s : Bool) (a : Magnitude) :
    -(Magnitude.limit : Int) < signed s a ∧ signed s a < Magnitude.limit := by
  have hbounded := a.bounded
  cases s <;> simp only [signed, Bool.false_eq_true, if_false, if_true] <;> omega

theorem rank_bounds (x : Number) :
    -(Magnitude.limit : Int) ≤ x.rank ∧ x.rank ≤ Magnitude.limit := by
  cases x with
  | nan => simp only [rank]; omega
  | infinite s => cases s <;> simp only [rank, Bool.false_eq_true, if_false, if_true] <;> omega
  | finite s a =>
    have hbounds := signed_lt_limit s a
    simp only [rank]
    omega

/-- Numbers that mean something compare as their places in the order do. -/
theorem le_iff_rank (hx : x ≠ .nan) (hy : y ≠ .nan) : le x y = true ↔ x.rank ≤ y.rank := by
  have hlimit : (0 : Int) < Magnitude.limit := by exact_mod_cast Magnitude.limit_pos
  cases x with
  | nan => exact absurd rfl hx
  | infinite s =>
    cases y with
    | nan => exact absurd rfl hy
    | infinite t =>
      simp only [le, compare?, rank]
      generalize (Magnitude.limit : Int) = top at hlimit ⊢
      cases s <;> cases t <;> simp <;> omega
    | finite t b =>
      have hbounds := signed_lt_limit t b
      simp only [le, compare?, rank]
      generalize (Magnitude.limit : Int) = top at hlimit hbounds ⊢
      cases s <;> simp <;> omega
  | finite s a =>
    cases y with
    | nan => exact absurd rfl hy
    | infinite t =>
      have hbounds := signed_lt_limit s a
      simp only [le, compare?, rank]
      generalize (Magnitude.limit : Int) = top at hlimit hbounds ⊢
      cases t <;> simp <;> omega
    | finite t b =>
      simp only [le, compare?_finite, rank, Bool.or_eq_true, beq_iff_eq, Option.some.injEq,
        compare_lt_iff_lt, compare_eq_iff_eq]
      omega

/-- Where the number nearest to units is. -/
theorem rank_ofUnits (units : Int) (zeroNegative : Bool) :
    (ofUnits units zeroNegative).rank =
      if units < 0 then -((min (Magnitude.nearest units.natAbs 1) Magnitude.limit : Nat) : Int)
      else ((min (Magnitude.nearest units.natAbs 1) Magnitude.limit : Nat) : Int) := by
  by_cases hzero : units = 0
  · subst hzero
    have hnone : Magnitude.nearest 0 1 = 0 := Magnitude.nearest_one (Nat.dvd_zero _)
    rw [ofUnits, if_pos rfl, Int.natAbs_zero, ofQuotient,
      dif_pos (by rw [hnone]; exact Magnitude.limit_pos)]
    simp [rank, signed, hnone]
  · rw [ofUnits, if_neg hzero, ofQuotient]
    split
    · next hbounded =>
      rw [Nat.min_eq_left (Nat.le_of_lt hbounded), rank, signed]
      simp only [decide_eq_true_eq]
    · next hlarge =>
      rw [Nat.min_eq_right (Nat.le_of_not_lt hlarge), rank]
      simp only [decide_eq_true_eq]

theorem signed_le_rank_ofUnits {units : Int} {zeroNegative : Bool} (h : signed s a ≤ units) :
    signed s a ≤ (ofUnits units zeroNegative).rank := by
  have hbounded := a.bounded
  have habs := natAbs_signed s a
  rw [rank_ofUnits]
  split
  · next hneg =>
    have hsize : Magnitude.nearest units.natAbs 1 ≤ a.units :=
      Magnitude.nearest_le Nat.one_pos (by omega) a.onGrid
    omega
  · next hpos =>
    by_cases hle : a.units ≤ units.natAbs
    · have hsize := Magnitude.le_nearest hle a.onGrid
      omega
    · omega

theorem rank_ofUnits_le_signed {units : Int} {zeroNegative : Bool} (h : units ≤ signed s a) :
    (ofUnits units zeroNegative).rank ≤ signed s a := by
  have hbounded := a.bounded
  have habs := natAbs_signed s a
  rw [rank_ofUnits]
  split
  · next hneg =>
    by_cases hle : a.units ≤ units.natAbs
    · have hsize := Magnitude.le_nearest hle a.onGrid
      omega
    · omega
  · next hpos =>
    have hsize : Magnitude.nearest units.natAbs 1 ≤ a.units :=
      Magnitude.nearest_le Nat.one_pos (by omega) a.onGrid
    omega

/-- Other units than those of a finite number that are rounded to its place are rounded to it. -/
theorem ofUnits_eq_of_rank {units : Int} {zeroNegative : Bool} (hne : units ≠ signed s a)
    (hrank : (ofUnits units zeroNegative).rank = signed s a) :
    ofUnits units zeroNegative = .finite s a := by
  have hzero : units ≠ 0 := by
    rintro rfl
    rw [rank_ofUnits, if_neg (Int.lt_irrefl 0), Int.natAbs_zero,
      Magnitude.nearest_one (Nat.dvd_zero _), Nat.zero_min] at hrank
    exact hne hrank
  rw [ofUnits, if_neg hzero] at hrank ⊢
  obtain ⟨size, hunits, heq⟩ | heq := exists_ofQuotient_or (decide (units < 0)) units.natAbs 1
  · rw [heq] at hrank ⊢
    -- Nothing is rounded to zero, so the signs are told by the units.
    have hsize : 0 < size.units := hunits ▸ Magnitude.nearest_pos (Int.natAbs_pos.mpr hzero)
    have hsame : a.units = size.units := by
      rw [← natAbs_signed s a, ← hrank]
      exact natAbs_signed _ _
    exact (finite_eq_iff_signed (by omega) (by omega)).mpr hrank
  · have hbounds := signed_lt_limit s a
    rw [heq] at hrank
    simp only [rank, decide_eq_true_eq] at hrank
    split at hrank <;> omega

/-- No step leads away from an infinite number, unless the sum means nothing. -/
theorem infinite_add (h : .infinite s + step ≠ .nan) : .infinite s + step = .infinite s := by
  cases step with
  | nan => exact absurd rfl h
  | infinite t =>
    cases s <;> cases t <;> first | rfl | exact absurd rfl h
  | finite t b => rfl

/-- What is left at its place by a step is left as it is. -/
theorem add_eq_of_rank (hzero : step.isZero = false) (hsum : x + step ≠ .nan)
    (hrank : (x + step).rank = x.rank) : x + step = x := by
  cases x with
  | nan => cases step <;> exact absurd rfl hsum
  | infinite s => exact infinite_add hsum
  | finite s a =>
    have hbounds := signed_lt_limit s a
    cases step with
    | nan => exact absurd rfl hsum
    | infinite t =>
      change rank (.infinite t) = signed s a at hrank
      cases t <;> simp only [rank, Bool.false_eq_true, if_false, if_true] at hrank <;> omega
    | finite t b =>
      have hmoves : signed t b ≠ 0 := by
        have habs := natAbs_signed t b
        have hunits : b.units ≠ 0 := by simpa [isZero] using hzero
        omega
      rw [add_finite] at hrank ⊢
      exact ofUnits_eq_of_rank (by omega) hrank

/-- A step upwards leads to no lesser number. -/
theorem rank_le_rank_add (hstep : lt 0 step = true) (hsum : x + step ≠ .nan) :
    x.rank ≤ (x + step).rank := by
  cases x with
  | nan => cases step <;> exact absurd rfl hsum
  | infinite s => rw [infinite_add hsum]
  | finite s a =>
    cases step with
    | nan => exact absurd rfl hsum
    | infinite t =>
      obtain rfl : t = false := by simpa [lt_zero_infinite] using hstep
      exact (rank_bounds (.finite s a)).2
    | finite t b =>
      have hup := (lt_zero_iff t b).mp hstep
      rw [add_finite]
      exact signed_le_rank_ofUnits (by omega)

/-- A step that is not upwards leads to no greater number. -/
theorem rank_add_le_rank (hstep : lt 0 step = false) (hsum : x + step ≠ .nan) :
    (x + step).rank ≤ x.rank := by
  cases x with
  | nan => cases step <;> exact absurd rfl hsum
  | infinite s => rw [infinite_add hsum]
  | finite s a =>
    cases step with
    | nan => exact absurd rfl hsum
    | infinite t =>
      obtain rfl : t = true := by simpa [lt_zero_infinite] using hstep
      exact (rank_bounds (.finite s a)).1
    | finite t b =>
      have hup : ¬0 < signed t b := fun hup ↦ by
        rw [(lt_zero_iff t b).mpr hup] at hstep
        cases hstep
      rw [add_finite]
      exact rank_ofUnits_le_signed (by omega)

/-! ### The direction of a step -/

/-- How far a number is in the direction of a step, in units. -/
def ahead (step x : Number) : Int := if lt 0 step then x.rank else -x.rank

/-- A step does not lead back. -/
theorem ahead_le_ahead_add (hsum : x + step ≠ .nan) : ahead step x ≤ ahead step (x + step) := by
  unfold ahead
  cases hstep : lt 0 step with
  | true => exact rank_le_rank_add hstep hsum
  | false => exact Int.neg_le_neg (rank_add_le_rank hstep hsum)

/-- A step that changes a number leads on. -/
theorem ahead_lt_ahead_add (hzero : step.isZero = false) (hsum : x + step ≠ .nan)
    (hmoves : x + step ≠ x) : ahead step x < ahead step (x + step) := by
  refine lt_of_le_of_ne (ahead_le_ahead_add hsum) fun heq ↦
    hmoves (add_eq_of_rank hzero hsum ?_)
  unfold ahead at heq
  cases hstep : lt 0 step with
  | true =>
    simp only [hstep, if_true] at heq
    exact heq.symm
  | false =>
    simp only [hstep, Bool.false_eq_true, if_false] at heq
    omega

/-! ### Steps that lead on -/

/-- Whether a step is at least as long as the way from a finite number to the next greater one. -/
def leadsOnFrom (step x : Number) : Bool :=
  match step, x with
  | .finite _ length, .finite _ size => Magnitude.grain size.units ≤ length.units
  | _, _ => false

theorem leadsOnFrom_iff : step.leadsOnFrom x = true ↔ ∃ t b s a, step = .finite t b ∧
    x = .finite s a ∧ Magnitude.grain a.units ≤ b.units := by
  cases step with
  | finite t b =>
    cases x with
    | finite s a => simp [leadsOnFrom]
    | _ => simp [leadsOnFrom]
  | _ => simp [leadsOnFrom]

/-- A step that leads on from two numbers leads on from all numbers between them. -/
theorem leadsOnFrom_of_rank {low high : Number} (hlow : step.leadsOnFrom low = true)
    (hhigh : step.leadsOnFrom high = true) (hx : x ≠ .nan) (habove : low.rank ≤ x.rank)
    (hbelow : x.rank ≤ high.rank) : step.leadsOnFrom x = true := by
  obtain ⟨t, b, s, a, rfl, rfl, hnear⟩ := leadsOnFrom_iff.mp hlow
  obtain ⟨_, _, r, c, heq, rfl, hfar⟩ := leadsOnFrom_iff.mp hhigh
  obtain ⟨rfl, rfl⟩ := Number.finite.inj heq
  have hfirst := signed_lt_limit s a
  have hlast := signed_lt_limit r c
  cases x with
  | nan => exact absurd rfl hx
  | infinite q =>
    cases q <;> simp only [rank, Bool.false_eq_true, if_false, if_true] at habove hbelow <;> omega
  | finite q d =>
    refine leadsOnFrom_iff.mpr ⟨t, b, q, d, rfl, rfl, ?_⟩
    have hless : d.units ≤ a.units ∨ d.units ≤ c.units := by
      rw [← natAbs_signed q d, ← natAbs_signed s a, ← natAbs_signed r c]
      simp only [rank] at habove hbelow
      omega
    have hgrain : ∀ {units : Nat}, d.units ≤ units →
        Magnitude.grain d.units ≤ Magnitude.grain units := fun hle ↦
      Nat.le_of_dvd (Nat.two_pow_pos _) (Magnitude.grain_dvd_grain hle)
    exact hless.elim (fun hle ↦ (hgrain hle).trans hnear) fun hle ↦ (hgrain hle).trans hfar

theorem leadsOnFrom_of_ahead {first last : Number} (hfirst : step.leadsOnFrom first = true)
    (hlast : step.leadsOnFrom last = true) (hx : x ≠ .nan)
    (hbefore : ahead step first ≤ ahead step x) (hbehind : ahead step x ≤ ahead step last) :
    step.leadsOnFrom x = true := by
  unfold ahead at hbefore hbehind
  cases hstep : lt 0 step with
  | true =>
    simp only [hstep, if_true] at hbefore hbehind
    exact leadsOnFrom_of_rank hfirst hlast hx hbefore hbehind
  | false =>
    simp only [hstep, Bool.false_eq_true, if_false] at hbefore hbehind
    exact leadsOnFrom_of_rank hlast hfirst hx (by omega) (by omega)

/-- A step that spans the way to the next number does not leave a number where it is. -/
theorem add_ne_of_leadsOnFrom (h : step.leadsOnFrom x = true) : x + step ≠ x := by
  obtain ⟨t, b, s, a, rfl, rfl, hspan⟩ := leadsOnFrom_iff.mp h
  have hgrain : 0 < Magnitude.grain a.units := Nat.two_pow_pos _
  have hbounded := a.bounded
  intro heq
  have hrank : (ofUnits (signed s a + signed t b) (s && t)).rank = signed s a := by
    rw [← add_finite, heq, rank]
  rw [rank_ofUnits] at hrank
  -- The neighbours of the magnitude on its own grid are ones that rounding does not pass.
  have habove : a.units + Magnitude.grain a.units ≤ (signed s a + signed t b).natAbs →
      a.units < Magnitude.nearest (signed s a + signed t b).natAbs 1 := fun hle ↦
    Nat.lt_of_lt_of_le (Nat.lt_add_of_pos_right hgrain)
      (Magnitude.le_nearest hle (Magnitude.grain_dvd_add_grain a.onGrid))
  have hbelow : (signed s a + signed t b).natAbs ≤ a.units - Magnitude.grain a.units →
      0 < a.units → Magnitude.nearest (signed s a + signed t b).natAbs 1 < a.units :=
    fun hle hpos ↦ Nat.lt_of_le_of_lt
      (Magnitude.nearest_le Nat.one_pos (by rwa [Nat.one_mul])
        (Magnitude.grain_dvd_sub_grain a.onGrid)) (Nat.sub_lt hpos hgrain)
  have hsome : 0 < (signed s a + signed t b).natAbs →
      0 < Magnitude.nearest (signed s a + signed t b).natAbs 1 := Magnitude.nearest_pos
  cases s <;> cases t <;> simp only [signed, Bool.false_eq_true, if_false, if_true] at * <;>
    split at hrank <;> omega

end Number
end BrowserFlow
