import BrowserFlow.Proofs.Json.Scalars
import BrowserFlow.Proofs.Number.Integers

/-!
The text of a number. Two numbers are equal when they are the same but for the sign of zero and are
not both meaningless (`Number.equal_iff`). The text of a finite number denotes the number, zero
without its sign (`Number.ofText?_toText`), so that texts tell apart what is not equal. The text of
a natural number below 2 to the power of 53 is its decimal digits (`Number.toText_ofNat`): on a grid
of integers no other decimal reads back as the number, and the grids that are coarser than one are
searched before the finer ones (`Magnitude.le_exponent_shortest`).
-/

set_option autoImplicit false
set_option relaxedAutoImplicit false

namespace BrowserFlow

/-! ### The text denotes the number -/

namespace NumberParts

variable {parts : NumberParts} {u : CodeUnit}

theorem IsProper.mem (h : parts.IsProper) (hu : u ∈ parts.units) :
    u.isDigit = true ∨ u ∈ [CodeUnit.ofChar '.', CodeUnit.ofChar 'e', CodeUnit.ofChar '-',
      CodeUnit.ofChar '+'] := by
  have hfraction : u ∈ fractionUnits parts.fraction → u.isDigit = true ∨ u = '.' := by
    unfold fractionUnits
    split
    · exact fun hnone ↦ absurd hnone List.not_mem_nil
    · intro hmem
      rcases List.mem_cons.mp hmem with rfl | hmem
      · exact .inr rfl
      · exact .inl (h.fraction u hmem)
  have hpower : u ∈ powerUnits parts.power → u.isDigit = true ∨ u = 'e' ∨ u = '-' ∨ u = '+' := by
    cases hsome : parts.power with
    | none => exact fun hnone ↦ absurd hnone List.not_mem_nil
    | some power =>
      obtain ⟨negative, digits⟩ := power
      intro hmem
      rcases List.mem_cons.mp hmem with rfl | hmem
      · exact .inr (.inl rfl)
      · rcases List.mem_cons.mp hmem with rfl | hmem
        · cases negative <;> simp
        · exact .inl ((h.power negative digits hsome).2 u hmem)
  rw [units, List.mem_append, List.mem_append] at hu
  simp only [List.mem_cons, List.not_mem_nil, or_false]
  rcases hu with (hwhole | hmem) | hmem
  · exact .inl (h.whole.2 u hwhole)
  · exact (hfraction hmem).imp_right .inl
  · exact (hpower hmem).imp_right .inr

end NumberParts

namespace Number

variable {parts : NumberParts} {x y : Number}

/-- The parts of a number are read as what they say. -/
theorem takeDecimal?_parts (negative : Bool) (h : parts.IsProper) :
    takeDecimal? negative parts.units =
      some (ofDecimal negative parts.decimal.digits parts.decimal.exponent, []) := by
  have hend : Json.EndsNumber [] := fun u hu ↦ absurd hu (by simp)
  have hwhole := Json.takeDigits_parts h hend
  have hpower := Json.endsNumber_power_head parts.power hend
  have hexponent := Json.takeExponent_power h.power hend
  rw [List.append_nil] at hwhole hpower hexponent
  rw [List.append_nil] at hwhole
  have hsome := h.whole.1
  cases hfraction : parts.fraction with
  | nil =>
    have hnone : NumberParts.fractionUnits parts.fraction = [] := by rw [hfraction]; rfl
    rw [hnone, List.nil_append] at hwhole
    cases hunits : NumberParts.powerUnits parts.power with
    | nil =>
      rw [hunits] at hwhole hexponent
      simp [takeDecimal?, hwhole, hexponent, hsome, NumberParts.decimal, hfraction]
    | cons mark others =>
      have hmark : mark ≠ '.' := (hpower mark (by rw [hunits]; rfl)).2
      rw [hunits] at hwhole hexponent
      simp [takeDecimal?, hwhole, hmark, hexponent, hsome, NumberParts.decimal, hfraction]
  | cons u others =>
    have htake : takeDigits (u :: (others ++ NumberParts.powerUnits parts.power)) =
        (u :: others, NumberParts.powerUnits parts.power) := by
      rw [← List.cons_append]
      exact takeDigits_eq (hfraction ▸ h.fraction) fun v hv ↦ (hpower v hv).1
    have hunits : NumberParts.fractionUnits parts.fraction =
        CodeUnit.ofChar '.' :: u :: others := by
      rw [hfraction]
      rfl
    rw [hunits, List.cons_append, List.cons_append] at hwhole
    simp [takeDecimal?, hwhole, htake, hexponent, NumberParts.decimal, hfraction]

/-- The parts of a number, with or without a minus sign before them, denote what they say. -/
theorem ofText?_parts (negative : Bool) (h : parts.IsProper) {t : Text} (hinked : t.Inked)
    (hunits : t.units = (if negative then [CodeUnit.ofChar '-'] else []) ++ parts.units) :
    ofText? t = some (ofDecimal negative parts.decimal.digits parts.decimal.exponent) := by
  obtain ⟨first, rest, hcons, hfirst⟩ := h.exists_cons
  have hne : ∀ other : CodeUnit, other.isDigit = false → first ≠ other := by
    rintro other hother rfl
    exact absurd hfirst (by simp [hother])
  have hword : parts.units ≠ (Text.ofString "Infinity").units := by
    intro heq
    have hletter : (Text.ofString "Infinity").units.head? = some (CodeUnit.ofChar 'I') := by decide
    rw [← heq, hcons] at hletter
    exact hne _ (by decide) (Option.some.inj hletter)
  have hread : unsigned? negative parts.units =
      some (ofDecimal negative parts.decimal.digits parts.decimal.exponent) := by
    rw [unsigned?, if_neg hword, takeDecimal?_parts negative h]
  rw [ofText?, hinked.trim, hunits]
  cases negative with
  | true =>
    rw [if_pos rfl, List.singleton_append]
    dsimp only
    rw [if_pos rfl, hread]
  | false =>
    rw [if_neg Bool.false_ne_true, List.nil_append, hcons]
    dsimp only
    rw [if_neg (hne _ (by decide)), if_neg (hne _ (by decide)), ← hread, hcons]
    cases rest with
    | nil => rfl
    | cons mark digits =>
      -- No base has a mark that can be the second unit of a number.
      have hother : ∀ letter : CodeUnit, letter.isDigit = false →
          letter ∉ [CodeUnit.ofChar '.', CodeUnit.ofChar 'e', CodeUnit.ofChar '-',
            CodeUnit.ofChar '+'] → mark ≠ letter := by
        rintro letter hdigit hletter rfl
        have hmem := h.mem (u := mark) (by rw [hcons]; simp)
        rcases hmem with hmark | hmark
        · exact absurd hmark (by simp [hdigit])
        · exact hletter hmark
      simp [hother 'x' (by decide) (by decide), hother 'X' (by decide) (by decide),
        hother 'o' (by decide) (by decide), hother 'O' (by decide) (by decide),
        hother 'b' (by decide) (by decide), hother 'B' (by decide) (by decide)]

/-! ### Numbers that are equal -/

theorem zero_eq_finite {size : Magnitude} (h : size.units = 0) :
    zero false = .finite false size := by
  have hexact := ofQuotient_mul false size 1 Nat.one_pos
  rw [h, Nat.zero_mul] at hexact
  exact hexact

@[simp]
theorem plain_nan : plain .nan = .nan := rfl

@[simp]
theorem plain_infinite (negative : Bool) : plain (.infinite negative) = .infinite negative := rfl

theorem plain_of_units_eq_zero (negative : Bool) {size : Magnitude} (h : size.units = 0) :
    plain (.finite negative size) = zero false := by
  rw [plain, if_pos (by simp [isZero, h])]

theorem plain_of_units_ne_zero (negative : Bool) {size : Magnitude} (h : size.units ≠ 0) :
    plain (.finite negative size) = .finite negative size := by
  rw [plain, if_neg (by simpa [isZero] using h)]

theorem plain_plain (x : Number) : x.plain.plain = x.plain := by
  cases x with
  | nan | infinite => rfl
  | finite negative size =>
    by_cases hzero : size.units = 0
    · rw [plain_of_units_eq_zero negative hzero, zero_eq_finite hzero,
        plain_of_units_eq_zero false hzero, zero_eq_finite hzero]
    · rw [plain_of_units_ne_zero negative hzero, plain_of_units_ne_zero negative hzero]

/-- The plain form of a finite number has the same units, and no sign when there are none. -/
theorem exists_plain_finite (negative : Bool) (size : Magnitude) :
    ∃ s a, plain (.finite negative size) = .finite s a ∧ signed s a = signed negative size ∧
      (a.units = 0 → s = false) := by
  by_cases hzero : size.units = 0
  · have hplain := (plain_of_units_eq_zero negative hzero).trans (zero_eq_finite hzero)
    refine ⟨false, size, hplain, ?_, fun _ ↦ rfl⟩
    cases negative <;> simp [signed, hzero]
  · exact ⟨negative, size, plain_of_units_ne_zero negative hzero, rfl, fun h ↦ absurd h hzero⟩

/-- Finite numbers that have a sign only with units are told apart by their units. -/
theorem finite_eq_iff_signed {s t : Bool} {a b : Magnitude} (ha : a.units = 0 → s = false)
    (hb : b.units = 0 → t = false) :
    (finite s a = finite t b) ↔ signed s a = signed t b := by
  constructor
  · intro heq
    obtain ⟨rfl, rfl⟩ := Number.finite.inj heq
    rfl
  · intro hsigned
    have hunits : a.units = b.units := by rw [← natAbs_signed s a, hsigned, natAbs_signed t b]
    have hsize : a = b := by
      cases a
      cases b
      cases hunits
      rfl
    subst hsize
    cases s <;> cases t <;> simp_all [signed]

/-- Two numbers are equal when they are the same but for the sign of zero and are not both
meaningless. -/
theorem equal_iff : x.equal y = true ↔ x.plain = y.plain ∧ ¬(x = .nan ∧ y = .nan) := by
  cases x with
  | nan =>
    cases y with
    | nan => simp [equal, compare?]
    | infinite => simp [equal, compare?]
    | finite t b =>
      obtain ⟨t', b', hplain, -⟩ := exists_plain_finite t b
      simp [equal, compare?, hplain]
  | infinite s =>
    cases y with
    | nan => simp [equal, compare?]
    | infinite t => cases s <;> cases t <;> simp [equal, compare?]
    | finite t b =>
      obtain ⟨t', b', hplain, -⟩ := exists_plain_finite t b
      rw [hplain]
      cases s <;> simp [equal, compare?]
  | finite s a =>
    obtain ⟨s', a', hx, hsx, hzero⟩ := exists_plain_finite s a
    rw [hx]
    cases y with
    | nan => simp [equal, compare?]
    | infinite t => cases t <;> simp [equal, compare?]
    | finite t b =>
      obtain ⟨t', b', hy, hsy, hnone⟩ := exists_plain_finite t b
      rw [hy, finite_eq_iff_signed hzero hnone, hsx, hsy]
      simp only [equal, compare?, beq_iff_eq, Option.some.injEq, reduceCtorEq, false_and,
        not_false_eq_true, and_true]
      exact compare_eq_iff_eq

/-- The text of a finite number denotes the number, zero without its sign. -/
theorem ofText?_toText (h : x.isFinite = true) : ofText? x.toText = some x.plain := by
  obtain ⟨negative, size, rfl⟩ := exists_of_isFinite h
  by_cases hzero : size.units = 0
  · have hdigits : IsDigits (("0" : String) : Text).units := by decide
    have hvalue : digitsValue 10 (("0" : String) : Text).units = 0 := by decide
    rw [toText, if_pos hzero, plain_of_units_eq_zero negative hzero]
    change ofText? ⟨(("0" : String) : Text).units⟩ = _
    rw [ofText?_digits hdigits, hvalue, ofDecimal, if_pos rfl]
  · obtain ⟨parts, hproper, hlayOut, hread⟩ := exists_parts_shortest negative hzero
    have hunits : (toText (.finite negative size)).units =
        (if negative then [CodeUnit.ofChar '-'] else []) ++ parts.units := by
      rw [toText, if_neg hzero, Text.units_append, hlayOut]
      cases negative <;> rfl
    rw [plain_of_units_ne_zero negative hzero,
      ofText?_parts negative hproper (toText_inked _) hunits, hread]

/-- Zero has the same text with and without a sign. -/
theorem toText_plain (x : Number) : x.plain.toText = x.toText := by
  cases x with
  | nan | infinite => rfl
  | finite negative size =>
    by_cases hzero : size.units = 0
    · rw [plain_of_units_eq_zero negative hzero, zero_eq_finite hzero, toText, toText,
        if_pos hzero, if_pos hzero]
    · rw [plain_of_units_ne_zero negative hzero]

end Number

/-! ### The text of a natural number -/

namespace Magnitude

variable {units : Nat} {d : Decimal}

/-- Where a grid holds a decimal that reads back, the shortest decimal is on it or on a coarser
one. -/
theorem le_exponent_shortest {more : Nat} (hmore : more < 17)
    (h : nearestOn? units (scale units - (more + 1 : Nat)) = some d) :
    scale units - (more + 1 : Nat) ≤ (shortest units).exponent := by
  have hfound : ((List.range 17).findSome?
      fun more ↦ nearestOn? units (scale units - (more + 1 : Nat))).isSome = true :=
    List.findSome?_isSome_iff.mpr ⟨more, List.mem_range.mpr hmore, by rw [h]; rfl⟩
  obtain ⟨found, hfound⟩ := Option.isSome_iff_exists.mp hfound
  obtain ⟨before, first, behind, hrange, hfirst, hnone⟩ := List.findSome?_eq_some_iff.mp hfound
  have hless : first ≤ more := by
    have hmem : more ∈ before ++ first :: behind := hrange ▸ List.mem_range.mpr hmore
    have hsorted := @List.pairwise_lt_range 17
    rw [hrange] at hsorted
    rcases List.mem_append.mp hmem with hbefore | hrest
    · rw [hnone more hbefore] at h
      cases h
    · rcases List.mem_cons.mp hrest with rfl | hbehind
      · exact le_rfl
      · have hpairs := (List.pairwise_append.mp hsorted).2.1
        exact Nat.le_of_lt (List.rel_of_pairwise_cons hpairs hbehind)
  have hshortest : shortest units = found.stripped := by
    simp only [shortest, hfound, Option.getD_some]
  have hexponent := (nearestOn?_spec hfirst).2
  have hstripped := found.stripped_spec.2
  rw [hshortest]
  omega

variable {n : Nat}

theorem mul_one_mul_pow_div (n places : Nat) :
    n * one * Nat.pow 10 places / one = n * 10 ^ places := by
  rw [Nat.mul_right_comm, Nat.mul_div_cancel _ one_pos]
  rfl

/-- A positive number with no more than seventeen digits has, with zeros behind them, at least one
digit more than zeros and at most seventeen. -/
theorem length_repr_mul_pow (hpos : 0 < n) (h : n < 10 ^ 17) (zeros : Nat) (hzeros : 0 < zeros) :
    zeros < (Nat.repr (n * 10 ^ zeros)).length ∧
      (Nat.repr (n * 10 ^ zeros)).length ≤ 17 + zeros := by
  have hlength : ∀ count, 0 < count →
      ((Nat.repr (n * 10 ^ zeros)).length ≤ count ↔ n * 10 ^ zeros < 10 ^ count) := by
    intro count hcount
    rw [← String.length_toList, Nat.toList_repr]
    exact Nat.length_toDigits_le_iff (by omega) hcount
  constructor
  · rw [← Nat.not_le, hlength _ hzeros, Nat.not_lt]
    exact Nat.le_mul_of_pos_left _ hpos
  · rw [hlength _ (by omega), Nat.pow_add]
    exact Nat.mul_lt_mul_of_pos_right h (Nat.pow_pos (by omega))

/-- The digits of such a number begin between the first and the seventeenth place. -/
theorem scale_mul_one (hpos : 0 < n) (h : n < 10 ^ 17) :
    0 < scale (n * one) ∧ scale (n * one) ≤ 17 := by
  obtain ⟨places, hplaces⟩ : ∃ places, places = 330 := ⟨330, rfl⟩
  have hlength := length_repr_mul_pow hpos h places (by omega)
  rw [scale, ← hplaces, mul_one_mul_pow_div]
  omega

/-- Natural numbers below 2 to the power of 53 are no further apart than one. -/
theorem grain_mul_one_le (h : n < 2 ^ 53) : grain (n * one) ≤ one := by
  obtain ⟨places, hplaces, hone, -⟩ := exists_places
  by_cases hzero : n = 0
  · rw [hzero, Nat.zero_mul]
    exact one_pos
  · have hlog : (n * one).log2 < 53 + places := by
      rw [Nat.log2_lt (Nat.mul_ne_zero hzero (Nat.ne_of_gt one_pos)), Nat.pow_add, ← hone]
      exact Nat.mul_lt_mul_of_pos_right h one_pos
    rw [grain, Nat.pow_eq]
    calc 2 ^ ((n * one).log2 - 52) ≤ 2 ^ places := Nat.pow_le_pow_right (by omega) (by omega)
      _ = one := hone.symm

/-- A decimal without places behind the point that reads back as a natural number below 2 to the
power of 53 is worth this number. -/
theorem eq_of_within_mul_one (h : n < 2 ^ 53) (hexponent : 0 ≤ d.exponent)
    (hwithin : Within (n * one) d.worth) : d.digits * 10 ^ d.exponent.toNat = n := by
  have hgrain : (grain (n * one) : ℚ) ≤ one := by exact_mod_cast grain_mul_one_le h
  have hbelow : (grainBelow (n * one) : ℚ) ≤ grain (n * one) := by
    exact_mod_cast grainBelow_le (n * one)
  obtain ⟨hlow, hhigh, -⟩ := hwithin
  have hworth := Decimal.worth_of_nonneg hexponent
  rw [Nat.pow_eq] at hworth
  rw [hworth] at hlow hhigh
  have hone := one_pos_rat
  push_cast at hlow hhigh
  have hlow' : (2 * n : ℚ) ≤ 2 * (d.digits * 10 ^ d.exponent.toNat) + 1 := by
    refine le_of_mul_le_mul_right ?_ hone
    linarith
  have hhigh' : (2 * (d.digits * 10 ^ d.exponent.toNat) : ℚ) ≤ 2 * n + 1 := by
    refine le_of_mul_le_mul_right ?_ hone
    linarith
  have hlowNat : 2 * n ≤ 2 * (d.digits * 10 ^ d.exponent.toNat) + 1 := by exact_mod_cast hlow'
  have hhighNat : 2 * (d.digits * 10 ^ d.exponent.toNat) ≤ 2 * n + 1 := by exact_mod_cast hhigh'
  omega

theorem floorOn_mul_one (n : Nat) : floorOn (n * one) 0 = ⟨n, 0⟩ := by
  rw [floorOn, if_pos le_rfl, Int.toNat_zero, Nat.pow_eq, Nat.pow_zero, Nat.one_mul,
    Nat.mul_div_cancel _ one_pos]

/-- A natural number is on the grid of the integers. -/
theorem readsAs_floorOn_mul_one (hunits : 0 < n * one) (hgrid : grain (n * one) ∣ n * one) :
    readsAs (n * one) (floorOn (n * one) 0) = true := by
  have hworth : Decimal.worth ⟨n, 0⟩ = (n * one : Nat) := by
    rw [Decimal.worth, zpow_zero, mul_one, Nat.cast_mul]
  have hbelow : (0 : ℚ) < grainBelow (n * one) := by exact_mod_cast grainBelow_pos (n * one)
  have hgrain : (grainBelow (n * one) : ℚ) ≤ grain (n * one) := by
    exact_mod_cast grainBelow_le (n * one)
  rw [floorOn_mul_one, readsAs_iff hunits hgrid, hworth]
  exact .of_lt (by linarith) (by linarith)

/-- The shortest decimal of a positive natural number below 2 to the power of 53 has no places
behind the point and is worth exactly this number. -/
theorem shortest_mul_one (hpos : 0 < n) (h : n < 2 ^ 53) :
    0 ≤ (shortest (n * one)).exponent ∧
      (shortest (n * one)).digits * 10 ^ (shortest (n * one)).exponent.toNat = n := by
  obtain ⟨size, hsize⟩ := exists_units (Nat.le_of_lt h)
  have hgrid : grain (n * one) ∣ n * one := hsize ▸ size.onGrid
  have hunits : 0 < n * one := Nat.mul_pos hpos one_pos
  obtain ⟨hfirst, hlast⟩ := scale_mul_one hpos (Nat.lt_trans h (by decide))
  -- The number itself is on the grid of the integers, which is among those that are searched.
  obtain ⟨d, hd⟩ := exists_nearestOn?_of_readsAs (.inl (readsAs_floorOn_mul_one hunits hgrid))
  have hplace : scale (n * one) - (((scale (n * one)).toNat - 1 + 1 : Nat) : Int) = 0 := by omega
  have hexponent : 0 ≤ (shortest (n * one)).exponent := by
    have hgrid : nearestOn? (n * one) (scale (n * one) - ((scale (n * one)).toNat - 1 + 1 : Nat)) =
        some d := by rw [hplace, hd]
    have hle := le_exponent_shortest (by omega) hgrid
    omega
  exact ⟨hexponent, eq_of_within_mul_one h hexponent (shortest_spec hunits hgrid).1⟩

end Magnitude

namespace Number

/-- Zeros behind the digits of a number are a power of ten. -/
theorem units_ofNat_mul_pow {n : Nat} (hpos : 0 < n) (zeros : Nat) :
    (Text.ofNat n).units ++ List.replicate zeros (CodeUnit.ofChar '0') =
      (Text.ofNat (n * 10 ^ zeros)).units := by
  induction zeros with
  | zero => simp
  | succ zeros ih =>
    have hmore : 0 < n * 10 ^ zeros := Nat.mul_pos hpos (Nat.pow_pos (by omega))
    have hdigits := Nat.toDigits_append_toDigits (b := 10) (d := 0) (by omega) hmore (by omega)
    have hnext : n * 10 ^ (zeros + 1) = 10 * (n * 10 ^ zeros) + 0 := by
      rw [Nat.pow_succ]
      ring
    rw [List.replicate_succ', ← List.append_assoc, ih, hnext, Text.units_ofNat, Text.units_ofNat,
      ← hdigits, List.map_append]
    rfl

/-- A decimal without places behind the point is written as the digits of what it is worth, if they
are not too many. -/
theorem layOut_eq_ofNat {d : Magnitude.Decimal} {n : Nat} (hpos : 0 < d.digits)
    (hexponent : 0 ≤ d.exponent) (hvalue : d.digits * 10 ^ d.exponent.toNat = n)
    (hfew : (Text.ofNat n).units.length ≤ 21) : layOut d = Text.ofNat n := by
  have hunits := units_ofNat_mul_pow hpos d.exponent.toNat
  rw [hvalue] at hunits
  have hlength := congrArg List.length hunits
  rw [List.length_append, List.length_replicate] at hlength
  have hwhole : ((Text.ofNat d.digits).length : Int) ≤ d.exponent + (Text.ofNat d.digits).length ∧
      d.exponent + (Text.ofNat d.digits).length ≤ 21 := by
    rw [Text.length]
    omega
  have htext : Text.ofNat d.digits ++ Text.repeated d.exponent.toNat "0" = Text.ofNat n := by
    rw [← units_repeated_zero] at hunits
    exact congrArg Text.mk hunits
  rw [layOut]
  dsimp only
  rw [if_pos hwhole, Int.add_sub_cancel, htext]

theorem ofNat_eq_finite {size : Magnitude} {n : Nat} (h : size.units = n * Magnitude.one) :
    ofNat n = .finite false size := by
  have hexact := ofQuotient_mul false size 1 Nat.one_pos
  rw [Nat.mul_one, h] at hexact
  rw [ofNat, ofInt, Int.natAbs_natCast, decide_eq_false (by omega), hexact]

/-- The text of a natural number below 2 to the power of 53 is its decimal digits. -/
theorem toText_ofNat {n : Nat} (h : n < 2 ^ 53) : (ofNat n).toText = Text.ofNat n := by
  obtain ⟨size, hsize⟩ := Magnitude.exists_units (Nat.le_of_lt h)
  rw [ofNat_eq_finite hsize]
  by_cases hzero : n = 0
  · rw [toText, if_pos (by rw [hsize, hzero, Nat.zero_mul]), hzero]
    decide
  · have hne : size.units ≠ 0 := by
      rw [hsize]
      exact Nat.mul_ne_zero hzero (Nat.ne_of_gt Magnitude.one_pos)
    obtain ⟨hexponent, hvalue⟩ := Magnitude.shortest_mul_one (Nat.pos_of_ne_zero hzero) h
    rw [← hsize] at hexponent hvalue
    have hfew : (Text.ofNat n).units.length ≤ 21 := by
      rw [length_ofNat, ← String.length_toList, Nat.toList_repr,
        Nat.length_toDigits_le_iff (by omega) (by omega)]
      exact Nat.lt_trans h (by decide)
    have hpos := Nat.pos_of_ne_zero (digits_shortest_ne_zero hne)
    rw [toText, if_neg hne, if_neg Bool.false_ne_true, layOut_eq_ofNat hpos hexponent hvalue hfew]
    rfl

end Number

end BrowserFlow
