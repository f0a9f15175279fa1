import BrowserFlow.Proofs.Number.Numeral
import BrowserFlow.Proofs.Number.Shortest

/-!
The written form of a number, taken apart. It has a whole part, perhaps a fraction
behind a point, and perhaps a power of ten behind a letter
(`NumberParts`). Whichever of the four ways a decimal is laid out in, the parts
say a decimal that is worth the same (`Number.exists_parts`). So whoever reads the
parts of the written form of a magnitude reads the magnitude
(`Number.exists_parts_shortest`).
-/

set_option autoImplicit false
set_option relaxedAutoImplicit false

namespace BrowserFlow

/-- The parts of a written number without its sign. -/
structure NumberParts where
  /-- The digits before the point. -/
  whole : List CodeUnit
  /-- The digits behind the point; without any there is no point. -/
  fraction : List CodeUnit
  /-- The power of ten behind the letter: whether it is negative, and its digits. -/
  power : Option (Bool × List CodeUnit)

namespace NumberParts

/-- The units of a power of ten. -/
def powerUnits : Option (Bool × List CodeUnit) → List CodeUnit
  | none => []
  | some (negative, digits) =>
    CodeUnit.ofChar 'e' :: (if negative then CodeUnit.ofChar '-' else CodeUnit.ofChar '+') :: digits

/-- The value of a power of ten. -/
def powerValue : Option (Bool × List CodeUnit) → Int
  | none => 0
  | some (negative, digits) =>
    if negative then -(Number.digitsValue 10 digits : Int) else Number.digitsValue 10 digits

/-- The units of a fraction. -/
def fractionUnits (fraction : List CodeUnit) : List CodeUnit :=
  if fraction = [] then [] else CodeUnit.ofChar '.' :: fraction

/-- The units of the parts. -/
def units (parts : NumberParts) : List CodeUnit :=
  parts.whole ++ fractionUnits parts.fraction ++ powerUnits parts.power

/-- The decimal that the parts say. -/
def decimal (parts : NumberParts) : Magnitude.Decimal :=
  ⟨Number.digitsValue 10 (parts.whole ++ parts.fraction),
    powerValue parts.power - parts.fraction.length⟩

/-- Parts that are made of digits, with a leading zero only where nothing follows it. -/
structure IsProper (parts : NumberParts) : Prop where
  /-- There are digits before the point. -/
  whole : IsDigits parts.whole
  /-- No digit stands behind a leading zero. -/
  leading : parts.whole = [CodeUnit.ofChar '0'] ∨ parts.whole.head? ≠ some (CodeUnit.ofChar '0')
  /-- There are only digits behind the point. -/
  fraction : ∀ u ∈ parts.fraction, u.isDigit = true
  /-- A power has digits. -/
  power : ∀ negative digits, parts.power = some (negative, digits) → IsDigits digits

/-- The parts begin with a digit. -/
theorem IsProper.exists_cons {parts : NumberParts} (h : parts.IsProper) :
    ∃ u others, parts.units = u :: others ∧ u.isDigit = true := by
  obtain ⟨u, others, hcons, hu⟩ := h.whole.exists_cons
  refine ⟨u, others ++ (fractionUnits parts.fraction ++ powerUnits parts.power), ?_, hu⟩
  rw [units, hcons, List.append_assoc, List.cons_append]

end NumberParts

namespace Number

/-! ### Digits of a natural number -/

theorem valueInBase?_of_isDigit {u : CodeUnit} (h : u.isDigit = true) :
    u.valueInBase? 10 = some u.digitValue := by
  have hbounds := (CodeUnit.isDigit_iff u).mp h
  rw [CodeUnit.valueInBase?, if_pos h, if_pos (by omega), CodeUnit.digitValue]

theorem isDigits_ofNat (n : Nat) : IsDigits (Text.ofNat n).units :=
  ⟨Text.ofNat_units_ne_nil n, fun _ hu ↦ Text.isDigit_of_mem_ofNat hu⟩

/-- The digits of a natural number have its value. -/
theorem digitsValue_ofNat (n : Nat) : digitsValue 10 (Text.ofNat n).units = n := by
  have hfold : ∀ (digits : List CodeUnit) (init : Nat), (∀ u ∈ digits, u.isDigit = true) →
      digits.foldl (fun value u ↦ value * 10 + (u.valueInBase? 10).getD 0) init =
        digits.foldl (fun value u ↦ value * 10 + u.digitValue) init := by
    intro digits
    induction digits with
    | nil => exact fun _ _ ↦ rfl
    | cons u rest ih =>
      intro init hdigits
      obtain ⟨hu, hrest⟩ := List.forall_mem_cons.mp hdigits
      rw [List.foldl_cons, List.foldl_cons, valueInBase?_of_isDigit hu, ih _ hrest]
      rfl
  rw [digitsValue, hfold _ _ (isDigits_ofNat n).2, Text.foldl_digits]

theorem digitsValue_cons (u : CodeUnit) (rest : List CodeUnit) :
    digitsValue 10 (u :: rest) = digitsValue 10 [u] * 10 ^ rest.length + digitsValue 10 rest :=
  digitsValue_append [u] rest

theorem digitsValue_lt (digits : List CodeUnit) (h : ∀ u ∈ digits, u.isDigit = true) :
    digitsValue 10 digits < 10 ^ digits.length := by
  induction digits with
  | nil => exact Nat.one_pos
  | cons u rest ih =>
    obtain ⟨hu, hrest⟩ := List.forall_mem_cons.mp h
    have hvalue : digitsValue 10 [u] ≤ 9 := by
      have hbounds := (CodeUnit.isDigit_iff u).mp hu
      have hdigit : digitsValue 10 [u] = u.digitValue := by
        simp [digitsValue, valueInBase?_of_isDigit hu]
      rw [hdigit, CodeUnit.digitValue]
      omega
    have hmul := Nat.mul_le_mul_right (10 ^ rest.length) hvalue
    have hrestValue := ih hrest
    rw [digitsValue_cons, List.length_cons, Nat.pow_succ]
    omega

theorem digitsValue_zeros (count : Nat) :
    digitsValue 10 (List.replicate count (CodeUnit.ofChar '0')) = 0 := by
  induction count with
  | zero => rfl
  | succ count ih =>
    have hzero : digitsValue 10 [CodeUnit.ofChar '0'] = 0 := rfl
    rw [List.replicate_succ, digitsValue_cons, ih, hzero, Nat.zero_mul]

theorem length_ofNat (n : Nat) : (Text.ofNat n).units.length = (Nat.repr n).length := by
  rw [Text.units_ofNat, List.length_map, ← String.length_toList, Nat.toList_repr]

/-- The digits of a positive number do not begin with a zero. -/
theorem head?_ofNat_ne_zero {n : Nat} (h : n ≠ 0) :
    (Text.ofNat n).units.head? ≠ some (CodeUnit.ofChar '0') := by
  intro hhead
  obtain ⟨rest, hrest⟩ := List.head?_eq_some_iff.mp hhead
  have hdigits : ∀ u ∈ rest, u.isDigit = true := fun u hu ↦
    (isDigits_ofNat n).2 u (hrest ▸ List.mem_cons_of_mem _ hu)
  have hvalue : n = digitsValue 10 rest := by
    have hzero : digitsValue 10 [CodeUnit.ofChar '0'] = 0 := rfl
    rw [← digitsValue_ofNat n, hrest, digitsValue_cons, hzero, Nat.zero_mul, Nat.zero_add]
  have hlength : (Nat.repr n).length - 1 = rest.length := by
    rw [← length_ofNat, hrest, List.length_cons, Nat.add_sub_cancel]
  have hlow := Magnitude.pow_le_of_length_repr (Nat.pos_of_ne_zero h)
  have hhigh := digitsValue_lt rest hdigits
  rw [hlength] at hlow
  omega

/-- Digits that say a number without a zero in front. -/
structure Says (digits : List CodeUnit) (n : Nat) : Prop where
  /-- They are digits. -/
  isDigits : IsDigits digits
  /-- They do not begin with a zero. -/
  head : digits.head? ≠ some (CodeUnit.ofChar '0')
  /-- Their value is the number. -/
  value : digitsValue 10 digits = n

theorem says_ofNat {n : Nat} (h : n ≠ 0) : Says (Text.ofNat n).units n :=
  ⟨isDigits_ofNat n, head?_ofNat_ne_zero h, digitsValue_ofNat n⟩

/-! ### The four ways to lay a decimal out -/

section Layout

open Magnitude (Decimal)

variable {d : Decimal} {digits : List CodeUnit}

theorem units_repeated_zero (count : Nat) :
    (Text.repeated count "0").units = List.replicate count (CodeUnit.ofChar '0') := by
  have hzero : (("0" : String) : Text).units = [CodeUnit.ofChar '0'] := by decide
  change (List.replicate count (("0" : String) : Text)).flatMap Text.units = _
  rw [List.flatMap_replicate, hzero]
  exact List.flatten_replicate_singleton

theorem isDigit_zeros (count : Nat) :
    ∀ u ∈ List.replicate count (CodeUnit.ofChar '0'), u.isDigit = true := by
  intro u hu
  rw [List.eq_of_mem_replicate hu]
  decide

/-- The first digits are a whole part. -/
theorem Says.take {n count : Nat} (h : Says digits n) (hcount : 0 < count) :
    IsDigits (digits.take count) ∧ (digits.take count).head? ≠ some (CodeUnit.ofChar '0') := by
  refine ⟨⟨?_, fun u hu ↦ h.isDigits.2 u (List.mem_of_mem_take hu)⟩, ?_⟩
  · rw [Ne, List.take_eq_nil_iff, not_or]
    exact ⟨Nat.ne_of_gt hcount, h.isDigits.1⟩
  · rw [List.head?_take, if_neg (Nat.ne_of_gt hcount)]
    exact h.head

/-- An integer that is written out: zeros behind its digits. -/
theorem exists_parts_integer (h : Says digits d.digits) (hexponent : 0 ≤ d.exponent) :
    ∃ parts : NumberParts, parts.IsProper ∧
      ((⟨digits⟩ : Text) ++ Text.repeated d.exponent.toNat "0").units = parts.units ∧
      parts.decimal.worth = d.worth ∧ min 0 d.exponent ≤ parts.decimal.exponent := by
  refine ⟨⟨digits ++ List.replicate d.exponent.toNat (CodeUnit.ofChar '0'), [], none⟩,
    ⟨⟨?_, ?_⟩, .inr ?_, ?_, ?_⟩, ?_, ?_, ?_⟩
  · simp [h.isDigits.1]
  · exact List.forall_mem_append.mpr ⟨h.isDigits.2, isDigit_zeros _⟩
  · dsimp only
    rw [List.head?_append_of_ne_nil _ h.isDigits.1]
    exact h.head
  · simp
  · simp
  · rw [Text.units_append, units_repeated_zero]
    simp [NumberParts.units, NumberParts.fractionUnits, NumberParts.powerUnits]
  · have hvalue : digitsValue 10 (digits ++
        List.replicate d.exponent.toNat (CodeUnit.ofChar '0') ++ [])
        = d.digits * 10 ^ d.exponent.toNat := by
      rw [List.append_nil, digitsValue_append, digitsValue_zeros, h.value,
        List.length_replicate, Nat.add_zero]
    have hpow : (10 : ℚ) ^ d.exponent = 10 ^ d.exponent.toNat := by
      rw [← zpow_natCast, Int.toNat_of_nonneg hexponent]
    simp only [NumberParts.decimal, NumberParts.powerValue, Decimal.worth, hvalue, hpow]
    rw [Nat.cast_mul, Nat.cast_pow, Nat.cast_ofNat, List.length_nil, Int.ofNat_zero, sub_zero,
      zpow_zero, mul_one]
  · simp [NumberParts.decimal, NumberParts.powerValue]

/-- A point between the digits. -/
theorem exists_parts_pointed (h : Says digits d.digits) {place : Nat} (hplace : 0 < place)
    (hless : place < digits.length) (hexponent : d.exponent = (place : Int) - digits.length) :
    ∃ parts : NumberParts, parts.IsProper ∧
      ((⟨digits.take place⟩ : Text) ++ "." ++ ⟨digits.drop place⟩).units = parts.units ∧
      parts.decimal = d := by
  obtain ⟨hwhole, hhead⟩ := h.take hplace
  have hsome : digits.drop place ≠ [] := by
    rw [Ne, List.drop_eq_nil_iff]
    exact Nat.not_le_of_lt hless
  refine ⟨⟨digits.take place, digits.drop place, none⟩, ⟨hwhole, .inr hhead,
    fun u hu ↦ h.isDigits.2 u (List.mem_of_mem_drop hu), by simp⟩, ?_, ?_⟩
  · have hpoint : (("." : String) : Text).units = [CodeUnit.ofChar '.'] := by decide
    simp [NumberParts.units, NumberParts.fractionUnits, NumberParts.powerUnits, hsome, hpoint]
  · have hplaces : (0 : Int) - (digits.drop place).length = d.exponent := by
      rw [List.length_drop]
      omega
    simp only [NumberParts.decimal, NumberParts.powerValue, List.take_append_drop, h.value,
      hplaces]

/-- Zeros before the digits. -/
theorem exists_parts_small (h : Says digits d.digits) {zeros : Nat}
    (hexponent : d.exponent = -(zeros + digits.length : Nat)) :
    ∃ parts : NumberParts, parts.IsProper ∧
      ("0." ++ Text.repeated zeros "0" ++ (⟨digits⟩ : Text)).units = parts.units ∧
      parts.decimal = d := by
  refine ⟨⟨[CodeUnit.ofChar '0'], List.replicate zeros (CodeUnit.ofChar '0') ++ digits, none⟩,
    ⟨?_, .inl rfl, List.forall_mem_append.mpr ⟨isDigit_zeros _, h.isDigits.2⟩, by simp⟩, ?_, ?_⟩
  · change IsDigits [CodeUnit.ofChar '0']
    decide
  · have hpoint : (("0." : String) : Text).units = [CodeUnit.ofChar '0', CodeUnit.ofChar '.'] := by
      decide
    simp [NumberParts.units, NumberParts.fractionUnits, NumberParts.powerUnits, hpoint,
      units_repeated_zero, h.isDigits.1]
  · have hzero : digitsValue 10 [CodeUnit.ofChar '0'] = 0 := rfl
    have hvalue : digitsValue 10 ([CodeUnit.ofChar '0'] ++
        (List.replicate zeros (CodeUnit.ofChar '0') ++ digits)) = d.digits := by
      rw [digitsValue_append, hzero, digitsValue_append, digitsValue_zeros, h.value]
      omega
    have hplaces : (0 : Int) - (List.replicate zeros (CodeUnit.ofChar '0') ++ digits).length
        = d.exponent := by
      rw [List.length_append, List.length_replicate]
      omega
    simp only [NumberParts.decimal, NumberParts.powerValue, hvalue, hplaces]

/-- One digit before the point, and a power of ten. -/
theorem exists_parts_power (h : Says digits d.digits) {power : Int}
    (hpower : power = d.exponent + digits.length - 1) :
    ∃ parts : NumberParts, parts.IsProper ∧
      ((if digits.length = 1 then (⟨digits⟩ : Text)
        else (⟨digits.take 1⟩ : Text) ++ "." ++ ⟨digits.drop 1⟩) ++ "e" ++
          (if power < 0 then "-" else "+" : Text) ++ Text.ofNat power.natAbs).units
        = parts.units ∧ parts.decimal = d := by
  obtain ⟨hwhole, hhead⟩ := h.take Nat.one_pos
  have hcount : 0 < digits.length := List.length_pos_iff.mpr h.isDigits.1
  refine ⟨⟨digits.take 1, digits.drop 1,
    some (decide (power < 0), (Text.ofNat power.natAbs).units)⟩, ⟨hwhole, .inr hhead,
      fun u hu ↦ h.isDigits.2 u (List.mem_of_mem_drop hu), ?_⟩, ?_, ?_⟩
  · intro negative exponent heq
    obtain ⟨-, rfl⟩ := Prod.mk.inj (Option.some.inj heq)
    exact isDigits_ofNat _
  · have hsign : (if power < 0 then "-" else "+" : Text).units =
        [if power < 0 then CodeUnit.ofChar '-' else CodeUnit.ofChar '+'] := by
      split <;> decide
    have hletter : (("e" : String) : Text).units = [CodeUnit.ofChar 'e'] := by decide
    have hpoint : (("." : String) : Text).units = [CodeUnit.ofChar '.'] := by decide
    have hmantissa : (if digits.length = 1 then (⟨digits⟩ : Text)
        else (⟨digits.take 1⟩ : Text) ++ "." ++ ⟨digits.drop 1⟩).units =
        digits.take 1 ++ NumberParts.fractionUnits (digits.drop 1) := by
      split
      · next hone =>
        rw [List.drop_eq_nil_of_le (Nat.le_of_eq hone), List.take_of_length_le (Nat.le_of_eq hone)]
        simp [NumberParts.fractionUnits]
      · next hmore =>
        have hsome : digits.drop 1 ≠ [] := by
          rw [Ne, List.drop_eq_nil_iff]
          omega
        rw [NumberParts.fractionUnits, if_neg hsome, Text.units_append, Text.units_append, hpoint,
          List.append_assoc, List.singleton_append]
    rw [Text.units_append, Text.units_append, Text.units_append, hmantissa, hsign, hletter]
    simp [NumberParts.units, NumberParts.powerUnits]
  · have hplaces : power - (digits.drop 1).length = d.exponent := by
      rw [List.length_drop]
      omega
    have hvalue : NumberParts.powerValue
        (some (decide (power < 0), (Text.ofNat power.natAbs).units)) = power := by
      simp only [NumberParts.powerValue, digitsValue_ofNat, decide_eq_true_eq]
      split <;> omega
    simp only [NumberParts.decimal, hvalue, List.take_append_drop, h.value, hplaces]

/-- Whichever way a decimal is laid out, the parts of its text say a decimal that is worth the
same. -/
theorem exists_parts (hdigits : d.digits ≠ 0) :
    ∃ parts : NumberParts, parts.IsProper ∧ (layOut d).units = parts.units ∧
      parts.decimal.worth = d.worth ∧ min 0 d.exponent ≤ parts.decimal.exponent := by
  obtain ⟨digits, htext⟩ : ∃ digits, Text.ofNat d.digits = ⟨digits⟩ := ⟨_, rfl⟩
  have hsays : Says digits d.digits := by
    have := says_ofNat hdigits
    rwa [htext] at this
  have hcount : 0 < digits.length := List.length_pos_iff.mpr hsays.isDigits.1
  have hsame : ∀ {units : List CodeUnit},
      (∃ parts : NumberParts, parts.IsProper ∧ units = parts.units ∧ parts.decimal = d) →
        ∃ parts : NumberParts, parts.IsProper ∧ units = parts.units ∧
          parts.decimal.worth = d.worth ∧ min 0 d.exponent ≤ parts.decimal.exponent := by
    rintro units ⟨parts, hproper, hunits, hdecimal⟩
    exact ⟨parts, hproper, hunits, by rw [hdecimal], by rw [hdecimal]; exact min_le_right _ _⟩
  simp only [layOut, htext, Text.length]
  split
  · next h =>
    have hzeros : (d.exponent + digits.length - digits.length).toNat = d.exponent.toNat := by
      rw [Int.add_sub_cancel]
    rw [hzeros]
    exact exists_parts_integer hsays (by omega)
  · split
    · exact hsame (exists_parts_pointed hsays (by omega) (by omega) (by omega))
    · split
      · exact hsame (exists_parts_small hsays (by omega))
      · exact hsame (exists_parts_power hsays rfl)

end Layout

/-- The parts of the written form of a magnitude say the number of this magnitude. -/
theorem exists_parts_shortest (negative : Bool) {size : Magnitude} (h : size.units ≠ 0) :
    ∃ parts : NumberParts, parts.IsProper ∧
      (layOut (Magnitude.shortest size.units)).units = parts.units ∧
      ofDecimal negative parts.decimal.digits parts.decimal.exponent = .finite negative size := by
  have hunits := Nat.pos_of_ne_zero h
  obtain ⟨hwithin, hscale⟩ := Magnitude.shortest_spec hunits size.onGrid
  obtain ⟨parts, hproper, htext, hworth, hexponent⟩ := exists_parts (digits_shortest_ne_zero h)
  rw [← hworth] at hwithin
  refine ⟨parts, hproper, htext, ofDecimal_of_within negative hunits hwithin ?_⟩
  have hlength := Magnitude.length_repr_pos (size.units * Nat.pow 10 330 / Magnitude.one)
  rw [Magnitude.scale] at hscale
  omega

end Number

end BrowserFlow
