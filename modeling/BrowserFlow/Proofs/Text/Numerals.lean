import BrowserFlow.Number.Decimal
import BrowserFlow.Text.Blank
import Mathlib.Data.List.DropRight

/-!
Digits and white space. The text of a natural number is made of digits that read
back as the number (`foldl_digits`), so different numbers have different texts.
Trimming a text twice is trimming it once (`trim_trim`), and a text without any
white space is left alone; the text of a number is such a text and is never
empty (`Number.toText_inked`, `Number.toText_isEmpty`).
-/

set_option autoImplicit false
set_option relaxedAutoImplicit false

namespace BrowserFlow

/-! ### Digits -/

namespace CodeUnit

/-- The bounds of a decimal digit as a character. -/
theorem bounds_of_isDigit {c : Char} (h : c.isDigit = true) : 48 ≤ c.toNat ∧ c.toNat ≤ 57 := by
  rw [Char.isDigit_iff_toNat] at h
  exact h

theorem toNat_ofChar {c : Char} (h : c.isDigit = true) : (ofChar c).toNat = c.toNat := by
  have hbounds : 48 ≤ c.val.toNat ∧ c.val.toNat ≤ 57 := bounds_of_isDigit h
  change (c.val.toUInt16).toNat = c.val.toNat
  rw [UInt32.toNat_toUInt16]
  exact Nat.mod_eq_of_lt (by omega)

theorem encode_digit {c : Char} (h : c.isDigit = true) : encode c = [ofChar c] := by
  have hbounds := bounds_of_isDigit h
  rw [encode, if_pos (by omega)]

theorem isDigit_iff (u : CodeUnit) : u.isDigit = true ↔ 48 ≤ u.toNat ∧ u.toNat ≤ 57 := by
  simp [isDigit, UInt16.le_iff_toNat_le]

theorem isDigit_ofChar {c : Char} (h : c.isDigit = true) : (ofChar c).isDigit = true := by
  rw [isDigit_iff, toNat_ofChar h]
  exact bounds_of_isDigit h

/-- No digit is blank. -/
theorem isBlank_of_isDigit {u : CodeUnit} (h : u.isDigit = true) : u.isBlank = false := by
  have hbounds := (isDigit_iff u).mp h
  simp only [isBlank, Bool.or_eq_false_iff, Bool.and_eq_false_imp, beq_eq_false_iff_ne,
    decide_eq_true_eq, decide_eq_false_iff_not, UInt16.le_iff_toNat_le, ne_eq, ← UInt16.toNat_inj,
    UInt16.toNat_ofNat]
  omega

end CodeUnit

namespace Text

theorem units_ofNat (n : Nat) : (ofNat n).units = (Nat.toDigits 10 n).map CodeUnit.ofChar := by
  have hencode : ∀ digits : List Char, (∀ c ∈ digits, c.isDigit = true) →
      digits.flatMap CodeUnit.encode = digits.map CodeUnit.ofChar := by
    intro digits hdigits
    induction digits with
    | nil => rfl
    | cons c rest ih =>
      have hrest := ih fun d hd ↦ hdigits d (List.mem_cons_of_mem _ hd)
      rw [List.flatMap_cons, List.map_cons, CodeUnit.encode_digit (hdigits c (by simp)), hrest]
      rfl
  rw [ofNat, ofString, Nat.toList_repr]
  exact hencode _ fun c hc ↦ Nat.isDigit_of_mem_toDigits (by omega) (by omega) hc

theorem isDigit_of_mem_ofNat {n : Nat} {u : CodeUnit} (h : u ∈ (ofNat n).units) :
    u.isDigit = true := by
  rw [units_ofNat] at h
  obtain ⟨c, hc, rfl⟩ := List.mem_map.mp h
  exact CodeUnit.isDigit_ofChar (Nat.isDigit_of_mem_toDigits (by omega) (by omega) hc)

theorem notMem_ofNat {mark : CodeUnit} (hmark : mark.isDigit = false) (n : Nat) :
    mark ∉ (ofNat n).units := by
  intro hmem
  rw [isDigit_of_mem_ofNat hmem] at hmark
  cases hmark

theorem ofNat_units_ne_nil (n : Nat) : (ofNat n).units ≠ [] := by
  rw [units_ofNat]
  simp

/-- The digits of a natural number read back as the number. -/
theorem foldl_digits (n : Nat) :
    (ofNat n).units.foldl (fun value u ↦ value * 10 + u.digitValue) 0 = n := by
  have hfold : ∀ (digits : List Char) (init : Nat), (∀ c ∈ digits, c.isDigit = true) →
      (digits.map CodeUnit.ofChar).foldl (fun value u ↦ value * 10 + u.digitValue) init =
        Nat.ofDigitChars 10 digits init := by
    intro digits
    induction digits with
    | nil => intro init _; rfl
    | cons c rest ih =>
      intro init hdigits
      have hvalue : (CodeUnit.ofChar c).digitValue = c.toNat - '0'.toNat := by
        rw [CodeUnit.digitValue, CodeUnit.toNat_ofChar (hdigits c (by simp))]
        rfl
      rw [List.map_cons, List.foldl_cons, Nat.ofDigitChars_cons, hvalue, Nat.mul_comm init 10]
      exact ih _ fun d hd ↦ hdigits d (List.mem_cons_of_mem _ hd)
  rw [units_ofNat, hfold _ _ fun c hc ↦ Nat.isDigit_of_mem_toDigits (by omega) (by omega) hc]
  exact Nat.ofDigitChars_ten_toDigits

theorem ofNat_injective : Function.Injective ofNat := by
  intro n m h
  rw [← foldl_digits n, ← foldl_digits m, h]

end Text

/-! ### Trimming -/

namespace Text

theorem trimEndUnits_eq (units : List CodeUnit) :
    trimEndUnits units = units.rdropWhile CodeUnit.isBlank := rfl

/-- Trimming a text twice is trimming it once. -/
theorem trim_trim (t : Text) : t.trim.trim = t.trim := by
  have hhead : ∀ units : List CodeUnit,
      ((units.dropWhile CodeUnit.isBlank).rdropWhile CodeUnit.isBlank).dropWhile CodeUnit.isBlank =
        (units.dropWhile CodeUnit.isBlank).rdropWhile CodeUnit.isBlank := by
    intro units
    rw [List.dropWhile_eq_self_iff]
    intro hlength
    -- What is left after the end was cut off still begins with the same unit.
    have hprefix := List.rdropWhile_prefix CodeUnit.isBlank (units.dropWhile CodeUnit.isBlank)
    have hbegin := List.dropWhile_get_zero_not CodeUnit.isBlank units
      (Nat.lt_of_lt_of_le hlength hprefix.length_le)
    have hsame := hprefix.getElem hlength
    rw [hsame]
    exact hbegin
  have hunits : trimEndUnits ((trimEndUnits (t.units.dropWhile CodeUnit.isBlank)).dropWhile
      CodeUnit.isBlank) = trimEndUnits (t.units.dropWhile CodeUnit.isBlank) := by
    rw [trimEndUnits_eq, trimEndUnits_eq, hhead]
    exact List.rdropWhile_idempotent CodeUnit.isBlank _
  exact congrArg Text.mk hunits

/-- A text without any white space. -/
def Inked (t : Text) : Prop := ∀ u ∈ t.units, u.isBlank = false

instance (t : Text) : Decidable t.Inked := List.decidableBAll _ t.units

theorem Inked.trim {t : Text} (h : t.Inked) : t.trim = t := by
  have hfront : t.units.dropWhile CodeUnit.isBlank = t.units := by
    rw [List.dropWhile_eq_self_iff]
    intro hlength
    simpa using h _ (List.getElem_mem hlength)
  have hback : t.units.rdropWhile CodeUnit.isBlank = t.units := by
    rw [List.rdropWhile_eq_self_iff]
    intro hne
    simpa using h _ (List.getLast_mem hne)
  have hunits : trimEndUnits (t.units.dropWhile CodeUnit.isBlank) = t.units := by
    rw [hfront, trimEndUnits_eq, hback]
  exact congrArg Text.mk hunits

theorem Inked.isBlank {t : Text} (h : t.Inked) (hne : t.isEmpty = false) : t.isBlank = false := by
  cases hunits : t.units with
  | nil => simp [Text.isEmpty, hunits] at hne
  | cons u rest => simp [Text.isBlank, hunits, h u (by simp [hunits])]

theorem Inked.append {first second : Text} (hfirst : first.Inked) (hsecond : second.Inked) :
    (first ++ second).Inked := by
  intro u hu
  rcases List.mem_append.mp hu with h | h
  · exact hfirst u h
  · exact hsecond u h

theorem Inked.repeated {t : Text} (h : t.Inked) (count : Nat) : (Text.repeated count t).Inked := by
  intro u hu
  obtain ⟨part, hpart, hu⟩ := List.mem_flatMap.mp hu
  rw [List.eq_of_mem_replicate hpart] at hu
  exact h u hu

theorem Inked.of_sublist {t : Text} (h : t.Inked) {units : List CodeUnit}
    (hsub : units.Sublist t.units) : (Text.mk units).Inked :=
  fun u hu ↦ h u (hsub.subset hu)

theorem inked_ofNat (n : Nat) : (ofNat n).Inked :=
  fun _ hu ↦ CodeUnit.isBlank_of_isDigit (isDigit_of_mem_ofNat hu)

end Text

/-! ### The texts of numbers -/

namespace Number

theorem layOut_inked (d : Magnitude.Decimal) : (layOut d).Inked := by
  have hdigits := Text.inked_ofNat d.digits
  have hzeros : ∀ count, (Text.repeated count "0").Inked :=
    Text.Inked.repeated (t := "0") (by decide)
  have hmantissa : ∀ count : Nat, (if count = 1 then Text.ofNat d.digits else
      ⟨(Text.ofNat d.digits).units.take 1⟩ ++ "." ++ ⟨(Text.ofNat d.digits).units.drop 1⟩ :
        Text).Inked := by
    intro count
    split
    · exact hdigits
    · exact ((hdigits.of_sublist (List.take_sublist _ _)).append (by decide)).append
        (hdigits.of_sublist (List.drop_sublist _ _))
  have hsign : ∀ power : Int, (if power < 0 then "-" else "+" : Text).Inked := by
    intro power
    split <;> decide
  unfold layOut
  dsimp only
  split
  · exact hdigits.append (hzeros _)
  · split
    · exact ((hdigits.of_sublist (List.take_sublist _ _)).append (by decide)).append
        (hdigits.of_sublist (List.drop_sublist _ _))
    · split
      · exact ((by decide : ("0." : Text).Inked).append (hzeros _)).append hdigits
      · exact (((hmantissa _).append (by decide)).append (hsign _)).append (Text.inked_ofNat _)

theorem layOut_units_ne_nil (d : Magnitude.Decimal) : (layOut d).units ≠ [] := by
  have hdigits := Text.ofNat_units_ne_nil d.digits
  have hpoint : ("." : Text).units ≠ [] := by decide
  have hletter : ("e" : Text).units ≠ [] := by decide
  unfold layOut
  dsimp only
  split
  · simp [hdigits]
  · split
    · simp [hpoint]
    · split
      · simp [hdigits]
      · simp [hletter]

/-- The text of a number has no white space. -/
theorem toText_inked (x : Number) : x.toText.Inked := by
  cases x with
  | nan => decide
  | infinite negative => cases negative <;> decide
  | finite negative size =>
    rw [toText]
    split
    · decide
    · refine Text.Inked.append ?_ (layOut_inked _)
      cases negative <;> decide

/-- The text of a number is never empty. -/
theorem toText_isEmpty (x : Number) : x.toText.isEmpty = false := by
  have hunits : x.toText.units ≠ [] := by
    cases x with
    | nan => decide
    | infinite negative => cases negative <;> decide
    | finite negative size =>
      rw [toText]
      split
      · decide
      · simp [layOut_units_ne_nil]
  simpa [Text.isEmpty] using hunits

end Number

end BrowserFlow
