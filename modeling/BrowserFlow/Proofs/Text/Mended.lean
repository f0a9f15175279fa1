import BrowserFlow.Text.Basic
import Mathlib.Data.List.Basic

/-!
Texts as they are written to a disk. A surrogate without its partner is replaced
by U+FFFD and every other unit stays (`Text.units_mended`). So a replaced text is
the text itself or holds U+FFFD (`Text.mend_eq_or_mem`), a unit that is no
surrogate divides a text into parts that are replaced on their own
(`Text.mend_append_cons`), and a text whose surrogates stand in pairs is left as
it is (`Text.WellFormed.mend_eq`).
-/

set_option autoImplicit false
set_option relaxedAutoImplicit false

namespace BrowserFlow

namespace CodeUnit

/-- One half of a surrogate pair. -/
def isSurrogate (u : CodeUnit) : Bool := u.isHighSurrogate || u.isLowSurrogate

/-- The unit of U+FFFD, which stands for what cannot be decoded. -/
def replacement : CodeUnit := 0xFFFD

theorem isSurrogate_iff {u : CodeUnit} :
    u.isSurrogate = true ↔ 0xD800 ≤ u.toNat ∧ u.toNat ≤ 0xDFFF := by
  simp only [isSurrogate, isHighSurrogate, isLowSurrogate, Bool.or_eq_true, Bool.and_eq_true,
    decide_eq_true_eq, UInt16.le_iff_toNat_le]
  simp only [UInt16.reduceToNat]
  omega

theorem isHighSurrogate_iff {u : CodeUnit} :
    u.isHighSurrogate = true ↔ 0xD800 ≤ u.toNat ∧ u.toNat ≤ 0xDBFF := by
  simp only [isHighSurrogate, Bool.and_eq_true, decide_eq_true_eq, UInt16.le_iff_toNat_le,
    UInt16.reduceToNat]

theorem isLowSurrogate_iff {u : CodeUnit} :
    u.isLowSurrogate = true ↔ 0xDC00 ≤ u.toNat ∧ u.toNat ≤ 0xDFFF := by
  simp only [isLowSurrogate, Bool.and_eq_true, decide_eq_true_eq, UInt16.le_iff_toNat_le,
    UInt16.reduceToNat]

theorem encode_replacement : encode '\ufffd' = [replacement] := by decide

theorem toNat_ofNat_of_isValidChar {n : Nat} (h : n.isValidChar) : (Char.ofNat n).toNat = n := by
  rw [Char.ofNat, dif_pos h]
  rfl

/-- The character of a unit that is no surrogate is encoded as this unit. -/
theorem encode_ofNat {u : CodeUnit} (h : u.isSurrogate = false) :
    encode (Char.ofNat u.toNat) = [u] := by
  have hbound : u.toNat < 0x10000 := u.toNat_lt
  have hcode : (Char.ofNat u.toNat).toNat = u.toNat := by
    have hsurrogate := mt isSurrogate_iff.mpr (Bool.eq_false_iff.mp h)
    apply toNat_ofNat_of_isValidChar
    simp only [Nat.isValidChar]
    omega
  have hval : (Char.ofNat u.toNat).val.toNat = u.toNat := hcode
  rw [encode, if_pos (by omega)]
  congr 1
  apply UInt16.toNat_inj.mp
  rw [ofChar, UInt32.toNat_toUInt16, hval]
  exact Nat.mod_eq_of_lt hbound

/-- The character of a surrogate pair is encoded as this pair. -/
theorem encode_pair {u v : CodeUnit} (hu : u.isHighSurrogate = true)
    (hv : v.isLowSurrogate = true) :
    encode (Char.ofNat (0x10000 + (u.toNat - 0xD800) * 0x400 + (v.toNat - 0xDC00))) = [u, v] := by
  obtain ⟨hu, hu'⟩ := isHighSurrogate_iff.mp hu
  obtain ⟨hv, hv'⟩ := isLowSurrogate_iff.mp hv
  have hcode := toNat_ofNat_of_isValidChar
    (n := 0x10000 + (u.toNat - 0xD800) * 0x400 + (v.toNat - 0xDC00))
    (by simp only [Nat.isValidChar]; omega)
  rw [encode, hcode, if_neg (by omega)]
  simp only [List.cons.injEq, and_true]
  constructor <;>
  · apply UInt16.toNat_inj.mp
    rw [Nat.toUInt16, UInt16.toNat_ofNat']
    omega

end CodeUnit

namespace Text

variable {u : CodeUnit} {us vs : List CodeUnit}

/-- A list of units with each surrogate that has no partner replaced. -/
def mend : List CodeUnit → List CodeUnit
  | [] => []
  | [u] => [if u.isSurrogate then .replacement else u]
  | u :: v :: rest =>
    if u.isHighSurrogate && v.isLowSurrogate then u :: v :: mend rest
    else (if u.isSurrogate then .replacement else u) :: mend (v :: rest)

theorem encode_decode (us : List CodeUnit) : (decode us).flatMap CodeUnit.encode = mend us := by
  induction us using mend.induct with
  | case1 => rfl
  | case2 u =>
    by_cases h : u.isSurrogate
    · rw [decode, ← CodeUnit.isSurrogate, mend, if_pos h, if_pos h]
      exact CodeUnit.encode_replacement
    · rw [decode, ← CodeUnit.isSurrogate, mend, if_neg h, if_neg h, List.flatMap_singleton,
        CodeUnit.encode_ofNat (Bool.eq_false_iff.mpr h)]
  | case3 u v rest hpair ih =>
    obtain ⟨hu, hv⟩ := Bool.and_eq_true_iff.mp hpair
    simp only [decode, mend, if_pos hpair, List.flatMap_cons, ih, CodeUnit.encode_pair hu hv]
    rfl
  | case4 u v rest hpair ih =>
    rw [decode, ← CodeUnit.isSurrogate, mend, if_neg hpair, if_neg hpair]
    by_cases h : u.isSurrogate
    · rw [if_pos h, if_pos h, List.flatMap_cons, ih, CodeUnit.encode_replacement]
      rfl
    · rw [if_neg h, if_neg h, List.flatMap_cons, ih,
        CodeUnit.encode_ofNat (Bool.eq_false_iff.mpr h)]
      rfl

theorem units_mended (t : Text) : t.mended.units = mend t.units := by
  rw [← encode_decode]
  simp only [mended, toString, ofString, String.toList_ofList]

/-- What is replaced does not go unseen. -/
theorem mend_eq_or_mem (us : List CodeUnit) : mend us = us ∨ .replacement ∈ mend us := by
  induction us using mend.induct with
  | case1 => exact .inl rfl
  | case2 u =>
    simp only [mend]
    split <;> simp
  | case3 u v rest hpair ih =>
    simp only [mend, if_pos hpair]
    rcases ih with ih | ih
    · exact .inl (by rw [ih])
    · exact .inr (.tail _ (.tail _ ih))
  | case4 u v rest hpair ih =>
    simp only [mend, if_neg hpair]
    split
    · exact .inr (.head _)
    · rcases ih with ih | ih
      · exact .inl (by rw [ih])
      · exact .inr (.tail _ ih)

theorem mem_of_mem_mend (hmem : u ∈ mend us) : u ∈ us ∨ u = .replacement := by
  induction us using mend.induct with
  | case1 => simp [mend] at hmem
  | case2 w =>
    simp only [mend, List.mem_singleton] at hmem
    split at hmem <;> simp_all
  | case3 w v rest hpair ih =>
    simp only [mend, if_pos hpair, List.mem_cons] at hmem ⊢
    tauto
  | case4 w v rest hpair ih =>
    simp only [mend, if_neg hpair, List.mem_cons] at hmem ih ⊢
    split at hmem <;> tauto

theorem decode_cons (hu : u.isSurrogate = false) (us : List CodeUnit) :
    decode (u :: us) = Char.ofNat u.toNat :: decode us := by
  obtain ⟨hhigh, hlow⟩ := Bool.or_eq_false_iff.mp hu
  cases us <;> simp [decode, hhigh, hlow]

/-- A unit that is no surrogate divides a list of units into parts with characters of their own. -/
theorem decode_append_cons (hu : u.isSurrogate = false) (us vs : List CodeUnit) :
    decode (us ++ u :: vs) = decode us ++ decode (u :: vs) := by
  have hlow : u.isLowSurrogate = false := (Bool.or_eq_false_iff.mp hu).2
  induction us using decode.induct with
  | case1 => rfl
  | case2 w =>
    change decode (w :: u :: vs) = _
    simp [decode, hlow]
    split <;> rfl
  | case3 w v rest hpair ih => simp only [List.cons_append, decode, if_pos hpair, ih]
  | case4 w v rest hpair hsurrogate ih =>
    change decode (w :: v :: (rest ++ u :: vs)) = _
    rw [List.cons_append] at ih
    simp only [decode, if_neg hpair, if_pos hsurrogate, ih, List.cons_append]
  | case5 w v rest hpair hplain ih =>
    change decode (w :: v :: (rest ++ u :: vs)) = _
    rw [List.cons_append] at ih
    simp only [decode, if_neg hpair, if_neg hplain, ih, List.cons_append]

/-- A unit that is no surrogate divides a list of units into parts that are replaced on their
own. -/
theorem mend_append_cons (hu : u.isSurrogate = false) (us vs : List CodeUnit) :
    mend (us ++ u :: vs) = mend us ++ u :: mend vs := by
  rw [← encode_decode, decode_append_cons hu, List.flatMap_append, encode_decode, decode_cons hu,
    List.flatMap_cons, CodeUnit.encode_ofNat hu, encode_decode, List.singleton_append]

/-- The part before a unit that is no surrogate has no more octets than the whole. -/
theorem octets_le_append_cons (hu : u.isSurrogate = false) (us vs : List CodeUnit) :
    octets ⟨us⟩ ≤ octets ⟨us ++ u :: vs⟩ := by
  rw [octets, octets, toString, toString, decode_append_cons hu, String.ofList_append,
    String.utf8ByteSize_append]
  exact Nat.le_add_right _ _

/-- Units whose surrogates stand in pairs. -/
inductive WellFormed : List CodeUnit → Prop
  /-- No units. -/
  | nil : WellFormed []
  /-- A unit that is no surrogate in front. -/
  | cons {u : CodeUnit} {us : List CodeUnit} (hu : u.isSurrogate = false) (hus : WellFormed us) :
    WellFormed (u :: us)
  /-- A pair of surrogates in front. -/
  | pair {u v : CodeUnit} {us : List CodeUnit} (hu : u.isHighSurrogate = true)
    (hv : v.isLowSurrogate = true) (hus : WellFormed us) : WellFormed (u :: v :: us)

theorem WellFormed.append (hus : WellFormed us) (hvs : WellFormed vs) : WellFormed (us ++ vs) := by
  induction hus with
  | nil => exact hvs
  | cons hu _ ih => exact .cons hu ih
  | pair hu hv _ ih => exact .pair hu hv ih

/-- Units without surrogates are well-formed. -/
theorem WellFormed.of_forall (h : ∀ u ∈ us, u.isSurrogate = false) : WellFormed us := by
  induction us with
  | nil => exact .nil
  | cons u rest ih =>
    obtain ⟨hu, hrest⟩ := List.forall_mem_cons.mp h
    exact .cons hu (ih hrest)

theorem WellFormed.of_all (h : us.all (fun u ↦ !u.isSurrogate) = true) : WellFormed us :=
  .of_forall fun u hu ↦ by simpa using List.all_eq_true.mp h u hu

/-- Units whose surrogates stand in pairs are left as they are. -/
theorem WellFormed.mend_eq (h : WellFormed us) : mend us = us := by
  induction h with
  | nil => rfl
  | @cons u us hu _ ih => rw [← List.nil_append (u :: us), mend_append_cons hu, ih]; rfl
  | pair hu hv _ ih => simp [mend, hu, hv, ih]

end Text

end BrowserFlow
