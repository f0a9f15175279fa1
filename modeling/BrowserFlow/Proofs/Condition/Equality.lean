import BrowserFlow.Condition.Evaluation
import BrowserFlow.Proofs.Number.Written
import BrowserFlow.Proofs.Value.Sameness

/-!
Equality in conditions is an equivalence where it is defined (`Comparison.equal_equivalence`).

Two scalars are equal when their texts have the same meaning (`Comparison.equalScalars_iff`): a text
that denotes a finite number means this number, and every other text itself. A number means what its
text means, which is why it makes no difference that numbers are compared as numbers and other texts
as texts. Sequences and mappings are equal where they are the same. Equality is not defined between
values of different families (`Comparison.equal_eq_error_iff`), and only a meaningless number is not
equal to itself.
-/

set_option autoImplicit false
set_option relaxedAutoImplicit false

namespace BrowserFlow

/-! ### What the text of a number denotes -/

/-- The text of a finite number denotes it, zero without its sign, and the text of another number
denotes none. -/
theorem Amount.numeral?_toText (x : Number) :
    numeral? x.toText = if x.isFinite then some x.plain else none := by
  cases x with
  | nan => decide
  | infinite negative => cases negative <;> decide
  | finite negative size =>
    have hfinite : Number.isFinite (.finite negative size) = true := rfl
    have hblank := (Number.toText_inked (.finite negative size)).isBlank (Number.toText_isEmpty _)
    have hplain := (Number.plain_isFinite (.finite negative size)).trans hfinite
    rw [numeral?, if_neg (by simp [hblank]), Number.ofText?_toText hfinite, if_pos hfinite,
      Option.filter_some, if_pos hplain]

/-- Numbers that are not finite are told apart by their texts. -/
theorem Number.toText_eq_iff {x y : Number} (hx : x.isFinite = false) (hy : y.isFinite = false) :
    x.toText = y.toText ↔ x = y := by
  cases x with
  | nan =>
    cases y with
    | nan => simp
    | infinite t => cases t <;> decide
    | finite => cases hy
  | infinite s =>
    cases y with
    | nan => cases s <;> decide
    | infinite t => cases s <;> cases t <;> decide
    | finite => cases hy
  | finite => cases hx

namespace Comparison

variable {a b c : Value} {s l r : Scalar}

/-! ### The meaning of scalars -/

/-- What a text means in a comparison: the finite number that it denotes, zero without its sign,
otherwise the text itself. -/
def meaning (t : Text) : Number ⊕ Text :=
  match Amount.numeral? t with
  | some x => .inl x.plain
  | none => .inr t

/-- What a number means: itself if it is finite, zero without its sign, otherwise its text. -/
def numberMeaning (x : Number) : Number ⊕ Text :=
  if x.isFinite then .inl x.plain else .inr x.toText

theorem eq_of_meaning {t u : Text} (h : meaning t = .inr u) : t = u := by
  unfold meaning at h
  split at h
  · cases h
  · exact Sum.inr.inj h

theorem numberMeaning_eq_iff {x y : Number} :
    numberMeaning x = numberMeaning y ↔ x.plain = y.plain := by
  have hx := Number.plain_isFinite x
  have hy := Number.plain_isFinite y
  constructor
  · intro h
    unfold numberMeaning at h
    split at h <;> split at h
    · exact Sum.inl.inj h
    · cases h
    · cases h
    · next hxfinite hyfinite =>
      have hxother := Bool.eq_false_iff.mpr hxfinite
      have hyother := Bool.eq_false_iff.mpr hyfinite
      rw [(Number.toText_eq_iff hxother hyother).mp (Sum.inr.inj h)]
  · intro h
    rw [numberMeaning, numberMeaning, ← hx, ← hy, ← Number.toText_plain x,
      ← Number.toText_plain y, h]

theorem scalar?_eq_some (h : scalar? a = some s) :
    (∃ x, a = .number x ∧ s = ⟨some x, x.toText⟩) ∨
      ∃ t, a = .text t ∧ s = ⟨Amount.numeral? t, t⟩ := by
  cases a with
  | number x => exact .inl ⟨x, rfl, (Option.some.inj h).symm⟩
  | text t => exact .inr ⟨t, rfl, (Option.some.inj h).symm⟩
  | null | bool | sequence | mapping => cases h

/-- A scalar that has a number means it. -/
theorem meaning_number {x : Number} (h : scalar? a = some s) (hx : s.number? = some x) :
    meaning s.text = numberMeaning x := by
  rcases scalar?_eq_some h with ⟨y, rfl, rfl⟩ | ⟨t, rfl, rfl⟩
  · obtain rfl := Option.some.inj hx
    rw [meaning, numberMeaning, Amount.numeral?_toText]
    cases y.isFinite <;> simp [Number.plain_plain]
  · have hnumeral : Amount.numeral? t = some x := hx
    rw [meaning, hnumeral, numberMeaning, if_pos (Amount.isFinite_of_numeral? hnumeral)]

/-- A scalar that has no number means its text. -/
theorem meaning_text (h : scalar? a = some s) (hnone : s.number? = none) :
    meaning s.text = .inr s.text := by
  rcases scalar?_eq_some h with ⟨y, rfl, rfl⟩ | ⟨t, rfl, rfl⟩
  · cases hnone
  · have hnumeral : Amount.numeral? t = none := hnone
    rw [meaning, hnumeral]

/-- Two scalars are equal when their texts have the same meaning and they are not both meaningless
numbers. -/
theorem equalScalars_iff (hl : scalar? a = some l) (hr : scalar? b = some r) :
    equalScalars l r = true ↔
      meaning l.text = meaning r.text ∧ ¬(l.number? = some .nan ∧ r.number? = some .nan) := by
  cases hx : l.number? with
  | none =>
    rw [equalScalars, hx]
    simp only [beq_iff_eq, reduceCtorEq, false_and, not_false_eq_true, and_true]
    exact ⟨congrArg meaning, fun h ↦ (eq_of_meaning (h.symm.trans (meaning_text hl hx))).symm⟩
  | some x =>
    cases hy : r.number? with
    | none =>
      rw [equalScalars, hx, hy]
      simp only [beq_iff_eq, reduceCtorEq, and_false, not_false_eq_true, and_true]
      exact ⟨congrArg meaning, fun h ↦ eq_of_meaning (h.trans (meaning_text hr hy))⟩
    | some y =>
      rw [equalScalars, hx, hy, meaning_number hl hx, meaning_number hr hy, numberMeaning_eq_iff]
      simp only [Option.some.injEq, Number.equal_iff]

theorem number?_ne_nan (h : scalar? a = some s) (hnan : a ≠ .number .nan) :
    s.number? ≠ some .nan := by
  rcases scalar?_eq_some h with ⟨y, rfl, rfl⟩ | ⟨t, rfl, rfl⟩
  · exact fun heq ↦ hnan (congrArg Value.number (Option.some.inj heq))
  · exact fun heq ↦ Bool.false_ne_true (Amount.isFinite_of_numeral? heq)

/-! ### Where equality is defined -/

/-- The values that are compared with each other. -/
inductive Family where
  /-- Numbers and texts. -/
  | scalar
  /-- Sequences. -/
  | sequence
  /-- Mappings. -/
  | mapping
  deriving DecidableEq

/-- The family of a value; null and truth values compare with all. -/
def family? : Value → Option Family
  | .null | .bool _ => none
  | .number _ | .text _ => some .scalar
  | .sequence _ => some .sequence
  | .mapping _ => some .mapping

/-- Whether two values are of different families. -/
def Clash (a b : Value) : Prop := ∃ f g, family? a = some f ∧ family? b = some g ∧ f ≠ g

theorem Clash.symm (h : Clash a b) : Clash b a := by
  obtain ⟨f, g, hf, hg, hne⟩ := h
  exact ⟨g, f, hg, hf, hne.symm⟩

/-- Equality has no answer exactly for values of different families. -/
theorem equal_eq_error_iff {fault : Fault} :
    equal a b = .error fault ↔ Clash a b ∧ fault = mismatch .equals a b := by
  cases a <;> cases b <;> simp [equal, Clash, family?, scalar?, eq_comm]

/-! ### Equality is an equivalence -/

/-- Whether two values are equal. -/
inductive Alike : Value → Value → Prop where
  | null : Alike .null .null
  | bool (b : Bool) : Alike (.bool b) (.bool b)
  | scalar {a b : Value} {l r : Scalar} (hl : scalar? a = some l) (hr : scalar? b = some r)
      (h : equalScalars l r = true) : Alike a b
  | sequence {xs ys : List Value} (h : Value.same (.sequence xs) (.sequence ys) = true) :
      Alike (.sequence xs) (.sequence ys)
  | mapping {xs ys : Entries Value} (h : Value.same (.mapping xs) (.mapping ys) = true) :
      Alike (.mapping xs) (.mapping ys)

theorem Alike.equal (h : Alike a b) : equal a b = .ok true := by
  cases h with
  | null => rfl
  | bool b => cases b <;> rfl
  | scalar hl hr h =>
    rcases scalar?_eq_some hl with ⟨x, rfl, rfl⟩ | ⟨t, rfl, rfl⟩ <;>
      rcases scalar?_eq_some hr with ⟨y, rfl, rfl⟩ | ⟨u, rfl, rfl⟩ <;>
        exact congrArg Except.ok h
  | sequence h => exact congrArg Except.ok h
  | mapping h => exact congrArg Except.ok h

theorem equal_eq_true_iff : equal a b = .ok true ↔ Alike a b := by
  refine ⟨fun h ↦ ?_, Alike.equal⟩
  cases a with
  | null =>
    cases b with
    | null => exact .null
    | _ => cases Except.ok.inj h
  | bool x =>
    cases b with
    | bool y =>
      obtain rfl := beq_iff_eq.mp (Except.ok.inj h)
      exact .bool x
    | _ => cases Except.ok.inj h
  | sequence xs =>
    cases b with
    | null | bool => cases Except.ok.inj h
    | sequence ys => exact .sequence (Except.ok.inj h)
    | _ => cases h
  | mapping xs =>
    cases b with
    | null | bool => cases Except.ok.inj h
    | mapping ys => exact .mapping (Except.ok.inj h)
    | _ => cases h
  | number | text =>
    cases b with
    | null | bool => cases Except.ok.inj h
    | number | text => exact .scalar rfl rfl (Except.ok.inj h)
    | _ => cases h

theorem Alike.self (hkeys : a.hasUniqueKeys = true) (hnan : a ≠ .number .nan) : Alike a a := by
  have hscalar : ∀ s, scalar? a = some s → Alike a a := fun s h ↦
    .scalar h h ((equalScalars_iff h h).mpr ⟨rfl, fun hboth ↦ number?_ne_nan h hnan hboth.1⟩)
  cases a with
  | null => exact .null
  | bool b => exact .bool b
  | number x => exact hscalar _ rfl
  | text t => exact hscalar _ rfl
  | sequence items => exact .sequence (Value.same_self hkeys)
  | mapping entries => exact .mapping (Value.same_self hkeys)

theorem Alike.symm (ha : a.hasUniqueKeys = true) (hb : b.hasUniqueKeys = true) (h : Alike a b) :
    Alike b a := by
  cases h with
  | null => exact .null
  | bool b => exact .bool b
  | scalar hl hr h =>
    obtain ⟨hmeaning, hnan⟩ := (equalScalars_iff hl hr).mp h
    exact .scalar hr hl ((equalScalars_iff hr hl).mpr ⟨hmeaning.symm, fun hboth ↦ hnan hboth.symm⟩)
  | sequence h => exact .sequence (Value.same_symm ha hb h)
  | mapping h => exact .mapping (Value.same_symm ha hb h)

theorem Alike.trans (hnan : a ≠ .number .nan) (hab : Alike a b) (hbc : Alike b c) : Alike a c := by
  cases hab with
  | null => exact hbc
  | bool b => exact hbc
  | scalar hl hr h =>
    cases hbc with
    | scalar hm hn h' =>
      -- Whichever way the scalar in the middle is compared, what counts is the meaning of its text.
      obtain rfl := Option.some.inj (hr.symm.trans hm)
      have hfirst := ((equalScalars_iff hl hr).mp h).1
      have hsecond := ((equalScalars_iff hr hn).mp h').1
      exact .scalar hl hn ((equalScalars_iff hl hn).mpr
        ⟨hfirst.trans hsecond, fun hboth ↦ number?_ne_nan hl hnan hboth.1⟩)
    | null | bool | sequence | mapping => cases hr
  | sequence h =>
    cases hbc with
    | sequence h' => exact .sequence (Value.same_trans h h')
    | scalar hm => cases hm
  | mapping h =>
    cases hbc with
    | mapping h' => exact .mapping (Value.same_trans h h')
    | scalar hm => cases hm

/-- Values that do not clash have an answer, the same both ways. -/
theorem exists_answer (ha : a.hasUniqueKeys = true) (hb : b.hasUniqueKeys = true)
    (h : ¬Clash a b) : ∃ answer, equal a b = .ok answer ∧ equal b a = .ok answer := by
  have hthere : equal a b = .ok true ↔ equal b a = .ok true := by
    rw [equal_eq_true_iff, equal_eq_true_iff]
    exact ⟨Alike.symm ha hb, Alike.symm hb ha⟩
  cases hab : equal a b with
  | error fault => exact absurd (equal_eq_error_iff.mp hab).1 h
  | ok x =>
    cases hba : equal b a with
    | error fault => exact absurd (equal_eq_error_iff.mp hba).1.symm h
    | ok y =>
      rw [hab, hba] at hthere
      have hsame : x = y := by simpa using hthere
      exact ⟨x, rfl, congrArg Except.ok hsame.symm⟩

/-- Equality is an equivalence where it is defined. Every value but the meaningless number is equal
to itself. Two values have the same answer both ways, or both ways the fault that they cannot be
compared. What is equal to a value that is equal to another is equal to this other. -/
theorem equal_equivalence (ha : a.hasUniqueKeys = true) (hb : b.hasUniqueKeys = true)
    (hnan : a ≠ .number .nan) :
    equal a a = .ok true ∧
      ((equal a b = .error (mismatch .equals a b) ∧ equal b a = .error (mismatch .equals b a)) ∨
        ∃ answer, equal a b = .ok answer ∧ equal b a = .ok answer) ∧
      (equal a b = .ok true → equal b c = .ok true → equal a c = .ok true) := by
  refine ⟨(Alike.self ha hnan).equal, ?_, fun hab hbc ↦ ?_⟩
  · by_cases hclash : Clash a b
    · exact .inl ⟨equal_eq_error_iff.mpr ⟨hclash, rfl⟩, equal_eq_error_iff.mpr ⟨hclash.symm, rfl⟩⟩
    · exact .inr (exists_answer ha hb hclash)
  · exact ((equal_eq_true_iff.mp hab).trans hnan (equal_eq_true_iff.mp hbc)).equal

/-- A number, its text and another spelling of it. -/
theorem equal_equivalence_ones :
    Value.hasUniqueKeys (.text "1") = true ∧ Value.hasUniqueKeys (.number 1) = true ∧
      Value.text "1" ≠ .number .nan ∧ equal (.text "1") (.text "1") = .ok true ∧
      equal (.number 1) (.text "1") = .ok true ∧ equal (.text "1") (.text "1.0") = .ok true := by
  have hnumber : equal (.text "1") (.number 1) = .ok true :=
    (Alike.scalar rfl rfl (by decide +kernel)).equal
  have hspelling : equal (.number 1) (.text "1.0") = .ok true :=
    (Alike.scalar rfl rfl (by decide +kernel)).equal
  obtain ⟨hself, hboth, htrans⟩ :=
    @equal_equivalence (.text "1") (.number 1) (.text "1.0") rfl rfl nofun
  refine ⟨rfl, rfl, nofun, hself, ?_, htrans hnumber hspelling⟩
  rcases hboth with ⟨herror, -⟩ | ⟨answer, hanswer, hback⟩
  · rw [hnumber] at herror
    cases herror
  · rw [hback, ← hanswer, hnumber]

end Comparison

end BrowserFlow
