import BrowserFlow.Proofs.Condition.Equality
import BrowserFlow.Proofs.Number.Differences

/-!
The order of numbers and texts in conditions, and equality.

Two scalars are compared by the difference of their numbers, or by their texts. A difference tells
how two numbers compare unless they are the same infinite one, and texts are in the order of lists
(`Text.compare_eq_compare_units`). So scalars have an order that is the opposite one the other way
round, and in which those are level that are equal (`Comparison.exists_order`). With this the four
relations of the order agree with each other and with equality (`Comparison.evaluate_ordered`); only
an infinite number is equal to itself without being less or equal
(`Comparison.not_forall_evaluate_ordered`).
-/

set_option autoImplicit false
set_option relaxedAutoImplicit false

namespace BrowserFlow

/-! ### The order of texts -/

namespace Text

/-- Units are compared as lists of numbers are. -/
theorem compareUnits_eq_compare (us vs : List CodeUnit) : compareUnits us vs = compare us vs := by
  induction us generalizing vs with
  | nil => cases vs <;> rfl
  | cons u us ih =>
    cases vs with
    | nil => rfl
    | cons v vs =>
      rw [compareUnits, List.compare_cons_cons, ih]
      by_cases hless : u < v
      · rw [if_pos hless, Std.compare_eq_lt.mpr hless]
        rfl
      · by_cases hmore : v < u
        · rw [if_neg hless, if_pos hmore, Std.compare_eq_gt.mpr hmore]
          rfl
        · obtain rfl : u = v := UInt16.le_antisymm (UInt16.not_lt.mp hmore) (UInt16.not_lt.mp hless)
          rw [if_neg hless, if_neg hless, Std.compare_eq_iff_eq.mpr rfl]
          rfl

/-- Texts are in the order of their units. -/
theorem compare_eq_compare_units (s t : Text) : compare s t = compare s.units t.units :=
  compareUnits_eq_compare s.units t.units

instance : Std.OrientedOrd Text where
  eq_swap := by
    intro s t
    rw [compare_eq_compare_units, compare_eq_compare_units]
    exact Std.OrientedOrd.eq_swap

instance : Std.LawfulEqOrd Text where
  compare_self := by
    intro s
    rw [compare_eq_compare_units]
    exact Std.ReflOrd.compare_self
  eq_of_compare := by
    intro s t h
    rw [compare_eq_compare_units, Std.compare_eq_iff_eq] at h
    cases s
    cases t
    exact congrArg Text.mk h

end Text

namespace Comparison

variable {scope : Scope} {left right a b : Value} {l r : Scalar}

/-! ### The order of scalars -/

/-- Whether a value has a place in the order: a text, or a number that is not meaningless. -/
def isRanked : Value → Bool
  | .number x => x != .nan
  | .text _ => true
  | _ => false

/-- Whether two values are the same infinite number. -/
def AreSameInfinite (a b : Value) : Prop :=
  ∃ x y, a = .number x ∧ b = .number y ∧ Number.AreSameInfinite x y

theorem exists_scalar (h : isRanked a = true) :
    ∃ s, scalar? a = some s ∧ s.number? ≠ some .nan := by
  have hnan : a ≠ .number .nan := by
    rintro rfl
    cases h
  obtain ⟨s, hs⟩ : ∃ s, scalar? a = some s := by
    cases a with
    | number x => exact ⟨_, rfl⟩
    | text t => exact ⟨_, rfl⟩
    | null | bool | sequence | mapping => cases h
  exact ⟨s, hs, number?_ne_nan hs hnan⟩

/-- Numbers that are not meaningless compare somehow. -/
theorem exists_compare? {x y : Number} (hx : x ≠ .nan) (hy : y ≠ .nan) :
    ∃ o, Number.compare? x y = some o := by
  cases x <;> cases y <;> first | exact ⟨_, rfl⟩ | exact absurd rfl hx | exact absurd rfl hy

/-- Only infinite numbers have an infinite number in a comparison. -/
theorem areSameInfinite_of_number? (hl : scalar? a = some l) (hr : scalar? b = some r)
    {x y : Number} (hx : l.number? = some x) (hy : r.number? = some y)
    (h : Number.AreSameInfinite x y) : AreSameInfinite a b := by
  have hself : ∀ {v : Value} {s : Scalar} {z : Number}, scalar? v = some s → s.number? = some z →
      z.isFinite = false → v = .number z := by
    intro v s z hv hz hinfinite
    rcases scalar?_eq_some hv with ⟨w, rfl, rfl⟩ | ⟨t, rfl, rfl⟩
    · exact congrArg Value.number (Option.some.inj hz)
    · rw [Amount.isFinite_of_numeral? hz] at hinfinite
      cases hinfinite
  obtain ⟨negative, rfl, rfl⟩ := h
  exact ⟨_, _, hself hl hx rfl, hself hr hy rfl, negative, rfl, rfl⟩

/-- Scalars that are not the same infinite number have an order, the opposite one the other way
round, and they are equal where it says so. -/
theorem exists_order (hl : scalar? a = some l) (hr : scalar? b = some r)
    (hlnan : l.number? ≠ some .nan) (hrnan : r.number? ≠ some .nan)
    (h : ¬AreSameInfinite a b) : ∃ o, orderScalars l r = some o ∧
      orderScalars r l = some o.swap ∧ equalScalars l r = (o == .eq) := by
  have htexts : ∃ o, some (compare l.text r.text) = some o ∧
      some (compare r.text l.text) = some o.swap ∧ (l.text == r.text) = (o == .eq) := by
    refine ⟨_, rfl, congrArg some Std.OrientedOrd.eq_swap, ?_⟩
    rw [Bool.eq_iff_iff, beq_iff_eq, beq_iff_eq, Std.compare_eq_iff_eq]
  cases hx : l.number? with
  | none =>
    cases hy : r.number? <;> simpa only [orderScalars, equalScalars, hx, hy] using htexts
  | some x =>
    cases hy : r.number? with
    | none => simpa only [orderScalars, equalScalars, hx, hy] using htexts
    | some y =>
      have hboth : ¬Number.AreSameInfinite x y :=
        fun hsame ↦ h (areSameInfinite_of_number? hl hr hx hy hsame)
      obtain ⟨o, ho⟩ : ∃ o, Number.compare? x y = some o :=
        exists_compare? (fun heq ↦ hlnan (heq ▸ hx)) (fun heq ↦ hrnan (heq ▸ hy))
      refine ⟨o, ?_, ?_, ?_⟩
      · simp only [orderScalars, hx, hy]
        rw [Number.compare?_sub_zero hboth, ho]
      · simp only [orderScalars, hx, hy]
        rw [Number.compare?_sub_zero (mt Number.AreSameInfinite.symm hboth), Number.compare?_swap,
          ho, Option.map_some]
      · simp only [equalScalars, hx, hy]
        rw [Number.equal, ho]
        rfl

/-- The same infinite number has no order to itself, but it is equal to itself. -/
theorem order_of_areSameInfinite (hl : scalar? a = some l) (hr : scalar? b = some r)
    (h : AreSameInfinite a b) :
    orderScalars l r = none ∧ orderScalars r l = none ∧ equalScalars l r = true := by
  obtain ⟨x, y, rfl, rfl, hsame⟩ := h
  obtain rfl := Option.some.inj hl
  obtain rfl := Option.some.inj hr
  obtain ⟨hnone, heq⟩ := Number.compare?_sub_zero_infinite hsame
  refine ⟨hnone, (Number.compare?_sub_zero_infinite hsame.symm).1, ?_⟩
  change Number.equal x y = true
  rw [Number.equal, heq]
  rfl

/-! ### The relations of the order -/

/-- A comparison of two operands compares what they are resolved to. -/
theorem evaluate_resolved {relation : Relation} (hrelation : relation.isUnary = false)
    (hleft : left.resolve scope = .ok a) (hright : right.resolve scope = .ok b) :
    evaluate scope ⟨relation, left, some right⟩ = decide relation a b := by
  have hresolved : (do
      let x ← left.resolve scope
      let y ← right.resolve scope
      decide relation x y) = decide relation a b := by
    rw [hleft, hright]
    rfl
  cases relation <;> first | exact hresolved | cases hrelation

theorem equal_eq (hl : scalar? a = some l) (hr : scalar? b = some r) :
    equal a b = .ok (equalScalars l r) := by
  rcases scalar?_eq_some hl with ⟨x, rfl, rfl⟩ | ⟨t, rfl, rfl⟩ <;>
    rcases scalar?_eq_some hr with ⟨y, rfl, rfl⟩ | ⟨u, rfl, rfl⟩ <;> rfl

theorem order_eq (relation : Relation) (hl : scalar? a = some l) (hr : scalar? b = some r) :
    order relation a b = .ok (orderScalars l r) := by
  rw [order, hl, hr]

/-- The relations of the order and equality of scalars, by how these stand to each other. -/
theorem decide_order (hl : scalar? a = some l) (hr : scalar? b = some r) :
    decide .equals a b = .ok (equalScalars l r) ∧
      decide .lessThan a b = .ok (orderScalars l r == some .lt) ∧
      decide .greaterThan a b = .ok (orderScalars l r == some .gt) ∧
      decide .lessThanOrEquals a b =
        .ok (orderScalars l r == some .lt || orderScalars l r == some .eq) ∧
      decide .greaterThanOrEquals a b =
        .ok (orderScalars l r == some .gt || orderScalars l r == some .eq) := by
  refine ⟨equal_eq hl hr, ?_, ?_, ?_, ?_⟩ <;>
    · rw [decide, order_eq _ hl hr]
      rfl

/-- The order of numbers and texts, and equality. Of two operands that are resolved to numbers that
are not meaningless, or to texts, the first is less, equal or greater, and just one of these; it is
less where the second is greater. It is less or equal where it is less or equal, and greater or
equal where it is greater or equal, unless both are the same infinite number, which is equal to
itself but neither less or equal nor greater or equal. -/
theorem evaluate_ordered (hleft : left.resolve scope = .ok a) (hright : right.resolve scope = .ok b)
    (ha : isRanked a = true) (hb : isRanked b = true) :
    ∃ less same more : Bool, [less, same, more].count true = 1 ∧
      evaluate scope ⟨.lessThan, left, some right⟩ = .ok less ∧
      evaluate scope ⟨.equals, left, some right⟩ = .ok same ∧
      evaluate scope ⟨.greaterThan, left, some right⟩ = .ok more ∧
      evaluate scope ⟨.greaterThan, right, some left⟩ = .ok less ∧
      (¬AreSameInfinite a b →
        evaluate scope ⟨.lessThanOrEquals, left, some right⟩ = .ok (less || same) ∧
        evaluate scope ⟨.greaterThanOrEquals, left, some right⟩ = .ok (more || same)) ∧
      (AreSameInfinite a b →
        same = true ∧
        evaluate scope ⟨.lessThanOrEquals, left, some right⟩ = .ok false ∧
        evaluate scope ⟨.greaterThanOrEquals, left, some right⟩ = .ok false) := by
  obtain ⟨l, hl, hlnan⟩ := exists_scalar ha
  obtain ⟨r, hr, hrnan⟩ := exists_scalar hb
  obtain ⟨hequals, hless, hmore, hmost, hleast⟩ := decide_order hl hr
  obtain ⟨-, -, hback, -, -⟩ := decide_order hr hl
  refine ⟨orderScalars l r == some .lt, equalScalars l r, orderScalars l r == some .gt, ?_⟩
  rw [evaluate_resolved rfl hleft hright, evaluate_resolved rfl hleft hright,
    evaluate_resolved rfl hleft hright, evaluate_resolved rfl hright hleft,
    evaluate_resolved rfl hleft hright, evaluate_resolved rfl hleft hright,
    hequals, hless, hmore, hback, hmost, hleast]
  by_cases hsame : AreSameInfinite a b
  · obtain ⟨hnone, hother, hequal⟩ := order_of_areSameInfinite hl hr hsame
    rw [hnone, hother, hequal]
    exact ⟨rfl, rfl, rfl, rfl, rfl, fun h ↦ absurd hsame h, fun _ ↦ ⟨rfl, rfl, rfl⟩⟩
  · obtain ⟨o, ho, hswap, hequal⟩ := exists_order hl hr hlnan hrnan hsame
    rw [ho, hswap, hequal]
    refine ⟨?_, rfl, rfl, rfl, ?_, fun _ ↦ ?_, fun h ↦ absurd h hsame⟩
    · cases o <;> rfl
    · cases o <;> rfl
    · cases o <;> exact ⟨rfl, rfl⟩

/-- A number stands before a text that denotes a greater one, though its own text does not. -/
theorem evaluate_ordered_nine :
    Value.resolve (.ofEntries []) (.number 9) = .ok (.number 9) ∧
      Value.resolve (.ofEntries []) (.text "10") = .ok (.text "10") ∧
      isRanked (.number 9) = true ∧ isRanked (.text "10") = true ∧
      ¬AreSameInfinite (.number 9) (.text "10") ∧
      evaluate (.ofEntries []) ⟨.lessThan, .number 9, some (.text "10")⟩ = .ok true ∧
      evaluate (.ofEntries []) ⟨.greaterThan, .text "10", some (.number 9)⟩ = .ok true ∧
      evaluate (.ofEntries []) ⟨.lessThanOrEquals, .number 9, some (.text "10")⟩ = .ok true ∧
      evaluate (.ofEntries []) ⟨.greaterThanOrEquals, .number 9, some (.text "10")⟩ =
        .ok false := by
  have hleft : Value.resolve (.ofEntries []) (.number 9) = .ok (.number 9) := rfl
  have hright : Value.resolve (.ofEntries []) (.text "10") = .ok (.text "10") := by
    rw [Value.resolve, Template.resolve, if_neg (by decide +kernel)]
  have hnine : isRanked (.number 9) = true := by decide +kernel
  have hother : ¬AreSameInfinite (.number 9) (.text "10") := by
    rintro ⟨_, _, -, htext, -⟩
    cases htext
  obtain ⟨less, same, more, hone, hless, -, -, hback, hdistinct, -⟩ :=
    evaluate_ordered hleft hright hnine rfl
  obtain ⟨hmost, hleast⟩ := hdistinct hother
  have htrue : evaluate (.ofEntries []) ⟨.lessThan, .number 9, some (.text "10")⟩ = .ok true := by
    rw [evaluate_resolved rfl hleft hright, (decide_order rfl rfl).2.1]
    exact congrArg Except.ok (by decide +kernel)
  obtain rfl : true = less := Except.ok.inj (htrue.symm.trans hless)
  obtain ⟨rfl, rfl⟩ : same = false ∧ more = false := by
    cases same <;> cases more <;> first | exact ⟨rfl, rfl⟩ | exact absurd hone (by decide)
  exact ⟨hleft, hright, hnine, rfl, hother, hless, hback, hmost, hleast⟩

/-- An infinite number is equal to itself but not less or equal, so the order does not agree with
equality everywhere. -/
theorem not_forall_evaluate_ordered :
    ¬∀ (scope : Scope) (left right a b : Value), left.resolve scope = .ok a →
      right.resolve scope = .ok b → isRanked a = true → isRanked b = true →
      ∃ less same more : Bool, [less, same, more].count true = 1 ∧
        evaluate scope ⟨.lessThan, left, some right⟩ = .ok less ∧
        evaluate scope ⟨.equals, left, some right⟩ = .ok same ∧
        evaluate scope ⟨.greaterThan, left, some right⟩ = .ok more ∧
        evaluate scope ⟨.greaterThan, right, some left⟩ = .ok less ∧
        evaluate scope ⟨.lessThanOrEquals, left, some right⟩ = .ok (less || same) ∧
        evaluate scope ⟨.greaterThanOrEquals, left, some right⟩ = .ok (more || same) := by
  intro hall
  have hresolve : Value.resolve (.ofEntries []) (.number (.infinite false)) =
      .ok (.number (.infinite false)) := rfl
  obtain ⟨less, same, more, -, -, hequals, -, -, hmost, -⟩ :=
    hall (.ofEntries []) _ _ _ _ hresolve hresolve rfl rfl
  have hequal : decide .equals (.number (.infinite false)) (.number (.infinite false)) =
      .ok true := rfl
  have hnever : decide .lessThanOrEquals (.number (.infinite false)) (.number (.infinite false)) =
      .ok false := rfl
  rw [evaluate_resolved rfl hresolve hresolve] at hequals hmost
  obtain rfl : true = same := Except.ok.inj (hequal.symm.trans hequals)
  have hor : false = (less || true) := Except.ok.inj (hnever.symm.trans hmost)
  cases less <;> cases hor

end Comparison

end BrowserFlow
