import BrowserFlow.Proofs.Number.Sums
import BrowserFlow.Proofs.Run.Counting

/-!
Which counted loops end. A loop through numbers adds its step to a number again and again, and the
sums are numbers of the format: far from zero they are further apart than a short step, and the
infinite ones are left by no step. Such a loop stalls when it comes to a number that is not past its
end and that the step leaves as it is (`Cursor.Stalls`). Otherwise each of its numbers is further on
than the one before it, so it comes past its end: it ends exactly when it does not stall
(`Cursor.ends_iff`). It does not stall when its step is as long as the ways behind its two bounds
(`Cursor.not_stalls`). A loop that is repeated a number of times ends exactly when this number is
less than 2 to the power of 53 (`Iteration.counted_ends`).
-/

set_option autoImplicit false
set_option relaxedAutoImplicit false

namespace BrowserFlow

namespace Cursor

variable {counter : Option Text} {first next stop step : Number} {iterations turns : Nat}

/-- A cursor that answers only so many times that there is a turn, whatever is written to the
variables in between. -/
def Ends (cursor : Cursor) : Prop := ∃ turns, cursor.EndsWithin turns

/-- Whether a loop through numbers comes to one that is not past its end and that the step leaves as
it is. -/
def Stalls (first stop step : Number) : Prop :=
  ∃ turns : Nat, isWithin ((· + step)^[turns] first) stop step = true ∧
    (· + step)^[turns] first + step = (· + step)^[turns] first

/-! ### Numbers of a loop in order -/

theorem isWithin_iff_ahead : isWithin next stop step = true ↔
    next ≠ .nan ∧ stop ≠ .nan ∧ step.ahead next ≤ step.ahead stop := by
  have hle : ∀ x y : Number, Number.le x y = true ↔ x ≠ .nan ∧ y ≠ .nan ∧ x.rank ≤ y.rank := by
    intro x y
    by_cases hx : x = .nan
    · subst hx
      simp [Number.le, Number.compare?]
    by_cases hy : y = .nan
    · subst hy
      cases x <;> simp [Number.le, Number.compare?]
    simp [Number.le_iff_rank hx hy, hx, hy]
  unfold isWithin Number.ahead
  cases Number.lt 0 step with
  | true => exact hle next stop
  | false =>
    simp only [Bool.false_eq_true, if_false, hle, Int.neg_le_neg_iff]
    exact and_left_comm

theorem nan_add (step : Number) : .nan + step = .nan := by
  cases step <;> rfl

/-- The number before one that is not past the end is not past it either. -/
theorem isWithin_of_add (h : isWithin (next + step) stop step = true) :
    isWithin next stop step = true := by
  rw [isWithin_iff_ahead] at h ⊢
  obtain ⟨hsum, hstop, hwithin⟩ := h
  exact ⟨fun hnan ↦ hsum (by rw [hnan, nan_add]), hstop,
    (Number.ahead_le_ahead_add hsum).trans hwithin⟩

theorem isWithin_of_iterate (turns : Nat) :
    ∀ first, isWithin ((· + step)^[turns] first) stop step = true →
      isWithin first stop step = true := by
  induction turns with
  | zero => exact fun first h ↦ h
  | succ turns ih =>
    intro first h
    exact isWithin_of_add (ih _ h)

/-! ### Loops that stall -/

theorem endsWithin_of_turn (h : isWithin next stop step = true)
    (hends : EndsWithin turns ⟨.range counter next stop step, iterations⟩) :
    ∃ fewer, turns = fewer + 1 ∧
      EndsWithin fewer ⟨.range counter (next + step) stop step, iterations + 1⟩ := by
  have hnext := @next_of_isWithin counter next stop step iterations h
    (Environment.ofValues []).scope
  cases turns with
  | zero => exact absurd (hends _ _ hnext) (by simp [turn])
  | succ fewer => exact ⟨fewer, rfl, hends _ _ hnext rfl⟩

/-- A number that the step leaves as it is is the last one for ever. -/
theorem not_endsWithin_of_eq (h : isWithin next stop step = true) (heq : next + step = next)
    (turns : Nat) : ∀ iterations,
      ¬EndsWithin turns ⟨.range counter next stop step, iterations⟩ := by
  induction turns with
  | zero =>
    intro iterations hends
    obtain ⟨fewer, hfewer, -⟩ := endsWithin_of_turn h hends
    cases hfewer
  | succ turns ih =>
    intro iterations hends
    obtain ⟨fewer, hfewer, hrest⟩ := endsWithin_of_turn h hends
    obtain rfl := Nat.succ.inj hfewer
    rw [heq] at hrest
    exact ih _ hrest

/-- A loop has a turn for each number before the one that is left as it is. -/
theorem not_ends_of_stalls (h : Stalls first stop step) (iterations : Nat) :
    ¬Ends ⟨.range counter first stop step, iterations⟩ := by
  obtain ⟨reached, hwithin, heq⟩ := h
  revert first iterations
  induction reached with
  | zero =>
    rintro first iterations hwithin heq ⟨turns, hends⟩
    exact not_endsWithin_of_eq hwithin heq turns iterations hends
  | succ reached ih =>
    rintro first iterations hwithin heq ⟨turns, hends⟩
    obtain ⟨fewer, -, hrest⟩ := endsWithin_of_turn (isWithin_of_iterate _ _ hwithin) hends
    exact ih (iterations + 1) hwithin heq ⟨fewer, hrest⟩

/-! ### Loops that do not stall -/

theorem endsWithin_of_not_isWithin (h : ¬isWithin next stop step = true) (turns iterations : Nat) :
    EndsWithin turns ⟨.range counter next stop step, iterations⟩ := by
  have hended : ∀ scope turn, Cursor.next ⟨.range counter next stop step, iterations⟩ scope =
      .ok turn → turn.goesOn = false := by
    intro scope turn hnext
    rw [next_of_not_isWithin h] at hnext
    obtain rfl := Except.ok.inj hnext
    rfl
  cases turns with
  | zero => exact hended
  | succ turns =>
    intro scope turn hnext hgoes
    rw [hended scope turn hnext] at hgoes
    cases hgoes

theorem stalls_of_eq (h : isWithin first stop step = true) (heq : first + step = first) :
    Stalls first stop step := ⟨0, h, heq⟩

theorem Stalls.of_add (h : Stalls (first + step) stop step) : Stalls first stop step := by
  obtain ⟨turns, hturns⟩ := h
  exact ⟨turns + 1, hturns⟩

/-- A loop that does not stall comes nearer to its end with every turn. -/
theorem endsWithin_of_not_stalls (hzero : step.isZero = false) (turns : Nat) :
    ∀ first iterations, step.ahead stop - step.ahead first < turns → ¬Stalls first stop step →
      EndsWithin turns ⟨.range counter first stop step, iterations⟩ := by
  induction turns with
  | zero =>
    intro first iterations hdistance _
    refine endsWithin_of_not_isWithin (fun hwithin ↦ ?_) 0 iterations
    have hbefore := (isWithin_iff_ahead.mp hwithin).2.2
    omega
  | succ turns ih =>
    intro first iterations hdistance hstalls
    by_cases hwithin : isWithin first stop step = true
    · intro scope turn hnext _
      rw [next_of_isWithin hwithin] at hnext
      obtain rfl := Except.ok.inj hnext
      by_cases hsum : first + step = .nan
      · refine endsWithin_of_not_isWithin (fun hbehind ↦ ?_) turns (iterations + 1)
        exact (isWithin_iff_ahead.mp hbehind).1 hsum
      · have hnearer := Number.ahead_lt_ahead_add hzero hsum fun heq ↦
          hstalls (stalls_of_eq hwithin heq)
        exact ih _ _ (by omega) (mt Stalls.of_add hstalls)
    · exact endsWithin_of_not_isWithin hwithin _ _

/-- A loop through numbers ends exactly when it does not stall. -/
theorem ends_iff (hzero : step.isZero = false) (iterations : Nat) :
    Ends ⟨.range counter first stop step, iterations⟩ ↔ ¬Stalls first stop step := by
  constructor
  · exact fun hends hstalls ↦ not_ends_of_stalls hstalls iterations hends
  · intro hstalls
    obtain ⟨turns, hturns⟩ : ∃ turns : Nat, step.ahead stop - step.ahead first < turns :=
      ⟨(step.ahead stop - step.ahead first + 1).toNat, by omega⟩
    exact ⟨turns, endsWithin_of_not_stalls hzero turns first iterations hturns hstalls⟩

/-! ### Steps that are long enough -/

/-- The numbers of a loop are on the way from its first number in the direction of its step. -/
theorem ahead_le_iterate (turns : Nat) (hturns : (· + step)^[turns] first ≠ .nan) :
    step.ahead first ≤ step.ahead ((· + step)^[turns] first) := by
  induction turns with
  | zero => exact le_rfl
  | succ turns ih =>
    rw [Function.iterate_succ_apply'] at hturns ⊢
    have hbefore : (· + step)^[turns] first ≠ .nan := fun hnan ↦
      hturns (by rw [hnan, nan_add])
    exact (ih hbefore).trans (Number.ahead_le_ahead_add hturns)

/-- A loop does not stall when its step is as long as the ways behind its two bounds: between them
the numbers are no further apart. -/
theorem not_stalls (hfirst : step.leadsOnFrom first = true)
    (hstop : step.leadsOnFrom stop = true) : ¬Stalls first stop step := by
  rintro ⟨turns, hwithin, heq⟩
  obtain ⟨hnext, -, hbehind⟩ := isWithin_iff_ahead.mp hwithin
  exact Number.add_ne_of_leadsOnFrom
    (Number.leadsOnFrom_of_ahead hfirst hstop hnext (ahead_le_iterate turns hnext) hbehind) heq

end Cursor

/-! ### Loops that are repeated a number of times -/

namespace Number

variable {x : Number} {n : Int}

/-- Two to the power of 53: from here on integers are further apart than one. -/
def mostExact : Number := .ofNat (2 ^ 53)

theorem toInt?_mostExact : mostExact.toInt? = some ((2 ^ 53 : Nat) : Int) :=
  toInt?_ofNat (Nat.le_refl _)

/-- An integer that is not less than zero is a natural number. -/
theorem exists_nat (hinteger : x.isInteger = true) (hle : le 0 x = true) :
    ∃ n : Nat, x.toInt? = some (n : Int) := by
  obtain ⟨n, hn⟩ := Option.isSome_iff_exists.mp hinteger
  rw [le_iff_of_toInt? toInt?_zero hn] at hle
  obtain ⟨n, rfl⟩ := Int.eq_ofNat_of_zero_le hle
  exact ⟨n, hn⟩

theorem isZero_one : isZero 1 = false := by
  by_contra hone
  rw [Bool.not_eq_false, isZero_iff_of_toInt? toInt?_one] at hone
  cases hone

theorem mostExact_add_one : mostExact + 1 = mostExact := by decide +kernel

theorem leadsOnFrom_one (hx : x.toInt? = some n) (hsmall : n.natAbs < 2 ^ 53) :
    leadsOnFrom 1 x = true := by
  obtain ⟨t, b, hone, hunit⟩ := toInt?_eq_some_iff.mp toInt?_one
  obtain ⟨s, a, rfl, hunits⟩ := toInt?_eq_some_iff.mp hx
  have hstep : b.units = Magnitude.one := by
    rw [← natAbs_signed t b, hunit, Int.one_mul, Int.natAbs_natCast]
  have hsize : a.units = n.natAbs * Magnitude.one := by
    rw [← natAbs_signed s a, hunits, Int.natAbs_mul, Int.natAbs_natCast]
  refine leadsOnFrom_iff.mpr ⟨t, b, s, a, hone, rfl, ?_⟩
  rw [hstep, hsize]
  exact Magnitude.grain_mul_one_le hsmall

/-- Counting from one is exact up to 2 to the power of 53. -/
theorem toInt?_iterate_one (turns : Nat) (h : turns < 2 ^ 53) :
    ((· + 1)^[turns] (1 : Number)).toInt? = some ((turns + 1 : Nat) : Int) := by
  induction turns with
  | zero => exact toInt?_one
  | succ turns ih =>
    rw [Function.iterate_succ_apply']
    exact toInt?_add (ih (by omega)) toInt?_one (by omega)

end Number

namespace Cursor

/-- A loop that counts from one stalls when it has to count up to 2 to the power of 53 or on. -/
theorem stalls_one_iff {stop : Number} {n : Nat} (hstop : stop.toInt? = some (n : Int)) :
    Stalls 1 stop 1 ↔ 2 ^ 53 ≤ n := by
  constructor
  · intro hstalls
    by_contra hless
    exact not_stalls (Number.leadsOnFrom_one Number.toInt?_one (by decide))
      (Number.leadsOnFrom_one hstop (by omega)) hstalls
  · intro hlarge
    obtain ⟨reached, hreached⟩ : ∃ reached, reached + 1 = 2 ^ 53 := ⟨2 ^ 53 - 1, by omega⟩
    have hinteger := Number.toInt?_iterate_one reached (by omega)
    have hnumber : (· + 1)^[reached] (1 : Number) = Number.mostExact := by
      rw [hreached] at hinteger
      exact (Number.ofNat_of_toInt? hinteger (Nat.two_pow_pos _)).symm
    refine ⟨reached, ?_, ?_⟩
    · rw [hnumber, isWithin_iff Number.toInt?_mostExact hstop Number.toInt?_one,
        if_pos Int.one_pos]
      exact_mod_cast hlarge
    · rw [hnumber]
      exact Number.mostExact_add_one

end Cursor

/-! ### Counted loops -/

namespace Iteration

variable {scope : Scope} {spec : Iteration} {cursor : Cursor} {first last pace : Number}

/-- What the operands of a loop through numbers are resolved to: the first number, the last one and
the step. A loop that is repeated a number of times counts from one up to it, which is a natural
number. -/
def Counts (scope : Scope) (first last pace : Number) : Iteration → Prop
  | .range _ start stop step => start.resolve scope "for loop start" = .ok first ∧
    stop.resolve scope "for loop end" = .ok last ∧
    step.elim (pace = 1) fun amount ↦ amount.resolve scope "for loop step" = .ok pace
  | .times count _ => first = 1 ∧ count.resolve scope "repeat times" = .ok last ∧ pace = 1 ∧
    ∃ n : Nat, last.toInt? = some (n : Int)
  | _ => False

/-- Whether a loop is one through numbers. -/
def isThroughNumbers : Iteration → Bool
  | .range _ _ _ _ => true
  | .times _ _ => true
  | _ => false

/-- The cursor of a loop through numbers that has begun. -/
theorem exists_counts (hnumbers : spec.isThroughNumbers = true)
    (hbegin : spec.beginLoop scope = .ok cursor) :
    ∃ first last pace, spec.Counts scope first last pace ∧ pace.isZero = false ∧
      cursor = ⟨.range spec.counter? first last pace, 0⟩ := by
  unfold beginLoop at hbegin
  split at hbegin
  · next course hcourse =>
    obtain rfl := Except.ok.inj hbegin
    rcases course_cases hcourse with ⟨_, _, rfl, -⟩ |
      ⟨counter, start, stop, step, first, last, pace, rfl, hfirst, hlast, hpace, hzero, rfl⟩ |
      ⟨_, _, _, rfl, -, -⟩ | ⟨count, counter, turns, rfl, hturns, hinteger, hnatural, rfl⟩
    · cases hnumbers
    · exact ⟨first, last, pace, ⟨hfirst, hlast, hpace⟩, hzero, rfl⟩
    · cases hnumbers
    · exact ⟨1, turns, 1, ⟨rfl, hturns, rfl, Number.exists_nat hinteger hnatural⟩,
        Number.isZero_one, rfl⟩
  · cases hbegin

/-- When counted loops end. A loop through numbers that has begun ends, whatever is written to the
variables in between, exactly when it does not stall: when its step leaves none of its numbers up to
the end as it is. It ends in particular when its bounds and its step are finite and the step is as
long as the ways from the bounds to the next greater numbers; and a loop that is repeated a number
of times ends exactly when this number is less than 2 to the power of 53. -/
theorem counted_ends (hnumbers : spec.isThroughNumbers = true)
    (hbegin : spec.beginLoop scope = .ok cursor) :
    ∃ first last pace, spec.Counts scope first last pace ∧
      (cursor.Ends ↔ ¬Cursor.Stalls first last pace) ∧
      (pace.leadsOnFrom first = true → pace.leadsOnFrom last = true → cursor.Ends) ∧
      ∀ count counter, spec = .times count counter → ∃ n : Nat, last.toInt? = some (n : Int) ∧
        (cursor.Ends ↔ n < 2 ^ 53) := by
  obtain ⟨first, last, pace, hcounts, hzero, rfl⟩ := exists_counts hnumbers hbegin
  have hends := @Cursor.ends_iff spec.counter? first last pace hzero 0
  refine ⟨first, last, pace, hcounts, hends,
    fun hfirst hlast ↦ hends.mpr (Cursor.not_stalls hfirst hlast), ?_⟩
  rintro count counter rfl
  obtain ⟨hfirst, -, hpace, n, hn⟩ := hcounts
  refine ⟨n, hn, ?_⟩
  rw [hends, hfirst, hpace, Cursor.stalls_one_iff hn, Nat.not_le]

/-- An environment with the greatest number of times that is counted to its end. -/
def mostTurns : Environment := .ofValues [("turns", .number (.ofNat (2 ^ 53 - 1)))]

/-- A loop that is repeated so many times ends. -/
theorem counted_ends_mostTurns :
    isThroughNumbers (.times (.template "{{turns}}") none) = true ∧
    ∃ cursor, beginLoop (.times (.template "{{turns}}") none) mostTurns.scope = .ok cursor ∧
      cursor.Ends := by
  have hbegins : (beginLoop (.times (.template "{{turns}}") none) mostTurns.scope).isOk = true := by
    decide +kernel
  obtain ⟨cursor, hbegin⟩ := Except.eq_ok_of_isOk hbegins
  obtain ⟨first, last, pace, ⟨-, hlast, -⟩, -, -, htimes⟩ := counted_ends rfl hbegin
  have hturns : Amount.resolve mostTurns.scope "repeat times" (.template "{{turns}}") =
      .ok (.ofNat (2 ^ 53 - 1)) := Except.eq_ok_of_toOption (by decide +kernel)
  obtain ⟨n, hn, hends⟩ := htimes _ _ rfl
  have hcount : n = 2 ^ 53 - 1 := by
    rw [← Except.ok.inj (hturns.symm.trans hlast), Number.toInt?_ofNat (by decide)] at hn
    exact_mod_cast (Option.some.inj hn).symm
  exact ⟨rfl, cursor, hbegin, hends.mpr (by omega)⟩

/-- A document with a loop through one number, which is 2 to the power of 53. -/
def singleNumber : Datum :=
  .object [("name", .text "one"), ("version", .text "1"), ("steps", .sequence [
    .object [("name", .text "count"), ("action", .text "loop"),
      ("value", .object [("type", .text "for"), ("variable", .text "n"),
        ("start", .number .mostExact), ("end", .number .mostExact)] []),
      ("steps", .sequence [
        .object [("name", .text "go"), ("action", .text "click"), ("selector", .text "a")] []])]
      []])] []

/-- Whether a step is a loop through one number, which is 2 to the power of 53. -/
def isSingleNumber : Step → Bool
  | .loop _ (.range _ (.number start) (.number stop) none) _ =>
    start == .mostExact && stop == .mostExact
  | _ => false

theorem beginLoop_of_isSingleNumber {step : Step} (h : isSingleNumber step = true) (scope : Scope) :
    ∃ header spec body counter, step = .loop header spec body ∧ spec.isThroughNumbers = true ∧
      spec.beginLoop scope = .ok ⟨.range counter .mostExact .mostExact 1, 0⟩ := by
  unfold isSingleNumber at h
  split at h
  · next header counter start stop body =>
    obtain ⟨hstart, hstop⟩ := (Bool.and_eq_true _ _).mp h
    rw [eq_of_beq hstart, eq_of_beq hstop]
    refine ⟨header, _, body, some counter, rfl, rfl, ?_⟩
    simp only [beginLoop, course, Amount.resolve, bind, Except.bind, Number.isZero_one,
      Bool.false_eq_true, if_false]
  · cases h

/-- Not every loop through numbers of an accepted document ends: one whose start is its end, 2 to
the power of 53, has turns for ever. -/
theorem not_forall_counted_ends : ¬∀ document validated place header spec body
    (env : Environment) cursor, Workflow.validate document = .ok validated →
      Step.stepAt? validated.workflow.steps place = some (.loop header spec body) →
      spec.isThroughNumbers = true →
      (∀ name value, env.find? name = some value → ∃ d, Document.value? d = some value) →
      spec.beginLoop env.scope = .ok cursor → cursor.Ends := by
  intro hall
  have haccepted : (Workflow.validate singleNumber).toOption.any (fun validated ↦
      (Step.stepAt? validated.workflow.steps ⟨[], 0⟩).any isSingleNumber) = true := by
    decide +kernel
  obtain ⟨validated, step, hvalid, hstep, hsingle⟩ := Workflow.exists_accepted haccepted
  obtain ⟨header, spec, body, counter, rfl, hnumbers, hbegin⟩ :=
    beginLoop_of_isSingleNumber hsingle (Environment.ofValues []).scope
  have hstalls : Cursor.Stalls .mostExact .mostExact 1 :=
    Cursor.stalls_of_eq (by decide +kernel) Number.mostExact_add_one
  exact Cursor.not_ends_of_stalls hstalls 0 (hall singleNumber validated ⟨[], 0⟩ header spec body
    (.ofValues []) _ hvalid hstep hnumbers (fun name value hvalue ↦ by cases hvalue) hbegin)

end Iteration

end BrowserFlow
