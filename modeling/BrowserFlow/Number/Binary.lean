/-!
Numbers: the values of the 64-bit binary format, with their arithmetic. A finite
number is a sign and a magnitude, and a magnitude is counted in units of the
least positive number, 2 to the power of -1074, so that every finite number is
an integer of units and every operation is exact integer arithmetic followed by
one rounding to the nearest representable magnitude, ties to even. Main
statements: what rounding gives is representable, and what is representable is
left alone by rounding.
-/

set_option autoImplicit false
set_option relaxedAutoImplicit false

namespace BrowserFlow

namespace Magnitude

/-- The weight of the last of the 53 binary places of a magnitude. -/
def grain (units : Nat) : Nat := Nat.pow 2 (units.log2 - 52)

/-- The least count of units that is too large for a finite number. -/
def limit : Nat := Nat.pow 2 (1024 + 1074)

/-- The units of the number one. -/
def one : Nat := Nat.pow 2 1074

/-- The quotient of two natural numbers rounded to the nearest one, ties to even. -/
def halfEven (num den : Nat) : Nat :=
  let floor := num / den
  let twice := 2 * (num % den)
  if twice < den then floor
  else if den < twice then floor + 1
  else if floor % 2 = 0 then floor else floor + 1

/-- The units nearest to a quotient among those that 53 places can hold. -/
def nearest (num den : Nat) : Nat :=
  let weight := grain (num / den)
  halfEven num (den * weight) * weight

theorem halfEven_le (num den : Nat) : halfEven num den ≤ num / den + 1 := by
  unfold halfEven
  dsimp only
  repeat' split
  all_goals omega

/-- A count of 53 binary places, moved up by any number of places, is on the grid. -/
theorem grain_dvd_mul_two_pow (count shift : Nat) (h : count ≤ Nat.pow 2 53) :
    grain (count * Nat.pow 2 shift) ∣ count * Nat.pow 2 shift := by
  simp only [grain, Nat.pow_eq] at h ⊢
  have hpos : 0 < 2 ^ shift := Nat.two_pow_pos shift
  by_cases hzero : count = 0
  · simp [hzero]
  by_cases htop : count = 2 ^ 53
  · rw [htop, ← Nat.pow_add, Nat.log2_two_pow]
    exact Nat.pow_dvd_pow 2 (by omega)
  · have hne : count * 2 ^ shift ≠ 0 := Nat.mul_ne_zero hzero (by omega)
    have hlt : count * 2 ^ shift < 2 ^ (53 + shift) := by
      rw [Nat.pow_add]
      exact Nat.mul_lt_mul_of_pos_right (by omega) hpos
    have hlog : (count * 2 ^ shift).log2 < 53 + shift := (Nat.log2_lt hne).mpr hlt
    exact Nat.dvd_trans (Nat.pow_dvd_pow 2 (by omega)) (Nat.dvd_mul_left _ _)

/-- Rounding lands on the grid of representable magnitudes. -/
theorem grain_dvd_nearest (num den : Nat) : grain (nearest num den) ∣ nearest num den := by
  have hcount : halfEven num (den * grain (num / den)) ≤ 2 ^ 53 := by
    refine Nat.le_trans (halfEven_le _ _) ?_
    rw [← Nat.div_div_eq_div_mul]
    have hgrain : 0 < grain (num / den) := Nat.two_pow_pos _
    have : num / den / grain (num / den) < 2 ^ 53 := by
      rw [Nat.div_lt_iff_lt_mul hgrain, grain, Nat.pow_eq, ← Nat.pow_add]
      refine Nat.lt_of_lt_of_le Nat.lt_log2_self ?_
      exact Nat.pow_le_pow_right (by omega) (by omega)
    omega
  exact grain_dvd_mul_two_pow _ _ hcount

/-- Rounding leaves a magnitude of the grid alone. -/
theorem nearest_one {units : Nat} (h : grain units ∣ units) : nearest units 1 = units := by
  obtain ⟨count, hcount⟩ := h
  have hgrain : 0 < grain units := Nat.two_pow_pos _
  have hdiv : units / grain units = count := by
    conv => lhs; lhs; rw [hcount]
    exact Nat.mul_div_cancel_left _ hgrain
  have hmod : units % grain units = 0 := Nat.mod_eq_zero_of_dvd ⟨count, hcount⟩
  have heven : halfEven units (grain units) = count := by
    unfold halfEven
    rw [hmod, hdiv]
    simp [hgrain]
  unfold nearest
  simp only [Nat.div_one, Nat.one_mul, heven]
  rw [Nat.mul_comm]
  exact hcount.symm

end Magnitude

/-- A magnitude that the format can hold. -/
structure Magnitude where
  /-- How many times the least positive number. -/
  units : Nat
  /-- At most 53 binary places are in use. -/
  onGrid : Magnitude.grain units ∣ units
  /-- The magnitude is finite. -/
  bounded : units < Magnitude.limit
  deriving DecidableEq

/-- A number of the 64-bit binary format. -/
inductive Number where
  /-- The result of an operation without a meaningful answer. -/
  | nan
  /-- An infinite number of either sign. -/
  | infinite (negative : Bool)
  /-- A finite number; zero has both signs. -/
  | finite (negative : Bool) (size : Magnitude)
  deriving DecidableEq

namespace Number

/-- The number nearest to a quotient of units, infinite when it is too large. -/
def ofQuotient (negative : Bool) (num den : Nat) : Number :=
  if bounded : Magnitude.nearest num den < Magnitude.limit then
    .finite negative ⟨Magnitude.nearest num den, Magnitude.grain_dvd_nearest num den, bounded⟩
  else .infinite negative

/-- Zero of a sign. -/
def zero (negative : Bool) : Number := ofQuotient negative 0 1

/-- The number nearest to an integer of units; the sign is for zero. -/
def ofUnits (units : Int) (zeroNegative : Bool) : Number :=
  ofQuotient (if units = 0 then zeroNegative else decide (units < 0)) units.natAbs 1

/-- The number nearest to an integer. -/
def ofInt (n : Int) : Number := ofQuotient (decide (n < 0)) (n.natAbs * Magnitude.one) 1

/-- The number nearest to a natural number. -/
def ofNat (n : Nat) : Number := ofInt n

/-- The greatest count of parts: no text and no sequence has more. -/
def mostParts : Nat := Nat.pow 2 53 - 1

/-- A count of parts or of attempts as a number. -/
def ofCount (n : Nat) : Number := ofNat (min n mostParts)

instance (n : Nat) : OfNat Number n := ⟨ofNat n⟩

instance : Inhabited Number := ⟨ofNat 0⟩

/-- The units of a finite number, with its sign. -/
def units? : Number → Option Int
  | .finite negative size => some (if negative then -(size.units : Int) else size.units)
  | _ => none

/-- Whether a number is neither infinite nor the answer to a meaningless question. -/
def isFinite : Number → Bool
  | .finite _ _ => true
  | _ => false

/-- Whether a number is zero, of either sign. -/
def isZero : Number → Bool
  | .finite _ size => size.units == 0
  | _ => false

/-- Whether a number has a minus sign. -/
def isNegative : Number → Bool
  | .finite negative _ => negative
  | .infinite negative => negative
  | .nan => false

/-- The integer that a number is, if it is one. -/
def toInt? : Number → Option Int
  | .finite negative size =>
    if size.units % Magnitude.one = 0 then
      let count := size.units / Magnitude.one
      some (if negative then -(count : Int) else count)
    else none
  | _ => none

/-- The greatest integer that is not above a finite number. -/
def floorInt? : Number → Option Int
  | .finite negative size =>
    some ((if negative then -(size.units : Int) else size.units).fdiv Magnitude.one)
  | _ => none

/-- The least integer that is not below a finite number. -/
def ceilingInt? : Number → Option Int
  | .finite negative size =>
    some (-(if negative then (size.units : Int) else -size.units).fdiv Magnitude.one)
  | _ => none

/-- A number without its places behind the point, down to the next integer. -/
def floor (x : Number) : Number :=
  match x.floorInt? with
  | some n => if n = 0 then zero x.isNegative else ofInt n
  | none => x

/-- Whether a number is an integer. -/
def isInteger (x : Number) : Bool := x.toInt?.isSome

/-! ### Arithmetic -/

/-- The number with the other sign. -/
def neg : Number → Number
  | .nan => .nan
  | .infinite negative => .infinite !negative
  | .finite negative size => .finite (!negative) size

/-- The sum; of two zeros it is negative when both are. -/
def add : Number → Number → Number
  | .nan, _ => .nan
  | _, .nan => .nan
  | .infinite s, .infinite t => if s = t then .infinite s else .nan
  | .infinite s, _ => .infinite s
  | _, .infinite t => .infinite t
  | .finite s a, .finite t b =>
    ofUnits ((if s then -(a.units : Int) else a.units) + (if t then -(b.units : Int) else b.units))
      (s && t)

/-- The difference. -/
def sub (x y : Number) : Number := add x (neg y)

/-- The product. -/
def mul : Number → Number → Number
  | .nan, _ => .nan
  | _, .nan => .nan
  | .infinite s, .infinite t => .infinite (s != t)
  | .infinite s, .finite t b => if b.units = 0 then .nan else .infinite (s != t)
  | .finite s a, .infinite t => if a.units = 0 then .nan else .infinite (s != t)
  | .finite s a, .finite t b => ofQuotient (s != t) (a.units * b.units) Magnitude.one

/-- The quotient. -/
def div : Number → Number → Number
  | .nan, _ => .nan
  | _, .nan => .nan
  | .infinite _, .infinite _ => .nan
  | .infinite s, .finite t _ => .infinite (s != t)
  | .finite s _, .infinite t => zero (s != t)
  | .finite s a, .finite t b =>
    if b.units = 0 then (if a.units = 0 then .nan else .infinite (s != t))
    else ofQuotient (s != t) (a.units * Magnitude.one) b.units

/-- The remainder of the quotient cut towards zero; it has the sign of the dividend. -/
def rem : Number → Number → Number
  | .nan, _ => .nan
  | _, .nan => .nan
  | .infinite _, _ => .nan
  | .finite s a, .infinite _ => .finite s a
  | .finite s a, .finite _ b =>
    if b.units = 0 then .nan else ofQuotient s (a.units % b.units) 1

instance : Neg Number := ⟨neg⟩
instance : Add Number := ⟨add⟩
instance : Sub Number := ⟨sub⟩
instance : Mul Number := ⟨mul⟩
instance : Div Number := ⟨div⟩

/-! ### Comparison -/

/-- How two numbers compare; a meaningless one compares with none. Both zeros are equal. -/
def compare? : Number → Number → Option Ordering
  | .nan, _ => none
  | _, .nan => none
  | .infinite s, .infinite t => some (if s = t then .eq else if s then .lt else .gt)
  | .infinite s, .finite _ _ => some (if s then .lt else .gt)
  | .finite _ _, .infinite t => some (if t then .gt else .lt)
  | .finite s a, .finite t b =>
    some (compare (if s then -(a.units : Int) else a.units)
      (if t then -(b.units : Int) else b.units))

/-- Whether the first number is less. -/
def lt (x y : Number) : Bool := compare? x y == some .lt

/-- Whether the first number is less or equal. -/
def le (x y : Number) : Bool := compare? x y == some .lt || compare? x y == some .eq

/-- Whether two numbers are equal as numbers: both zeros are, a meaningless one is equal to none. -/
def equal (x y : Number) : Bool := compare? x y == some .eq

end Number

end BrowserFlow
