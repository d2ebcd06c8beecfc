/-!
# Finite binary floating-point numbers of 64 bits

A finite number is kept exactly, as a sign, a significand of at most 53 bits and a binary exponent.
Every one of them is a whole multiple of `2 ^ (-1074)`, the smallest positive one, so comparison,
integrality and divisibility are decided on that multiple, `Binary64.units`, without rounding.

* `Binary64.units` is the view all comparisons go through.
* `Binary64.round` is the nearest number to a quotient, a tie going to the even significand; it
  answers `none` where the result would not be finite.
* `Binary64.divides` says whether one number is a whole multiple of another, exactly.
-/

namespace JsonShape

/-- The finite number `± significand · 2 ^ (exponent - 1074)`. -/
structure Binary64 where
  /-- The sign, which zero has too. -/
  negative : Bool
  significand : Nat
  exponent : Nat
  /-- Each value has one form: full precision unless the exponent is the least one. -/
  canonical : significand < 1 <<< 53 ∧ exponent ≤ 2045 ∧ (1 <<< 52 ≤ significand ∨ exponent = 0)
  deriving DecidableEq

namespace Binary64

/-- The number with this sign, significand and exponent, if that is a canonical form. -/
def ofParts? (negative : Bool) (significand exponent : Nat) : Option Binary64 :=
  if h : significand < 1 <<< 53 ∧ exponent ≤ 2045 ∧ (1 <<< 52 ≤ significand ∨ exponent = 0) then
    some ⟨negative, significand, exponent, h⟩
  else none

/-- Positive zero. -/
def zero : Binary64 := ⟨false, 0, 0, by decide⟩

/-- The number with the opposite sign. -/
def neg (x : Binary64) : Binary64 := { x with negative := !x.negative }

/-- The distance from zero, in steps of `2 ^ (-1074)`. -/
def magnitude (x : Binary64) : Nat := x.significand <<< x.exponent

/-- The value in steps of `2 ^ (-1074)`. -/
def units (x : Binary64) : Int := if x.negative then -x.magnitude else x.magnitude

/-- The value one in steps of `2 ^ (-1074)`. -/
def unit : Nat := 1 <<< 1074

/-! ## Comparison -/

/-- Equality as numbers: the two zeros are equal. -/
def same (x y : Binary64) : Bool := x.units == y.units

/-- Strictly less, as numbers. -/
def lt (x y : Binary64) : Bool := x.units < y.units

/-- At most, as numbers. -/
def le (x y : Binary64) : Bool := x.units ≤ y.units

/-- Whether the value is a whole number. -/
def isIntegral (x : Binary64) : Bool := x.magnitude % unit == 0

/-- Whether the value is zero, of either sign. -/
def isZero (x : Binary64) : Bool := x.significand == 0

/-- The whole part, towards zero. -/
def truncate (x : Binary64) : Int := x.units.tdiv unit

/-- Whether `y` is a whole multiple of `x`; the multiples of zero are not counted. -/
def divides (x y : Binary64) : Bool := !x.isZero && y.magnitude % x.magnitude == 0

/-! ## Rounding -/

/-- The whole number nearest to `n / d`; of two equally near, the even one. -/
def roundDiv (n d : Nat) : Nat :=
  let q := n / d
  let r := n % d
  if 2 * r < d then q
  else if d < 2 * r then q + 1
  else if q % 2 = 0 then q else q + 1

/-- The number nearest to `num / den` steps of `2 ^ (-1074)`; a tie goes to the even significand. -/
def roundUnits (negative : Bool) (num den : Nat) : Option Binary64 :=
  let whole := num / den
  let exponent := whole.log2 - 52
  let significand := roundDiv num (den <<< exponent)
  if significand = 1 <<< 53 then ofParts? negative (1 <<< 52) (exponent + 1)
  else ofParts? negative significand exponent

/-- The number nearest to `num / den`; a tie goes to the even significand. -/
def round (negative : Bool) (num den : Nat) : Option Binary64 :=
  roundUnits negative (num * unit) den

/-- The number nearest to a whole number. -/
def ofInt? (n : Int) : Option Binary64 := round (n < 0) n.natAbs 1

/-- The rounded product. -/
def mul? (x y : Binary64) : Option Binary64 :=
  roundUnits (x.negative != y.negative) (x.magnitude * y.magnitude) unit

/-- The rounded quotient. -/
def div? (x y : Binary64) : Option Binary64 :=
  if y.isZero then none
  else roundUnits (x.negative != y.negative) (x.magnitude * unit) y.magnitude

@[simp] theorem units_neg (x : Binary64) : x.neg.units = -x.units := by
  cases h : x.negative <;> simp [units, neg, magnitude, h]

theorem magnitude_eq_natAbs_units (x : Binary64) : x.magnitude = x.units.natAbs := by
  cases h : x.negative <;> simp [units, h]

end Binary64

end JsonShape
