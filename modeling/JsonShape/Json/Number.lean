import JsonShape.Binary64.Decimal

/-!
# JSON numbers

A JSON number is a whole number or a binary floating-point number, and the two kinds are different
values even where they denote the same number: `1` is not `1.0`.

* `Number.toBinary64?` is the common scale on which the kinds are compared.
* `Number.same` is equality as JSON values, `Number.sameValue` equality on the common scale.
* `Number.isMultipleOf` is divisibility by a floating-point factor.
* `Number.plain` writes a floating-point number without a fraction as a whole number.

All numbers are finite, as those of JSON texts are: there is no infinity, and no value that is no
number.
-/

namespace JsonShape

/-- A number of a JSON document. -/
inductive Number
  /-- A whole number, written without fraction and exponent. -/
  | int (n : Int)
  /-- Any other number. -/
  | float (x : Binary64)
  deriving DecidableEq

namespace Number

/-- The least whole number that is kept exactly, `-2 ^ 63`. -/
def leastInt : Int := -0x8000000000000000

/-- The greatest whole number that counts as signed, `2 ^ 63 - 1`. -/
def greatestSigned : Int := 0x7fffffffffffffff

/-- The nearest floating-point number. -/
def toBinary64? : Number → Option Binary64
  | int n => Binary64.ofInt? n
  | float x => some x

/-- Whether the number has no fractional part, of either kind. -/
def isIntegral : Number → Bool
  | int _ => true
  | float x => x.isIntegral

/-- The form in which the two floating-point zeros coincide. -/
def canonical : Number → Number
  | int n => int n
  | float x => if x.isZero then float .zero else float x

/-- Equality as JSON values: of one kind and equal. -/
def same (a b : Number) : Bool := a.canonical = b.canonical

/-- Equality as numbers: equal values, or of one nearest floating-point number. -/
def sameValue (a b : Number) : Bool :=
  a.same b ||
    match a.toBinary64?, b.toBinary64? with
    | some x, some y => x.same y
    | _, _ => false

/-- A floating-point number as it appears in a document: whole numbers of the signed range, both
ends of it included, are written as such, and `2 ^ 63` as the greatest of them. -/
def plain (x : Binary64) : Number :=
  if x.isIntegral ∧ leastInt ≤ x.truncate ∧ x.truncate ≤ greatestSigned + 1 then
    int (min x.truncate greatestSigned)
  else float x

/-- Whether the number is a whole multiple of a factor that is not zero. A signed whole number and
a whole factor of that range are compared as such, and everything else on the common scale. -/
def isMultipleOf (factor : Binary64) : Number → Bool
  | int n =>
    if factor.isZero then false
    else if n ≤ greatestSigned ∧ factor.isIntegral ∧
        factor.truncate.natAbs ≤ 0x8000000000000000 then
      n % min factor.truncate greatestSigned = 0
    else (Binary64.ofInt? n).any factor.divides
  | float x => factor.divides x

/-- The decimal digits of a whole number. -/
def intText (n : Int) : String :=
  (if n < 0 then "-" else "") ++ String.ofList (Binary64.digitsOf n.natAbs)

/-- The text of a number in a document. -/
def text : Number → String
  | int n => intText n
  | float x => x.text

@[simp] theorem same_self (a : Number) : a.same a := by simp [same]

end Number

end JsonShape
