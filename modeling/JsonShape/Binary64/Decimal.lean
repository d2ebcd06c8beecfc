import JsonShape.Binary64.Basic

/-!
# Decimal text of floating-point numbers

* `Binary64.shortest` is the decimal with the fewest digits among those that read back as the
  number, and of these the nearest to it.
* `Binary64.text` writes that decimal. The choices of the written form (where positional notation
  ends, the sign of the exponent) are the fields of one record, `DecimalNotation`.
* `Binary64.ofDecimal?` reads a decimal significand and an exponent of ten. It rounds the
  significand first and then each scaling by a power of ten.
-/

namespace JsonShape

namespace Binary64

/-! ## Shortest digits -/

/-- A positive decimal `digits · 10 ^ scale`. -/
structure Decimal where
  digits : Nat
  scale : Int

/-- The interval of reals that round to a number, in quarters of a step of `2 ^ (-1074)`. -/
structure Neighbourhood where
  centre : Nat
  low : Nat
  high : Nat
  /-- Whether the ends belong to the interval. -/
  closed : Bool

/-- The reals that round to the magnitude of `x`. Below a power of two the gap is half as wide. -/
def neighbourhood (x : Binary64) : Neighbourhood :=
  let step := 1 <<< x.exponent
  let below := if x.significand = 1 <<< 52 ∧ x.exponent ≠ 0 then step else 2 * step
  { centre := 4 * x.magnitude
    low := 4 * x.magnitude - below
    high := 4 * x.magnitude + 2 * step
    closed := x.significand % 2 == 0 }

/-- Whether `digits · den / num` of a grid lies in the neighbourhood. -/
def Neighbourhood.holds (n : Neighbourhood) (digits num den : Nat) : Bool :=
  let point := digits * num
  if n.closed then n.low * den ≤ point && point ≤ n.high * den
  else n.low * den < point && point < n.high * den

/-- The multiple of `num / den` in the neighbourhood that is nearest to its centre, if any; a tie
goes to the even multiple. -/
def Neighbourhood.nearest? (n : Neighbourhood) (num den : Nat) : Option Nat :=
  let d := n.centre * den / num
  let r := n.centre * den % num
  let down := n.holds d num den
  let up := n.holds (d + 1) num den
  if down && up then
    some (if 2 * r < num then d else if num < 2 * r then d + 1 else if d % 2 = 0 then d else d + 1)
  else if down then some d
  else if up then some (d + 1)
  else none

/-- Tries the grids of `10 ^ scale`, `10 ^ (scale - 1)`, … in turn, at most `tries` of them. -/
def searchGrid (n : Neighbourhood) : (tries : Nat) → (scale : Int) → Decimal
  | 0, scale => ⟨0, scale⟩
  | tries + 1, scale =>
    let num := 4 * unit * (if 0 ≤ scale then Nat.pow 10 scale.toNat else 1)
    let den := if 0 ≤ scale then 1 else Nat.pow 10 (-scale).toNat
    match n.nearest? num den with
    | some d => ⟨d, scale⟩
    | none => searchGrid n tries (scale - 1)

/-- The shortest decimal that reads back as the magnitude of a number that is not zero: the
coarsest grid with a point in the neighbourhood, and on it the nearest point. The first grid tried
is coarser than the number. -/
def shortest (x : Binary64) : Decimal :=
  let bits : Int := (4 * x.magnitude).log2
  let start := (bits - 1075) * 30103 / 100000 + 2
  searchGrid x.neighbourhood 400 start

/-! ## Written form -/

/-- How a decimal is laid out. -/
structure DecimalNotation where
  /-- The least power of ten of the first digit that is written positionally. -/
  leastPositional : Int
  /-- The greatest one. -/
  greatestPositional : Int
  /-- What marks an exponent. -/
  mark : String
  /-- The sign of an exponent that is not negative. -/
  plus : String

/-- The digits of a natural number, most significant first. -/
def digitsOf (n : Nat) : List Char := Nat.toDigits 10 n

/-- Digits with a point after the first `places`; a whole number keeps one zero behind it. -/
def positional (ds : List Char) (power : Int) : String :=
  if power < 0 then
    "0." ++ String.ofList (List.replicate ((-power).toNat - 1) '0' ++ ds)
  else
    let places := power.toNat + 1
    let whole := ds.take places ++ List.replicate (places - ds.length) '0'
    let part := ds.drop places
    String.ofList (whole ++ '.' :: (if part.isEmpty then ['0'] else part))

/-- One digit, a point where more follow, and the exponent. -/
def scientific (style : DecimalNotation) (ds : List Char) (power : Int) : String :=
  let tail := ds.drop 1
  let exponent := if power < 0 then "-" else style.plus
  String.ofList (ds.take 1 ++ (if tail.isEmpty then [] else '.' :: tail)) ++ style.mark ++ exponent
    ++ String.ofList (digitsOf power.natAbs)

/-- A decimal in a notation. -/
def Decimal.text (style : DecimalNotation) (d : Decimal) : String :=
  let ds := digitsOf d.digits
  let power := (ds.length : Int) - 1 + d.scale
  if style.leastPositional ≤ power ∧ power ≤ style.greatestPositional then positional ds power
  else scientific style ds power

/-- Numbers are positional from `0.00001` up to sixteen digits before the point; other exponents
carry their sign. -/
def notationOfJson : DecimalNotation := ⟨-5, 15, "e", "+"⟩

/-- The shortest text that reads back as the number. -/
def text (x : Binary64) : String :=
  let sign := if x.negative then "-" else ""
  if x.isZero then sign ++ "0.0" else sign ++ x.shortest.text notationOfJson

/-! ## Reading -/

/-- The number nearest to `10 ^ n`, for `n ≤ 308`. -/
def powerOfTen? (n : Nat) : Option Binary64 := round false (Nat.pow 10 n) 1

/-- Divides by `10 ^ 308`, `times` times, or until zero is left. -/
def scaleDown : (times : Nat) → Binary64 → Option Binary64
  | 0, x => some x
  | times + 1, x =>
    if x.isZero then some x
    else do
      let p ← powerOfTen? 308
      let y ← x.div? p
      scaleDown times y

/-- The number read from `significand · 10 ^ exponent`: the significand is rounded, and so is every
scaling by a power of ten up to `10 ^ 308`. There is none where the value would not be finite. -/
def ofDecimal? (negative : Bool) (significand : Nat) (exponent : Int) : Option Binary64 := do
  let x ← round false significand 1
  let y ←
    if 0 ≤ exponent then
      if exponent ≤ 308 then do
        let p ← powerOfTen? exponent.toNat
        x.mul? p
      else if x.isZero then some x
      else none
    else do
      let n := (-exponent).toNat
      let times := (n - 1) / 308
      let z ← scaleDown times x
      if z.isZero then some z
      else do
        let p ← powerOfTen? (n - 308 * times)
        z.div? p
  some (if negative then y.neg else y)

end Binary64

end JsonShape
