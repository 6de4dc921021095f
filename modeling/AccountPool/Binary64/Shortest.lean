import AccountPool.Binary64.Basic

/-!
# Shortest decimal digits

The fewest decimal digits that read back as a given number, and of those the nearest. Each count of
digits is a decimal grid; the two grid points around the number are tested against the interval of
reals that round to it, in exact integer arithmetic.
-/

namespace AccountPool.Binary64

/-- `10 ^ exponent` for a non-negative exponent, one for a negative one. -/
def pow10 (exponent : Int) : Nat :=
  Nat.pow 10 exponent.toNat

/-- `2 ^ exponent` for a non-negative exponent, one for a negative one. -/
def pow2 (exponent : Int) : Nat :=
  Nat.pow 2 exponent.toNat

/-- The number of decimal digits of `n`. -/
def digitCount (n : Nat) : Nat :=
  (Nat.toDigits 10 n).length

/-- The greatest `e` with `10 ^ e * denominator ≤ numerator`, for positive arguments. -/
def floorLog10 (numerator denominator : Nat) : Int :=
  if denominator ≤ numerator then
    digitCount (numerator / denominator) - 1
  else
    let least : Nat := digitCount (denominator / numerator) - 1
    if denominator ≤ numerator * Nat.pow 10 least then -(least : Int) else -(least + 1 : Int)

/-- The reals that round to a number, in units of a quarter of its last binary place. -/
structure Interval where
  /-- The lower end. -/
  low : Nat
  /-- The number itself. -/
  center : Nat
  /-- The upper end. -/
  high : Nat
  /-- Whether the ends round to the number too. -/
  closed : Bool
  /-- The unit is `2 ^ unit`. -/
  unit : Int

/-- The interval around a finite number. Below a power of two the numbers are twice as dense. -/
def interval (f : Binary64) : Interval where
  low := 4 * f.significand - (if f.fractionBits = 0 ∧ 1 < f.exponentBits then 1 else 2)
  center := 4 * f.significand
  high := 4 * f.significand + 2
  closed := f.significand % 2 == 0
  unit := f.scale - 2

/-- The decimal number `digits * 10 ^ exponent`. -/
structure Decimal where
  digits : Nat
  exponent : Int
deriving DecidableEq, Repr

/-- The two sides of a comparison of `digits * 10 ^ exponent` with `n` units, free of fractions. -/
def Interval.sides (around : Interval) (decimal : Decimal) (n : Nat) : Nat × Nat :=
  (decimal.digits * pow10 decimal.exponent * pow2 (-around.unit),
    n * pow10 (-decimal.exponent) * pow2 around.unit)

/-- The decimal number rounds to the number in the middle of the interval. -/
def Interval.holds (around : Interval) (decimal : Decimal) : Bool :=
  let (value, low) := around.sides decimal around.low
  let (_, high) := around.sides decimal around.high
  if around.closed then low ≤ value && value ≤ high else low < value && value < high

/-- The nearest of the two points around the centre on the grid of multiples of
`10 ^ exponent`, if one of them lies in the interval; of two equally near ones the even one. -/
def Interval.gridPoint? (around : Interval) (exponent : Int) : Option Decimal :=
  let (unit, center) := around.sides ⟨1, exponent⟩ around.center
  let below := center / unit
  let remainder := center % unit
  let lower : Decimal := ⟨below, exponent⟩
  let upper : Decimal := ⟨below + 1, exponent⟩
  match around.holds lower, around.holds upper with
  | true, true =>
      if 2 * remainder < unit ∨ (2 * remainder = unit ∧ below % 2 = 0) then some lower
      else some upper
  | true, false => some lower
  | false, true => some upper
  | false, false => none

/-- Try grids of ever more digits; the last one always has a hit. -/
def Interval.firstPoint (around : Interval) : Nat → Int → Decimal
  | 0, exponent => (around.gridPoint? exponent).getD ⟨0, 0⟩
  | more + 1, exponent =>
      match around.gridPoint? exponent with
      | some decimal => decimal
      | none => around.firstPoint more (exponent - 1)

/-- The shortest decimal that reads back as a finite number other than zero, and the nearest of
those. -/
def shortest (f : Binary64) : Decimal :=
  let around := f.interval
  let first := floorLog10 (around.center * pow2 around.unit) (pow2 (-around.unit))
  around.firstPoint 16 first

end AccountPool.Binary64
