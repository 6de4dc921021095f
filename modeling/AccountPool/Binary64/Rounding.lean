import AccountPool.Binary64.Basic

/-!
# Rounding to the nearest 64-bit number

The nearest number to a positive ratio of integers, with ties to the even significand, overflow to
infinity and gradual underflow. Products, quotients and conversions are the exact result, rounded.
-/

namespace AccountPool.Binary64

/-- The quotient rounded to the nearest integer, a tie to the even one. -/
def roundDiv (numerator denominator : Nat) : Nat :=
  let quotient := numerator / denominator
  let remainder := numerator % denominator
  if denominator < 2 * remainder ∨ (2 * remainder = denominator ∧ quotient % 2 = 1) then
    quotient + 1
  else
    quotient

/-- `n` times a power of two with a non-negative exponent, `n` for a negative one. -/
def shiftUp (n : Nat) (exponent : Int) : Nat :=
  n * Nat.pow 2 exponent.toNat

/-- The greatest `e` with `2 ^ e * denominator ≤ numerator`, for positive arguments. -/
def floorLog2 (numerator denominator : Nat) : Int :=
  let guess : Int := (numerator.log2 : Int) - denominator.log2
  if shiftUp denominator guess ≤ shiftUp numerator (-guess) then guess else guess - 1

/-- The bits of the nearest number to a ratio: the exponent is chosen so that the significand has
53 bits, or is the least one; a significand that rounds up to 54 bits carries into the exponent. -/
def nearestMagnitude (numerator denominator : Nat) : Nat :=
  if numerator = 0 then 0
  else
    let exponent := max (floorLog2 numerator denominator - 52) (-1074)
    let significand := roundDiv (shiftUp numerator (-exponent)) (shiftUp denominator exponent)
    min ((exponent + 1074).toNat * fractionLimit + significand) infinityMagnitude

/-- The nearest number to a ratio with a sign. -/
def nearest (negative : Bool) (numerator denominator : Nat) : Binary64 :=
  ofMagnitude negative (nearestMagnitude numerator denominator)

/-- The nearest number to a natural number. -/
def ofNat (n : Nat) : Binary64 :=
  nearest false n 1

/-- The nearest number to an integer. -/
def ofInt (n : Int) : Binary64 :=
  nearest (n < 0) n.natAbs 1

/-- The product of two finite numbers, rounded. -/
def mul (f g : Binary64) : Binary64 :=
  let scale := f.scale + g.scale
  nearest (f.negative != g.negative)
    (shiftUp (f.significand * g.significand) scale) (shiftUp 1 (-scale))

/-- The quotient of two finite numbers, the second of them not zero, rounded. -/
def div (f g : Binary64) : Binary64 :=
  let scale := f.scale - g.scale
  nearest (f.negative != g.negative)
    (shiftUp f.significand scale) (shiftUp g.significand (-scale))

/-- The same number with the other sign. -/
def neg (f : Binary64) : Binary64 :=
  ofMagnitude (!f.negative) f.magnitude

/-- A finite number as a multiple of a power of two that is not above its last binary place. -/
def unitsOf (f : Binary64) (scale : Int) : Int :=
  let units : Nat := shiftUp f.significand (f.scale - scale)
  if f.negative then -(units : Int) else units

/-- The sum of two finite numbers, rounded; zero is negative only if both are. -/
def add (f g : Binary64) : Binary64 :=
  let scale := min f.scale g.scale
  let sum := f.unitsOf scale + g.unitsOf scale
  nearest (sum < 0 || (sum == 0 && f.negative && g.negative))
    (shiftUp sum.natAbs scale) (shiftUp 1 (-scale))

/-- The difference of two finite numbers, rounded. -/
def sub (f g : Binary64) : Binary64 :=
  f.add g.neg

end AccountPool.Binary64
