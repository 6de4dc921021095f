import AccountPool.Binary64.Rounding

/-!
# Reading a decimal number with pairs

A pair of numbers stands for their exact sum and so has about twice the precision of one of them. A
decimal number can be read by taking its digits as a pair and multiplying it by powers of ten that are
pairs too. Few operations are needed for that, but each product loses a little, and for numbers with
a large exponent the result may not be the nearest one.
-/

namespace AccountPool.Binary64

/-- The number without the lower half of its significand. -/
def upperHalf (f : Binary64) : Binary64 :=
  ⟨UInt64.ofNat (f.bits.toNat / 0x4000000 * 0x4000000)⟩

/-- Two numbers that stand for their sum; the tail is small against the head. -/
structure Pair where
  head : Binary64
  tail : Binary64
deriving DecidableEq, Repr

namespace Pair

/-- The number nearest to a positive ratio, with the number nearest to what it lacks. -/
def ofRatio (numerator denominator : Nat) : Pair :=
  let head := nearest false numerator denominator
  let reached := shiftUp (head.significand * denominator) head.scale
  let wanted := shiftUp numerator (-head.scale)
  let lacking : Int := (wanted : Int) - reached
  ⟨head, nearest (lacking < 0) lacking.natAbs (shiftUp denominator (-head.scale))⟩

/-- A natural number below `2 ^ 64`, unless its nearest number is `2 ^ 64`: then that. -/
def ofNat (n : Nat) : Pair :=
  let pair := ofRatio n 1
  if pair.head = Binary64.ofNat 0x10000000000000000 then ⟨pair.head, Binary64.ofNat 0⟩ else pair

/-- A power of ten. -/
def powerOfTen (exponent : Int) : Pair :=
  ofRatio (Nat.pow 10 exponent.toNat) (Nat.pow 10 (-exponent).toNat)

/-- The product of two pairs. The heads are multiplied without error in halves, and the products with
tails are added to what the product of the heads lacks. -/
def mul (x y : Pair) : Pair :=
  let high := x.head.upperHalf
  let low := x.head.sub high
  let high' := y.head.upperHalf
  let low' := y.head.sub high'
  let outer := high.mul high'
  let inner := (high.mul low').add (low.mul high')
  let whole := outer.add inner
  let rest := ((outer.sub whole).add inner).add (low.mul low')
  let rest := ((x.head.mul y.tail).add (x.tail.mul y.head)).add rest
  let head := whole.add rest
  ⟨head, (whole.sub head).add rest⟩

/-- The pair multiplied by a power several times. -/
def mulPower (x : Pair) (exponent : Int) (times : Nat) : Pair :=
  let factor := powerOfTen exponent
  (List.range times).foldl (fun x _ => x.mul factor) x

/-- The pair times `10 ^ exponent`, by way of hundredth, tenth and first powers. -/
def scaleByTen (x : Pair) (exponent : Int) : Pair :=
  let count := exponent.natAbs
  let power (step : Nat) : Int := if exponent < 0 then -(step : Int) else step
  ((x.mulPower (power 100) (count / 100)).mulPower (power 10) (count % 100 / 10)).mulPower
    (power 1) (count % 10)

/-- The number that a pair stands for, rounded. -/
def sum (x : Pair) : Binary64 :=
  x.head.add x.tail

end Pair

/-- A natural number is cut off before it exceeds this bound. -/
def significandLimit : Nat :=
  (0x10000000000000000 - 10) / 10

/-- Digits as a number of at most 64 bits, and how many of them did not fit in. -/
def readSignificand (digits : List Nat) : Nat × Nat :=
  digits.foldl (fun (significand, omitted) digit =>
    if significand < significandLimit then (10 * significand + digit, omitted)
    else (significand, omitted + 1)) (0, 0)

/-- Move powers of ten from a positive exponent into the significand while it stays small. -/
def absorb : Nat → Nat → Nat × Nat
  | significand, 0 => (significand, 0)
  | significand, exponent + 1 =>
      if significand < (0x10000000000000000 - 2048) / 10 then absorb (10 * significand) exponent
      else (significand, exponent + 1)

/-- Move powers of ten out of the significand while the exponent, of which the absolute value is
given, is negative. -/
def release : Nat → Nat → Nat × Nat
  | significand, 0 => (significand, 0)
  | significand, exponent + 1 =>
      if significand % 10 = 0 then release (significand / 10) exponent
      else (significand, exponent + 1)

/-- Read `digits * 10 ^ exponent` with pairs. -/
def readWithPairs (negative : Bool) (digits : List Nat) (exponent : Int) : Binary64 :=
  let (significand, omitted) := readSignificand digits
  if significand = 0 then ofMagnitude negative 0
  else
    let exponent := exponent + omitted
    let f :=
      if 0 ≤ exponent then
        let (significand, exponent) := absorb significand exponent.toNat
        ((Pair.ofNat significand).scaleByTen exponent).sum
      else
        let (significand, exponent) := release significand exponent.natAbs
        ((Pair.ofNat significand).scaleByTen (-(exponent : Int))).sum
    if negative then f.neg else f

end AccountPool.Binary64
