/-!
# Binary floating-point numbers of 64 bits

A number is its bit pattern. A finite one denotes `significand * 2 ^ scale` with its sign, and every
operation of the project goes through these two integers; no machine arithmetic is used.
-/

namespace AccountPool

/-- A floating-point number, given by its 64 bits: sign, 11 bits of exponent, 52 of fraction. -/
structure Binary64 where
  bits : UInt64
deriving DecidableEq, Repr, Inhabited

namespace Binary64

/-- The bit of the sign, `2 ^ 63`. -/
def signBit : Nat :=
  0x8000000000000000

/-- The bit above those of the fraction, `2 ^ 52`. -/
def fractionLimit : Nat :=
  0x10000000000000

/-- The bits of the sign-free part that stand for infinity; greater ones are not numbers. -/
def infinityMagnitude : Nat :=
  2047 * fractionLimit

/-- Join a sign and the bits of the sign-free part. -/
def ofMagnitude (negative : Bool) (magnitude : Nat) : Binary64 :=
  ⟨UInt64.ofNat (if negative then signBit + magnitude else magnitude)⟩

/-- The bits without the sign. -/
def magnitude (f : Binary64) : Nat :=
  f.bits.toNat % signBit

/-- The sign bit. -/
def negative (f : Binary64) : Bool :=
  signBit ≤ f.bits.toNat

/-- Zero of either sign. -/
def isZero (f : Binary64) : Bool :=
  f.magnitude == 0

/-- Neither infinite nor the absence of a number. -/
def isFinite (f : Binary64) : Bool :=
  f.magnitude < infinityMagnitude

/-- The exponent bits. -/
def exponentBits (f : Binary64) : Nat :=
  f.magnitude / fractionLimit

/-- The fraction bits. -/
def fractionBits (f : Binary64) : Nat :=
  f.magnitude % fractionLimit

/-- The integer whose product with `2 ^ scale` is the absolute value. -/
def significand (f : Binary64) : Nat :=
  if f.exponentBits = 0 then f.fractionBits else fractionLimit + f.fractionBits

/-- The power of two that goes with `significand`. -/
def scale (f : Binary64) : Int :=
  (max f.exponentBits 1 : Nat) - 1075

/-- Equality of finite numbers: the two zeros are equal, all else differs with its bits. -/
def same (f g : Binary64) : Bool :=
  f == g || (f.isZero && g.isZero)

end Binary64

end AccountPool
