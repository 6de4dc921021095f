import AccountPool.Binary64.Rounding
import AccountPool.Binary64.Shortest

/-!
# JSON numbers

A number is an integer of the signed or unsigned 64-bit range, or a floating-point number; the two
kinds are never equal. Integers print in decimal. A floating-point number prints its shortest digits,
positionally while the exponent of the first digit is from -5 to 15 and with an exponent otherwise,
and always shows that it is not an integer.
-/

namespace AccountPool.Json

/-- An integer that fits 64 bits, with or without sign. -/
structure WideInteger where
  val : Int
  lower : -0x8000000000000000 ≤ val
  upper : val < 0x10000000000000000
deriving DecidableEq

namespace WideInteger

/-- The integer `n`, if it fits. -/
def ofInt? (n : Int) : Option WideInteger :=
  if h : -0x8000000000000000 ≤ n ∧ n < 0x10000000000000000 then some ⟨n, h.1, h.2⟩ else none

/-- A signed 64-bit integer. -/
def ofInt64 (n : Int64) : WideInteger where
  val := n.toInt
  lower := n.le_toInt
  upper := Int.lt_of_lt_of_le n.toInt_lt (by decide)

/-- The signed 64-bit integer with the same value, if there is one. -/
def toInt64? (n : WideInteger) : Option Int64 :=
  if n.val < 0x8000000000000000 then some (Int64.ofInt n.val) else none

instance : Inhabited WideInteger := ⟨⟨0, by decide, by decide⟩⟩

end WideInteger

/-- A JSON number. -/
inductive Number where
  | integer (n : WideInteger)
  | binary (f : Binary64)
deriving DecidableEq, Inhabited

namespace Number

/-- Equality as JSON: kind and value agree, and the two floating-point zeros are equal. -/
def same : Number → Number → Bool
  | .integer m, .integer n => m == n
  | .binary f, .binary g => f.same g
  | _, _ => false

/-- The floating-point number nearest to a number. -/
def toBinary64 : Number → Binary64
  | .integer n => .ofInt n.val
  | .binary f => f

/-- The digits of a decimal number without trailing zeros, and the exponent of the first one. -/
def scientific (decimal : Binary64.Decimal) : List Char × Int :=
  let digits := Nat.toDigits 10 decimal.digits
  let kept := (digits.reverse.dropWhile (· == '0')).reverse
  (kept, decimal.exponent + digits.length - 1)

/-- Digits with the point after the digit of exponent zero; `exponent` is that of the first. -/
def positional (digits : List Char) (exponent : Int) : List Char :=
  if exponent < 0 then
    '0' :: '.' :: List.replicate (-exponent - 1).toNat '0' ++ digits
  else
    let whole := exponent.toNat + 1
    let fraction := digits.drop whole
    digits.take whole ++ List.replicate (whole - digits.length) '0' ++ '.' ::
      (if fraction = [] then ['0'] else fraction)

/-- One digit, a point before the others if there are any, and the exponent with its sign. -/
def exponential (digits : List Char) (exponent : Int) : List Char :=
  let fraction := digits.drop 1
  digits.take 1 ++ (if fraction = [] then [] else '.' :: fraction) ++
    'e' :: (if exponent < 0 then '-' else '+') :: Nat.toDigits 10 exponent.natAbs

/-- The sign-free text of a floating-point number. -/
def binaryDigits (f : Binary64) : List Char :=
  if f.isZero then ['0', '.', '0']
  else
    let (digits, exponent) := scientific f.shortest
    if -5 ≤ exponent ∧ exponent ≤ 15 then positional digits exponent
    else exponential digits exponent

/-- The decimal digits of an integer, with a sign if it is negative. -/
def integerText (n : Int) : List Char :=
  if n < 0 then '-' :: Nat.toDigits 10 n.natAbs else Nat.toDigits 10 n.natAbs

/-- The text of a number. -/
def text : Number → List Char
  | .integer n => integerText n.val
  | .binary f => if f.negative then '-' :: binaryDigits f else binaryDigits f

end Number

end AccountPool.Json
