import AccountPool.Binary64.Pair
import AccountPool.Json.Printer
import AccountPool.Text.Integer

/-!
# Values as database columns

A database compares the value extracted from a stored record with the value looked for. Truth values
become integers, arrays and objects their text, integers beyond the signed 64-bit range become
floating-point numbers, and null equals nothing. So the comparison identifies values that differ as
JSON, and whoever uses it has to compare again. It also tells equal values apart: the database reads a
number in a stored text with pairs, which may miss the number that was written.
-/

namespace AccountPool

open Json (Value)

/-- A value of a database column. -/
inductive Column where
  | null
  | integer (n : Int)
  | real (f : Binary64)
  | text (chars : List Char)

namespace Column

/-- The column value of a JSON value, given what becomes of a number that is no signed integer. -/
def ofValueWith (approximate : Json.Number → Binary64) : Value → Column
  | .null => null
  | .bool b => integer (if b then 1 else 0)
  | .number n =>
      match n with
      | .integer m => if m.val < 0x8000000000000000 then integer m.val else real (approximate n)
      | .binary _ => real (approximate n)
  | .string s => text s.toList
  | .array items => text (Value.array items).compactChars
  | .object members => text (Value.object members).compactChars

/-- The column value that is looked for. -/
def sought : Value → Column :=
  ofValueWith Json.Number.toBinary64

/-- The number that is read from the text of a number. -/
def reread : Json.Number → Binary64
  | .integer n => Binary64.readWithPairs (n.val < 0) (digitsOf n.val.natAbs) 0
  | .binary f =>
      if f.isZero then f
      else
        let decimal := f.shortest
        Binary64.readWithPairs f.negative (digitsOf decimal.digits) decimal.exponent
where
  /-- The decimal digits of a number. -/
  digitsOf (n : Nat) : List Nat :=
    (Nat.toDigits 10 n).map Text.digitValue

/-- The column value of a value in a stored record. -/
def stored : Value → Column :=
  ofValueWith reread

/-- A finite floating-point number is an integer. -/
def isInteger (f : Binary64) (n : Int) : Bool :=
  (n == 0 || f.negative == decide (n < 0)) &&
    Binary64.shiftUp f.significand f.scale == Binary64.shiftUp n.natAbs (-f.scale)

/-- Equality of columns; null is not equal to anything. -/
def equal : Column → Column → Bool
  | integer m, integer n => m == n
  | integer n, real f => isInteger f n
  | real f, integer n => isInteger f n
  | real f, real g => f.same g
  | text s, text t => s == t
  | _, _ => false

end Column

end AccountPool
