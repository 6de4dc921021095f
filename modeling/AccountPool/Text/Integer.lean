import AccountPool.Text.Blank

/-!
# Decimal integers in text

Reading an optional sign followed by one or more ASCII digits, and the same with blanks around it
and a range check. Nothing wraps: a text outside the range is refused.
-/

namespace AccountPool.Text

/-- The value of an ASCII digit. -/
def digitValue (c : Char) : Nat :=
  c.toNat - '0'.toNat

/-- The value of a digit in bases up to sixteen; letters of both cases count. -/
def hexValue? (c : Char) : Option Nat :=
  if c.isDigit then some (digitValue c)
  else if 'a' ≤ c ∧ c ≤ 'f' then some (c.toNat - 'a'.toNat + 10)
  else if 'A' ≤ c ∧ c ≤ 'F' then some (c.toNat - 'A'.toNat + 10)
  else none

/-- The number that a list of ASCII digits denotes, most significant digit first. -/
def digitsValue (digits : List Char) : Nat :=
  digits.foldl (fun value c => 10 * value + digitValue c) 0

/-- A non-empty list of ASCII digits as a number. -/
def readNat? (text : List Char) : Option Nat :=
  if text ≠ [] ∧ text.all Char.isDigit then some (digitsValue text) else none

/-- An optional sign followed by one or more ASCII digits. -/
def readInt? : List Char → Option Int
  | '+' :: digits => (readNat? digits).map Int.ofNat
  | '-' :: digits => (readNat? digits).map fun n => -(n : Int)
  | digits => (readNat? digits).map Int.ofNat

/-- `n` is a signed 64-bit integer. -/
def inInt64 (n : Int) : Bool :=
  -0x8000000000000000 ≤ n && n < 0x8000000000000000

/-- The signed 64-bit integer that a text denotes once the blanks around it are taken off. -/
def readInt64? (text : List Char) : Option Int64 :=
  match readInt? (trim text) with
  | some n => if inInt64 n then some (Int64.ofInt n) else none
  | none => none

end AccountPool.Text
