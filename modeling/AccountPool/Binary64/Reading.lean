import AccountPool.Binary64.Rounding
import AccountPool.Text.Integer

/-!
# Reading a decimal number

The grammar of a decimal floating-point text and the number nearest to what it denotes. Words for
infinity and for the absence of a number are read in any case of letters.
-/

namespace AccountPool.Binary64

/-- The positive infinity or, with the sign, the negative one. -/
def infinity (negative : Bool) : Binary64 :=
  ofMagnitude negative infinityMagnitude

/-- A value that is not a number. -/
def notANumber : Binary64 :=
  ofMagnitude false (infinityMagnitude + fractionLimit / 2)

/-- The number nearest to `digits * 10 ^ exponent`. Exponents far outside the range of the format
are cut off before any power is computed. -/
def ofDecimal (negative : Bool) (digits : Nat) (exponent : Int) : Binary64 :=
  let size : Int := (Nat.toDigits 10 digits).length + exponent
  if digits = 0 ∨ size < -400 then ofMagnitude negative 0
  else if 400 < size then infinity negative
  else nearest negative (digits * Nat.pow 10 exponent.toNat) (Nat.pow 10 (-exponent).toNat)

/-- The exponent digits as a number that stops growing once it is out of any range. -/
def exponentValue (digits : List Char) : Nat :=
  digits.foldl (fun value c => if value < 65536 then 10 * value + Text.digitValue c else value) 0

/-- The exponent that follows the digits of a number: nothing, or `e` and a signed integer. -/
def readExponent? : List Char → Option Int
  | [] => some 0
  | e :: rest =>
      if e = 'e' ∨ e = 'E' then
        let (negative, digits) := match rest with
          | '-' :: digits => (true, digits)
          | '+' :: digits => (false, digits)
          | digits => (false, digits)
        if digits ≠ [] ∧ digits.all Char.isDigit then
          some (if negative then -(exponentValue digits : Int) else exponentValue digits)
        else none
      else none

/-- A number without sign: digits with an optional point, at least one digit, and an optional
exponent. -/
def readUnsigned? (negative : Bool) (text : List Char) : Option Binary64 :=
  let whole := text.takeWhile Char.isDigit
  let rest := text.dropWhile Char.isDigit
  let (fraction, rest) := match rest with
    | '.' :: rest => (rest.takeWhile Char.isDigit, rest.dropWhile Char.isDigit)
    | rest => ([], rest)
  let digits := whole ++ fraction
  if digits = [] then none
  else (readExponent? rest).map fun exponent =>
    ofDecimal negative (Text.digitsValue digits) (exponent - fraction.length)

/-- The two spellings of infinity, in lower case. -/
def infinityWords : List String :=
  ["inf", "infinity"]

/-- A whole text as a number. -/
def read? (text : List Char) : Option Binary64 :=
  let (negative, rest) := match text with
    | '-' :: rest => (true, rest)
    | '+' :: rest => (false, rest)
    | rest => (false, rest)
  let word := String.ofList (rest.map Char.toLower)
  if infinityWords.contains word then some (infinity negative)
  else if word = "nan" then some notANumber
  else readUnsigned? negative rest

end AccountPool.Binary64
