import AccountPool.Binary64.Reading
import AccountPool.Toml.Moment
import AccountPool.Toml.Value

/-!
# Scalars without quotes

Truth values, integers in four bases, floating-point numbers and moments. Digits may be grouped by
single underscores between them, and a decimal number has no superfluous leading zeros.
-/

namespace AccountPool.Toml.Scalar

/-- The digits of a text in which single underscores may stand between digits. -/
def ungrouped? (isDigit : Char → Bool) : List Char → Option (List Char)
  | [] => none
  | [c] => if isDigit c then some [c] else none
  | c :: '_' :: rest => if isDigit c then (c :: ·) <$> ungrouped? isDigit rest else none
  | c :: rest => if isDigit c then (c :: ·) <$> ungrouped? isDigit rest else none

/-- A digit of a base. -/
def isDigitOf (base : Nat) (c : Char) : Bool :=
  (Text.hexValue? c).any (· < base)

/-- The number that digits of a base denote. -/
def valueOf (base : Nat) (digits : List Char) : Nat :=
  digits.foldl (fun value c => base * value + (Text.hexValue? c).getD 0) 0

/-- A number in a base. -/
def natural? (base : Nat) (text : List Char) : Option Nat :=
  (ungrouped? (isDigitOf base) text).map (valueOf base)

/-- Decimal digits without superfluous leading zeros. -/
def decimal? (text : List Char) : Option (List Char) :=
  match ungrouped? Char.isDigit text with
  | some ('0' :: _ :: _) => none
  | digits => digits

/-- The sign of a number, and what follows it. -/
def splitSign : List Char → List Char × List Char
  | '+' :: rest => (['+'], rest)
  | '-' :: rest => (['-'], rest)
  | rest => ([], rest)

/-- An integer in any base; one with a sign is decimal. -/
def integer? : List Char → Option Int
  | '0' :: 'x' :: digits => (natural? 16 digits).map Int.ofNat
  | '0' :: 'o' :: digits => (natural? 8 digits).map Int.ofNat
  | '0' :: 'b' :: digits => (natural? 2 digits).map Int.ofNat
  | text =>
      let (sign, digits) := splitSign text
      (decimal? digits).map fun digits =>
        if sign = ['-'] then -(Text.digitsValue digits : Int) else Text.digitsValue digits

/-- An integer of a magnitude that can be represented. -/
def boundedInteger? (text : List Char) : Option Int :=
  (integer? text).filter fun n =>
    -0x80000000000000000000000000000000 ≤ n && n < 0x100000000000000000000000000000000

/-- The exponent of a number, with its sign and without underscores. -/
def exponent? (text : List Char) : Option (List Char) :=
  let (sign, digits) := splitSign text
  (sign ++ ·) <$> ungrouped? Char.isDigit digits

/-- The fraction and the exponent of a number, of which at least one is present, without
underscores. -/
def tail? : List Char → Option (List Char)
  | '.' :: rest => do
      let fraction := rest.takeWhile fun c => c ≠ 'e' && c ≠ 'E'
      let digits ← ungrouped? Char.isDigit fraction
      match rest.drop fraction.length with
      | [] => pure ('.' :: digits)
      | mark :: exponent => do
          let exponent ← exponent? exponent
          pure ('.' :: digits ++ mark :: exponent)
  | 'e' :: exponent => ('e' :: ·) <$> exponent? exponent
  | 'E' :: exponent => ('E' :: ·) <$> exponent? exponent
  | _ => none

/-- A finite floating-point number, or one of the words for numbers that are not finite. -/
def float? (text : List Char) : Option Binary64 :=
  let (sign, rest) := splitSign text
  if rest = "inf".toList ∨ rest = "nan".toList then Binary64.read? text
  else do
    let whole := rest.takeWhile fun c => c.isDigit || c = '_'
    let digits ← decimal? whole
    let tail ← tail? (rest.drop whole.length)
    (Binary64.read? (sign ++ digits ++ tail)).filter Binary64.isFinite

/-- The value of a scalar without quotes. -/
def value? (text : List Char) : Option Value :=
  if text = "true".toList then some (.boolean true)
  else if text = "false".toList then some (.boolean false)
  else
    match boundedInteger? text, float? text with
    | some n, _ => some (.integer n)
    | none, some f => some (.float f)
    | none, none => if Moment.isMoment text then some (.moment (String.ofList text)) else none

end AccountPool.Toml.Scalar
