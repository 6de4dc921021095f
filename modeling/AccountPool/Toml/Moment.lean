import AccountPool.Text.Integer

/-!
# Dates and times

A moment is a date, a time of day, or both with an optional offset from universal time. The numbers
have a fixed width and a range each; the seconds may be left out.
-/

namespace AccountPool.Toml.Moment

/-- A number of the given width in a range, and what follows it. -/
def number? (width lower upper : Nat) (text : List Char) : Option (Nat × List Char) :=
  let digits := text.takeWhile Char.isDigit
  let n := Text.digitsValue digits
  if digits.length = width ∧ lower ≤ n ∧ n ≤ upper then some (n, text.dropWhile Char.isDigit)
  else none

/-- What follows a character. -/
def after? (c : Char) : List Char → Option (List Char)
  | d :: rest => if d = c then some rest else none
  | [] => none

/-- The number of days of a month. -/
def monthLength (year month : Nat) : Nat :=
  if month = 2 then
    if year % 4 = 0 ∧ (year % 100 ≠ 0 ∨ year % 400 = 0) then 29 else 28
  else if [4, 6, 9, 11].contains month then 30
  else 31

/-- What follows a date. -/
def afterDate? (text : List Char) : Option (List Char) := do
  let (year, text) ← number? 4 0 9999 text
  let text ← after? '-' text
  let (month, text) ← number? 2 1 12 text
  let text ← after? '-' text
  let (_, text) ← number? 2 1 (monthLength year month) text
  pure text

/-- What follows the fraction of a second, which has at least one digit. -/
def afterFraction? : List Char → Option (List Char)
  | '.' :: text =>
      if text.head?.any Char.isDigit then some (text.dropWhile Char.isDigit) else none
  | text => some text

/-- What follows a time of day. -/
def afterTime? (text : List Char) : Option (List Char) := do
  let (_, text) ← number? 2 0 23 text
  let text ← after? ':' text
  let (_, text) ← number? 2 0 59 text
  match text with
  | ':' :: text => do
      let (_, text) ← number? 2 0 60 text
      afterFraction? text
  | text => pure text

/-- A whole text is an offset from universal time, or empty. -/
def isOffset (text : List Char) : Bool :=
  match text with
  | [] => true
  | ['Z'] | ['z'] => true
  | sign :: text =>
      (sign = '+' || sign = '-') && (do
        let (_, text) ← number? 2 0 23 text
        let text ← after? ':' text
        let (_, text) ← number? 2 0 59 text
        pure text) == some []

/-- A whole text is a date. -/
def isDate (text : List Char) : Bool :=
  afterDate? text == some []

/-- A whole text is a moment. -/
def isMoment (text : List Char) : Bool :=
  match afterDate? text with
  | some [] => true
  | some (mark :: time) =>
      (mark = 'T' || mark = 't' || mark = ' ') && (afterTime? time).any isOffset
  | none => afterTime? text == some []

end AccountPool.Toml.Moment
