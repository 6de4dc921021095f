import AccountPool.Json.Fault
import AccountPool.Text.Integer

/-!
# Reading the tokens of JSON

A reader consumes characters from the front of a cursor. It keeps the number of bytes consumed, so
that a fault can say where it was found: either at the cursor or one byte behind it, just after the
character that was looked at.
-/

namespace AccountPool.Json

/-- The characters still to be read, and the number of bytes read so far. -/
structure Cursor where
  rest : List Char
  offset : Nat

/-- A reason and the number of bytes after which it was found. -/
structure Stop where
  reason : Reason
  offset : Nat

/-- A function that consumes characters and gives a value, or stops. -/
abbrev Reader (α : Type) := StateT Cursor (Except Stop) α

namespace Reader

/-- The next character, not consumed. -/
def peek : Reader (Option Char) :=
  fun cursor => .ok (cursor.rest.head?, cursor)

/-- Consume one character. -/
def skip : Reader Unit :=
  fun cursor =>
    match cursor.rest with
    | [] => .ok ((), cursor)
    | c :: rest => .ok ((), ⟨rest, cursor.offset + c.utf8Size⟩)

/-- Stop at the cursor. -/
def stop (reason : Reason) : Reader α :=
  fun cursor => .error ⟨reason, cursor.offset⟩

/-- Stop one byte behind the cursor, or at the end of the text. -/
def stopAfter (reason : Reason) : Reader α :=
  fun cursor =>
    .error ⟨reason, if cursor.rest = [] then cursor.offset else cursor.offset + 1⟩

/-- Stop because a value does not have the expected shape. -/
def stopMismatch (m : Mismatch) : Reader α :=
  stop (.mismatch m)

/-- The length of a text in bytes. -/
def byteCount (chars : List Char) : Nat :=
  chars.foldl (fun bytes c => bytes + c.utf8Size) 0

/-- Consume the longest run of characters of a class. -/
def run (p : Char → Bool) : Reader (List Char) :=
  fun cursor =>
    let taken := cursor.rest.takeWhile p
    .ok (taken, ⟨cursor.rest.dropWhile p, cursor.offset + byteCount taken⟩)

/-- The blanks that may stand between tokens. -/
def isSpace (c : Char) : Bool :=
  c = ' ' || c = '\n' || c = '\t' || c = '\r'

/-- Skip blanks and give the character behind them. -/
def peekToken : Reader (Option Char) := do
  let _ ← run isSpace
  peek

/-- Consume the given characters; stop behind the first one that differs. -/
def word : List Char → Reader Unit
  | [] => pure ()
  | expected :: more => do
      match ← peek with
      | none => stop .endInValue
      | some c =>
          if c = expected then do
            skip
            word more
          else stopAfter .expectedWord

/-- Run a loop body until it gives a result. The bound is the number of characters left, and each
round that goes on consumes at least one, so the bound is never what ends the loop. -/
def loop (body : σ → Reader (σ ⊕ α)) (init : σ) : Reader α :=
  fun cursor => go (cursor.rest.length + 1) init cursor
where
  /-- The loop with a bound on its rounds. -/
  go : Nat → σ → Reader α
    | 0, _ => stop .expectedValue
    | bound + 1, state => do
        match ← body state with
        | .inl next => go bound next
        | .inr result => pure result

/-! ## Strings -/

/-- Four hexadecimal digits. Four bytes are consumed before they are looked at. -/
def hexUnit : Reader Nat :=
  fun cursor =>
    let bytes := byteCount (cursor.rest.take 4)
    if bytes < 4 then .error ⟨.endInString, cursor.offset + bytes⟩
    else
      match cursor.rest with
      | a :: b :: c :: d :: rest =>
          match Text.hexValue? a, Text.hexValue? b, Text.hexValue? c, Text.hexValue? d with
          | some a, some b, some c, some d =>
              .ok (((a * 16 + b) * 16 + c) * 16 + d, ⟨rest, cursor.offset + 4⟩)
          | _, _, _, _ => .error ⟨.invalidEscape, cursor.offset + 4⟩
      | _ => .error ⟨.invalidEscape, cursor.offset + 4⟩

/-- Consume the character that has to follow the first half of a surrogate pair. -/
def surrogateMark (expected : Char) : Reader Unit := do
  match ← peek with
  | none => stop .endInString
  | some c => if c = expected then skip else stopAfter .unfinishedSurrogate

/-- The code point of a `\u` escape: one unit of four digits, or a pair of surrogates. -/
def unicodeEscape : Reader Char := do
  let unit ← hexUnit
  if 0xDC00 ≤ unit ∧ unit ≤ 0xDFFF then stop .loneSurrogate
  else if unit < 0xD800 ∨ 0xDBFF < unit then pure (Char.ofNat unit)
  else do
    surrogateMark '\\'
    surrogateMark 'u'
    let second ← hexUnit
    if second < 0xDC00 ∨ 0xDFFF < second then stop .loneSurrogate
    else pure (Char.ofNat ((unit - 0xD800) * 0x400 + (second - 0xDC00) + 0x10000))

/-- The character that a one-letter escape stands for. -/
def simpleEscape? (c : Char) : Option Char :=
  if c = '"' ∨ c = '\\' ∨ c = '/' then some c
  else if c = 'b' then some (Char.ofNat 0x8)
  else if c = 'f' then some (Char.ofNat 0xC)
  else if c = 'n' then some '\n'
  else if c = 'r' then some '\r'
  else if c = 't' then some '\t'
  else none

/-- One character of a string, or nothing at the closing quote, which is consumed. -/
def stringChar : Reader (Option Char) := do
  match ← peek with
  | none => stop .endInString
  | some c =>
      if c = '"' then do
        skip
        pure none
      else if c = '\\' then do
        skip
        match ← peek with
        | none => stop .endInString
        | some escape =>
            if escape = 'u' then do
              skip
              some <$> unicodeEscape
            else
              match simpleEscape? escape with
              | some meant => do
                  skip
                  pure (some meant)
              | none => stopAfter .invalidEscape
      else if c.toNat < 0x20 then stopAfter .controlCharacter
      else do
        skip
        pure (some c)

/-- The text of a string whose opening quote is consumed. -/
def stringTail : Reader String :=
  loop (fun read => do
    match ← stringChar with
    | some c => pure (.inl (c :: read))
    | none => pure (.inr (String.ofList read.reverse))) []

/-! ## Numbers -/

/-- Digits that continue a significand below `2 ^ 64`: the significand and how many were taken. -/
def fill (significand : Nat) : List Char → Nat × Nat
  | [] => (significand, 0)
  | c :: digits =>
      let next := 10 * significand + Text.digitValue c
      if next < 0x10000000000000000 then
        let (filled, taken) := fill next digits
        (filled, taken + 1)
      else (significand, 0)

/-- Divide by powers of ten until the exponent is at least -308 or nothing is left. -/
def shrink (f : Binary64) (exponent : Int) : Binary64 × Int :=
  if exponent < -308 ∧ !f.isZero then
    shrink (f.div (.ofNat (Nat.pow 10 308))) (exponent + 308)
  else (f, exponent)
termination_by (-exponent).toNat
decreasing_by omega

/-- `significand * 10 ^ exponent`, rounded after each operation; nothing if it overflows. -/
def scaled? (significand : Nat) (exponent : Int) : Option Binary64 :=
  let f := Binary64.ofNat significand
  if exponent < 0 then
    let (f, exponent) := shrink f exponent
    if exponent < -308 then some f
    else some (f.div (.ofNat (Nat.pow 10 exponent.natAbs)))
  else if 308 < exponent then
    if f.isZero then some f else none
  else
    let f := f.mul (.ofNat (Nat.pow 10 exponent.toNat))
    if f.isFinite then some f else none

/-- A floating-point number with a sign; stop if it overflows. -/
def scaled (negative : Bool) (significand : Nat) (exponent : Int) : Reader Number :=
  match scaled? significand exponent with
  | some f => pure (.binary (if negative then f.neg else f))
  | none => stop .numberOutOfRange

/-- How many exponent digits are read before the exponent leaves the signed 32-bit range. -/
def exponentOverflow? (digits : List Char) : Option Nat :=
  (List.range digits.length).map (· + 1)
    |>.find? fun count => 0x80000000 ≤ Text.digitsValue (digits.take count)

/-- The exponent behind an `e`, which is not yet consumed, and the number with it. -/
def exponentTail (negative : Bool) (significand : Nat) (exponent : Int) : Reader Number := do
  skip
  let sign ← peek
  let down := sign == some '-'
  if down || sign == some '+' then skip
  match ← peek with
  | none => stop .endInValue
  | some c =>
      if !c.isDigit then stopAfter .invalidNumber
      else do
        let start ← get
        let digits ← run Char.isDigit
        match exponentOverflow? digits with
        | some count =>
            if significand ≠ 0 ∧ !down then
              throw ⟨.numberOutOfRange, start.offset + count⟩
            else pure (.binary (.ofMagnitude negative 0))
        | none =>
            let shift : Int := Text.digitsValue digits
            scaled negative significand (if down then exponent - shift else exponent + shift)

/-- The fraction behind a point, which is not yet consumed, and the number with it. -/
def fractionTail (negative : Bool) (significand : Nat) (exponent : Int) : Reader Number := do
  skip
  let digits ← run Char.isDigit
  let next ← peek
  if digits = [] then
    match next with
    | none => stop .endInValue
    | some _ => stopAfter .invalidNumber
  else
    let (significand, taken) := fill significand digits
    let exponent := exponent - taken
    if next = some 'e' ∨ next = some 'E' then exponentTail negative significand exponent
    else scaled negative significand exponent

/-- The integer with a sign, if it fits 64 bits and is not a negative zero. -/
def signedInteger? (negative : Bool) (significand : Nat) : Option Number :=
  if negative then
    if significand = 0 ∨ 0x8000000000000000 < significand then none
    else (WideInteger.ofInt? (-(significand : Int))).map .integer
  else (WideInteger.ofInt? significand).map .integer

/-- A number whose sign is consumed. -/
def numberTail (negative : Bool) : Reader Number := do
  match ← peek with
  | none => stop .endInValue
  | some c =>
      if !c.isDigit then stopAfter .invalidNumber
      else do
        let digits ← (if c = '0' then do
            skip
            pure ['0']
          else run Char.isDigit)
        let next ← peek
        if c = '0' ∧ (next.map Char.isDigit).getD false then stopAfter .invalidNumber
        else
          let (significand, taken) := fill 0 digits
          let exponent : Int := digits.length - taken
          if next = some '.' then fractionTail negative significand exponent
          else if next = some 'e' ∨ next = some 'E' then
            exponentTail negative significand exponent
          else if exponent = 0 then
            match signedInteger? negative significand with
            | some n => pure n
            | none => scaled negative significand 0
          else scaled negative significand exponent

/-- A number that starts at the cursor, with its sign. -/
def number (first : Char) : Reader Number := do
  if first = '-' then do
    skip
    numberTail true
  else numberTail false

/-- The first character of a number. -/
def startsNumber (c : Char) : Bool :=
  c = '-' || c.isDigit

/-! ## Punctuation -/

/-- The colon between a key and its value. -/
def colon : Reader Unit := do
  match ← peekToken with
  | none => stop .endInObject
  | some c => if c = ':' then skip else stopAfter .expectedColon

/-- Whether another item follows in an array; the comma before it is consumed, the closing bracket
is not. -/
def hasItem (first : Bool) : Reader Bool := do
  match ← peekToken with
  | none => stop .endInList
  | some c =>
      if c = ']' then pure false
      else if first then pure true
      else if c = ',' then do
        skip
        match ← peekToken with
        | none => stop .endInValue
        | some c => if c = ']' then stopAfter .trailingComma else pure true
      else stopAfter .expectedListEnd

/-- The key of the next member of an object, or nothing at the closing brace, which is not
consumed. -/
def key? (first : Bool) : Reader (Option String) := do
  match ← peekToken with
  | none => stop .endInObject
  | some c =>
      if c = '\x7d' then pure none
      else if first then quotedKey c
      else if c = ',' then do
        skip
        match ← peekToken with
        | none => stop .endInValue
        | some c => if c = '\x7d' then stopAfter .trailingComma else quotedKey c
      else stopAfter .expectedObjectEnd
where
  /-- The key whose opening quote was seen. -/
  quotedKey (c : Char) : Reader (Option String) :=
    if c = '"' then do
      skip
      some <$> stringTail
    else stopAfter .keyNotString

/-- The end of an array. -/
def listEnd : Reader Unit := do
  match ← peekToken with
  | none => stop .endInList
  | some c =>
      if c = ']' then skip
      else if c = ',' then do
        skip
        match ← peekToken with
        | some ']' => stopAfter .trailingComma
        | _ => stopAfter .trailingCharacters
      else stopAfter .trailingCharacters

/-- The end of the text. -/
def finish : Reader Unit := do
  match ← peekToken with
  | none => pure ()
  | some _ => stopAfter .trailingCharacters

/-- Read a whole text. -/
def readAll (reader : Reader α) (text : String) : Except Fault α :=
  let chars := text.toList
  let whole : Reader α := do
    let value ← reader
    finish
    pure value
  match whole ⟨chars, 0⟩ with
  | .ok (value, _) => .ok value
  | .error stop => .error ⟨stop.reason, some (.ofOffset chars stop.offset)⟩

end Reader

end AccountPool.Json
