import AccountPool.Toml.Scalar

/-!
# Reading the tokens of TOML

A reader consumes characters from the front of a text, or fails. This module reads what does not
nest: blanks, comments, line ends, the four forms of strings, keys and scalars without quotes.
-/

namespace AccountPool.Toml

/-- A function that consumes characters and gives a value, or fails. -/
abbrev Reader (α : Type) := StateT (List Char) Option α

namespace Reader

variable {α σ : Type}

/-- There is no value. -/
def fail : Reader α :=
  fun _ => none

/-- The next character, not consumed. -/
def peek : Reader (Option Char) :=
  fun rest => some (rest.head?, rest)

/-- Consume one character. -/
def skip : Reader Unit :=
  fun rest => some ((), rest.tail)

/-- Consume the longest run of characters of a class. -/
def run (p : Char → Bool) : Reader (List Char) :=
  fun rest => some (rest.takeWhile p, rest.dropWhile p)

/-- Consume a word if it comes next. -/
def accept (word : List Char) : Reader Bool :=
  fun rest => if word.isPrefixOf rest then some (true, rest.drop word.length) else some (false, rest)

/-- Consume a word, which has to come next. -/
def expect (word : List Char) : Reader Unit := do
  if ← accept word then pure () else fail

/-- Run a loop body until it gives a result. The bound is the number of characters left, and each
round that goes on consumes at least one, so the bound is never what ends the loop. -/
def loop (body : σ → Reader (σ ⊕ α)) (start : σ) : Reader α :=
  fun rest => go (rest.length + 1) start rest
where
  /-- The loop with a bound on its rounds. -/
  go : Nat → σ → Reader α
    | 0, _ => fail
    | bound + 1, state => do
        match ← body state with
        | .inl next => go bound next
        | .inr result => pure result

/-! ## Blanks, comments and line ends -/

/-- A blank within a line. -/
def isBlank (c : Char) : Bool :=
  c = ' ' || c = '\t'

/-- A character that may stand in a comment or, special ones apart, in a string. -/
def isPrintable (c : Char) : Bool :=
  c = '\t' || (0x20 ≤ c.toNat && c.toNat ≠ 0x7F)

/-- Consume the blanks within a line. -/
def blanks : Reader Unit := do
  let _ ← run isBlank

/-- Consume a line break if one comes next, and give it. -/
def lineBreak : Reader (List Char) :=
  fun
    | '\n' :: rest => some (['\n'], rest)
    | '\r' :: '\n' :: rest => some (['\r', '\n'], rest)
    | rest => some ([], rest)

/-- Nothing more comes in the line. -/
def atLineEnd : Reader Bool :=
  fun rest =>
    some (match rest with
      | [] | '\n' :: _ | '\r' :: '\n' :: _ => true
      | _ => false, rest)

/-- Consume blanks and a comment, up to the end of the line or to what comes next in it. -/
def comment : Reader Unit := do
  blanks
  if ← accept ['#'] then do
    let _ ← run isPrintable
    if ← atLineEnd then pure () else fail
  else pure ()

/-- Consume the rest of a line, in which nothing but a comment may come. -/
def lineEnd : Reader Unit := do
  comment
  if ← atLineEnd then do
    let _ ← lineBreak
  else fail

/-- Consume blanks, comments and line breaks. -/
def gap : Reader Unit :=
  loop (fun () => do
    comment
    if (← lineBreak).isEmpty then pure (.inr ()) else pure (.inl ())) ()

/-! ## Strings -/

/-- The character with a code point of the given number of hexadecimal digits. -/
def codePoint (count : Nat) : Reader Char :=
  fun rest =>
    let digits := rest.take count
    let n := Scalar.valueOf 16 digits
    if digits.length = count ∧ digits.all (Scalar.isDigitOf 16) ∧ n.isValidChar then
      some (Char.ofNat n, rest.drop count)
    else none

/-- The character that an escape stands for; the backslash is consumed. -/
def escape : Reader Char := do
  let c ← peek
  skip
  match c with
  | some 'b' => pure (Char.ofNat 0x8)
  | some 't' => pure '\t'
  | some 'n' => pure '\n'
  | some 'f' => pure (Char.ofNat 0xC)
  | some 'r' => pure '\r'
  | some 'e' => pure (Char.ofNat 0x1B)
  | some '"' => pure '"'
  | some '\\' => pure '\\'
  | some 'x' => codePoint 2
  | some 'u' => codePoint 4
  | some 'U' => codePoint 8
  | _ => fail

/-- The rest of a string on one line, up to and with its closing quote. -/
def lineString (quote : Char) : Reader String :=
  loop (fun (read : List Char) => do
    match ← peek with
    | none => fail
    | some c => do
        skip
        if c = quote then pure (.inr (String.ofList read.reverse))
        else if c = '\\' ∧ quote = '"' then do
          let escaped ← escape
          pure (.inl (escaped :: read))
        else if isPrintable c then pure (.inl (c :: read))
        else fail) []

/-- The blanks and line breaks after a backslash at the end of a line. -/
def continuation : Reader Unit := do
  blanks
  if (← lineBreak).isEmpty then fail
  else
    loop (fun () => do
      blanks
      if (← lineBreak).isEmpty then pure (.inr ()) else pure (.inl ())) ()

/-- The rest of a string on several lines, up to and with its three closing quotes. Up to two quotes
right before them belong to the string, as does a line break unless it comes first. -/
def blockString (quote : Char) : Reader String := do
  let _ ← lineBreak
  loop (fun (read : List Char) => do
    match ← peek with
    | none => fail
    | some c =>
        if c = quote then do
          let quotes ← run (· = quote)
          if quotes.length < 3 then pure (.inl (quotes ++ read))
          else if quotes.length ≤ 5 then
            pure (.inr (String.ofList (quotes.drop 3 ++ read).reverse))
          else fail
        else if c = '\\' ∧ quote = '"' then do
          skip
          match ← peek with
          | some ' ' | some '\t' | some '\n' | some '\r' => do
              continuation
              pure (.inl read)
          | _ => do
              let escaped ← escape
              pure (.inl (escaped :: read))
        else do
          let lines ← lineBreak
          if lines ≠ [] then pure (.inl (lines.reverse ++ read))
          else if isPrintable c then do
            skip
            pure (.inl (c :: read))
          else fail) []

/-- A string whose opening quote comes next. -/
def string (quote : Char) : Reader String := do
  if ← accept [quote, quote, quote] then blockString quote
  else do
    skip
    lineString quote

/-! ## Keys and scalars -/

/-- A character of a key without quotes. -/
def isKeyChar (c : Char) : Bool :=
  c.isAlphanum || c = '-' || c = '_'

/-- A key without dots. -/
def simpleKey : Reader String := do
  match ← peek with
  | some '"' => do
      skip
      lineString '"'
  | some '\'' => do
      skip
      lineString '\''
  | _ => do
      let key ← run isKeyChar
      if key.isEmpty then fail else pure (String.ofList key)

/-- The number of names that a dotted key may have. -/
def maxNames : Nat := 80

/-- A key and the path of tables before it, with the blanks around it. -/
def key : Reader (List String × String) :=
  loop (fun (path : List String) => do
    blanks
    let key ← simpleKey
    blanks
    if ← accept ['.'] then pure (.inl (key :: path))
    else if maxNames ≤ path.length then fail
    else pure (.inr (path.reverse, key))) []

/-- A character of a scalar without quotes. -/
def isScalarChar (c : Char) : Bool :=
  c.isAlphanum || ['+', '-', '_', '.', ':'].contains c

/-- A scalar without quotes. A single blank may stand between a date and a time. -/
def scalar : Reader Value := do
  let text ← run isScalarChar
  let text ← (fun
    | ' ' :: c :: rest =>
        if Moment.isDate text ∧ c.isDigit then
          some (text ++ ' ' :: (c :: rest).takeWhile isScalarChar, (c :: rest).dropWhile isScalarChar)
        else some (text, ' ' :: c :: rest)
    | rest => some (text, rest) : Reader (List Char))
  match Scalar.value? text with
  | some value => pure value
  | none => fail

end Reader

end AccountPool.Toml
