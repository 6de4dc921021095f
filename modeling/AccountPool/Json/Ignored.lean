import AccountPool.Json.Reader

/-!
# Skipping a value

The value of an unknown member is skipped without being built. Its grammar is checked, but numbers
may have any size, surrogates need no partner, and arrays and objects may be nested to any depth.
-/

namespace AccountPool.Json.Reader

/-- An array or object that is open around the cursor. -/
inductive Frame where
  | list
  | object
deriving DecidableEq

namespace Frame

/-- The character that ends a frame. -/
def close : Frame → Char
  | .list => ']'
  | .object => '\x7d'

/-- The reason if the text ends inside a frame. -/
def ended : Frame → Reason
  | .list => .endInList
  | .object => .endInObject

/-- The reason if neither a comma nor the end follows an item. -/
def unclosed : Frame → Reason
  | .list => .expectedListEnd
  | .object => .expectedObjectEnd

end Frame

/-- Skip one character of a string; false at the closing quote, which is consumed. -/
def ignoredChar : Reader Bool := do
  match ← peek with
  | none => stop .endInString
  | some c =>
      if c = '"' then do
        skip
        pure false
      else if c = '\\' then do
        skip
        match ← peek with
        | none => stop .endInString
        | some escape =>
            if escape = 'u' then do
              skip
              let _ ← hexUnit
              pure true
            else if (simpleEscape? escape).isSome then do
              skip
              pure true
            else stopAfter .invalidEscape
      else if c.toNat < 0x20 then stop .controlCharacter
      else do
        skip
        pure true

/-- Skip a string whose opening quote is consumed. -/
def ignoredString : Reader Unit :=
  loop (fun () => do
    if ← ignoredChar then pure (.inl ()) else pure (.inr ())) ()

/-- Skip the exponent behind an `e`, which is not yet consumed. -/
def ignoredExponent : Reader Unit := do
  skip
  let sign ← peek
  if sign == some '+' || sign == some '-' then skip
  if (← run Char.isDigit).isEmpty then stopAfter .invalidNumber

/-- Skip an exponent if there is one. -/
def ignoredScale : Reader Unit := do
  let next ← peek
  if next == some 'e' || next == some 'E' then ignoredExponent

/-- Skip a number that starts at the cursor. -/
def ignoredNumber (first : Char) : Reader Unit := do
  if first = '-' then skip
  let digits ← (do
    if (← peek) == some '0' then do
      skip
      if ((← peek).map Char.isDigit).getD false then stopAfter .invalidNumber
      else pure ['0']
    else run Char.isDigit)
  if digits.isEmpty then stopAfter .invalidNumber
  if (← peek) == some '.' then do
    skip
    if (← run Char.isDigit).isEmpty then stopAfter .invalidNumber
  ignoredScale

/-- Leave the frames that end at the cursor. Nothing is left of a complete value; otherwise another
item follows in the innermost frame. A comma is only allowed behind an item. -/
def leaveFrames : Bool → List Frame → Reader (List Frame)
  | _, [] => pure []
  | afterItem, frame :: outer => do
      match ← peekToken with
      | none => stop frame.ended
      | some c =>
          if c = ',' ∧ afterItem then do
            skip
            pure (frame :: outer)
          else if c = frame.close then do
            skip
            leaveFrames true outer
          else if afterItem then stopAfter frame.unclosed
          else pure (frame :: outer)

/-- Skip the key and the colon of the next member, if the innermost frame is an object. -/
def ignoredKey : List Frame → Reader Unit
  | .object :: _ => do
      match ← peekToken with
      | none => stop .endInObject
      | some c =>
          if c = '"' then do
            skip
            ignoredString
            colon
          else stopAfter .keyNotString
  | _ => pure ()

/-- Skip a scalar, or open a frame. -/
def ignoredStart : Reader (Option Frame) := do
  match ← peekToken with
  | none => stop .endInValue
  | some c =>
      if c = 'n' then do
        word ['n', 'u', 'l', 'l']
        pure none
      else if c = 't' then do
        word ['t', 'r', 'u', 'e']
        pure none
      else if c = 'f' then do
        word ['f', 'a', 'l', 's', 'e']
        pure none
      else if startsNumber c then do
        ignoredNumber c
        pure none
      else if c = '"' then do
        skip
        ignoredString
        pure none
      else if c = '[' then do
        skip
        pure (some .list)
      else if c = '\x7b' then do
        skip
        pure (some .object)
      else stopAfter .expectedValue

/-- Skip a value. -/
def ignoredValue : Reader Unit :=
  loop (fun (frames : List Frame) => do
    let unfinished ← (do
      match ← ignoredStart with
      | none => leaveFrames true frames
      | some frame => leaveFrames false (frame :: frames))
    if unfinished.isEmpty then pure (.inr ())
    else do
      ignoredKey unfinished
      pure (.inl unfinished)) []

end AccountPool.Json.Reader
