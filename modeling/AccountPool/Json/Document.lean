import AccountPool.Json.Reader

/-!
# Reading JSON documents

A document is one value with blanks around it. Objects are read into maps, so the last of several
members with one key stays. Arrays and objects may be nested 127 levels deep.
-/

namespace AccountPool.Json

namespace Reader

/-- The levels of arrays and objects that a document may have. -/
def maxDepth : Nat := 127

/-- The items of an array whose opening bracket is consumed, up to and with the closing one. -/
def items (item : Reader Value) : Reader (List Value) := do
  let found ← loop (fun (read : List Value) => do
    if ← hasItem read.isEmpty then do
      let value ← item
      pure (.inl (value :: read))
    else pure (.inr read.reverse)) []
  listEnd
  pure found

/-- The members of an object whose opening brace is consumed, up to and with the closing one. -/
def members (value : Reader Value) : Reader Members :=
  loop (fun ((first, read) : Bool × Members) => do
    match ← key? first with
    | none => do
        skip
        pure (.inr read)
    | some key => do
        colon
        let value ← value
        pure (.inl (false, read.insert key value))) (true, {})

/-- A value, given how deeper values are read if they are allowed. -/
def valueWith (inner : Option (Reader Value)) : Reader Value := do
  match ← peekToken with
  | none => stop .endInValue
  | some c =>
      if c = 'n' then do
        word ['n', 'u', 'l', 'l']
        pure .null
      else if c = 't' then do
        word ['t', 'r', 'u', 'e']
        pure (.bool true)
      else if c = 'f' then do
        word ['f', 'a', 'l', 's', 'e']
        pure (.bool false)
      else if startsNumber c then .number <$> number c
      else if c = '"' then do
        skip
        .string <$> stringTail
      else if c = '[' then
        match inner with
        | none => stopAfter .tooDeep
        | some inner => do
            skip
            .array <$> items inner
      else if c = '\x7b' then
        match inner with
        | none => stopAfter .tooDeep
        | some inner => do
            skip
            .ofMembers <$> members inner
      else stopAfter .expectedValue

/-- A value with at most the given levels of nesting. -/
def value : Nat → Reader Value
  | 0 => valueWith none
  | levels + 1 => valueWith (some (value levels))

end Reader

/-- The value that a text denotes. -/
def Value.parse (text : String) : Except Fault Value :=
  Reader.readAll (Reader.value Reader.maxDepth) text

end AccountPool.Json
