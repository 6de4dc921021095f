import AccountPool.Toml.Reader
import AccountPool.Toml.Tree

/-!
# Reading TOML documents

A document is a list of lines: headers, which say to which table the following lines belong, and keys
with values. Values may stand in arrays and inline tables, 80 levels deep. Line breaks count as blanks
in arrays and inline tables, except within a dotted key.
-/

namespace AccountPool.Toml

namespace Reader

/-- The levels of arrays and inline tables that a value may have. -/
def maxDepth : Nat := 80

/-- The items of an array whose opening bracket is consumed, up to and with the closing one. -/
def items (item : Reader Value) : Reader (List Value) :=
  loop (fun (read : List Value) => do
    gap
    if ← accept [']'] then pure (.inr read.reverse)
    else do
      let value ← item
      gap
      if ← accept [','] then pure (.inl (value :: read))
      else do
        expect [']']
        pure (.inr (value :: read).reverse)) []

/-- Give the value that is read next to the key before it. -/
def assignment (value : Reader Value) (entries : List (String × Tree)) :
    Reader (List (String × Tree)) := do
  let (path, key) ← key
  gap
  expect ['=']
  gap
  let value ← value
  match Tree.assign value path key entries with
  | some entries => pure entries
  | none => fail

/-- The entries of an inline table whose opening brace is consumed, up to and with the closing
one. -/
def entries (value : Reader Value) : Reader (List (String × Tree)) :=
  loop (fun (read : List (String × Tree)) => do
    gap
    if ← accept ['\x7d'] then pure (.inr read)
    else do
      let read ← assignment value read
      gap
      if ← accept [','] then pure (.inl read)
      else do
        expect ['\x7d']
        pure (.inr read)) []

/-- A value, given how deeper values are read if they are allowed. -/
def valueWith (inner : Option (Reader Value)) : Reader Value := do
  match ← peek with
  | some '"' => .string <$> string '"'
  | some '\'' => .string <$> string '\''
  | some '[' =>
      match inner with
      | none => fail
      | some inner => do
          skip
          .array <$> items inner
  | some '\x7b' =>
      match inner with
      | none => fail
      | some inner => do
          skip
          let read ← entries inner
          pure (.table (Tree.toEntries read))
  | _ => scalar

/-- A value with at most the given levels of nesting. -/
def value : Nat → Reader Value
  | 0 => valueWith none
  | levels + 1 => valueWith (some (value levels))

/-- What was read of a document: all tables, and the path of the one that is open. -/
structure Progress where
  entries : List (String × Tree) := []
  current : List String := []

/-- Make a change to the table at a path. -/
def Progress.change (progress : Progress) (path : List String) (change : Tree.Change) :
    Reader (List (String × Tree)) :=
  match Tree.under path change progress.entries with
  | some entries => pure entries
  | none => fail

/-- A header of a table or of a further table in a list; its first bracket is consumed. -/
def header (progress : Progress) : Reader Progress := do
  let element ← accept ['[']
  let (path, key) ← key
  expect (if element then [']', ']'] else [']'])
  let entries ← progress.change path (if element then Tree.openElement key else Tree.openTable key)
  pure ⟨entries, path ++ [key]⟩

/-- A key with its value, in the table that is open. -/
def keyValue (progress : Progress) : Reader Progress := do
  let (path, key) ← key
  expect ['=']
  blanks
  let value ← value maxDepth
  let entries ← progress.change progress.current (Tree.assign value path key)
  pure { progress with entries }

/-- The lines of a document. -/
def lines : Reader Progress :=
  loop (fun (progress : Progress) => do
    gap
    match ← peek with
    | none => pure (.inr progress)
    | some c => do
        let progress ← (if c = '[' then do
            skip
            header progress
          else keyValue progress)
        lineEnd
        pure (.inl progress)) {}

end Reader

/-- The table that a text denotes. A byte order mark in front of it is ignored. -/
def Value.parse? (text : String) : Option Value :=
  let chars := match text.toList with
    | '\uFEFF' :: rest => rest
    | chars => chars
  match Reader.lines chars with
  | some (progress, _) => some (.table (Tree.toEntries progress.entries))
  | none => none

end AccountPool.Toml
