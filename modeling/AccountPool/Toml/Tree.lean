import AccountPool.Toml.Value

/-!
# Tables under construction

The statements of a document build a tree of tables. A table can be opened by a header, implied by
the header of a deeper one, or made by a dotted key, and where it came from decides what may still be
added to it. A header opens a table at most once and only if it was implied. A dotted key leads through
tables made by dotted keys and implied ones, which from then on count as made by it. A table written
inline is closed.
-/

namespace AccountPool.Toml

/-- How a table came about. -/
inductive Origin where
  | header
  | implied
  | dotted
deriving DecidableEq

/-- A value, a table that may still grow, or a list of tables of which the last one may. -/
inductive Tree where
  | value (v : Value)
  | table (origin : Origin) (entries : List (String × Tree))
  | tables (earlier : List Value) (last : List (String × Tree))

namespace Tree

mutual

/-- The value that a tree has become. -/
def toValue : Tree → Value
  | value v => v
  | table _ entries => .table (toEntries entries)
  | tables earlier last => .array (earlier ++ [.table (toEntries last)])

/-- The entries that the entries of a tree have become. -/
def toEntries : List (String × Tree) → List (String × Value)
  | [] => []
  | (key, tree) :: entries => (key, toValue tree) :: toEntries entries

end

/-- Entries with a tree under a key, in the place of the one that was there. -/
def set (key : String) (tree : Tree) : List (String × Tree) → List (String × Tree)
  | [] => [(key, tree)]
  | (other, held) :: entries =>
      if other = key then (key, tree) :: entries else (other, held) :: set key tree entries

/-- A change to the entries of a table, unless it is not allowed. -/
abbrev Change := List (String × Tree) → Option (List (String × Tree))

/-- Change the table that a header's path leads to; tables missing on the way are implied. -/
def under : List String → Change → Change
  | [], change, entries => change entries
  | key :: path, change, entries =>
      match entries.lookup key with
      | none => do
          let inner ← under path change []
          pure (set key (table .implied inner) entries)
      | some (table origin inner) => do
          let inner ← under path change inner
          pure (set key (table origin inner) entries)
      | some (tables earlier last) => do
          let last ← under path change last
          pure (set key (tables earlier last) entries)
      | some (value _) => none

/-- Open the table under a key. -/
def openTable (key : String) : Change := fun entries =>
  match entries.lookup key with
  | none => some (set key (table .header []) entries)
  | some (table .implied inner) => some (set key (table .header inner) entries)
  | some _ => none

/-- Open a further table in the list of tables under a key. -/
def openElement (key : String) : Change := fun entries =>
  match entries.lookup key with
  | none => some (set key (tables [] []) entries)
  | some (tables earlier last) =>
      some (set key (tables (earlier ++ [.table (toEntries last)]) []) entries)
  | some _ => none

/-- Give a value to a key that has none, in the table that a dotted path leads to; tables missing on
the way are made. -/
def assign (v : Value) : List String → String → Change
  | [], key, entries =>
      match entries.lookup key with
      | none => some (set key (value v) entries)
      | some _ => none
  | first :: path, key, entries =>
      match entries.lookup first with
      | none => do
          let inner ← assign v path key []
          pure (set first (table .dotted inner) entries)
      | some (table origin inner) =>
          if origin = .header then none
          else do
            let inner ← assign v path key inner
            pure (set first (table .dotted inner) entries)
      | some (tables earlier last) =>
          if path = [] then none
          else do
            let last ← assign v path key last
            pure (set first (tables earlier last) entries)
      | some (value _) => none

end Tree

end AccountPool.Toml
