import AccountPool.Json.Document
import AccountPool.Store.Column
import AccountPool.Store.Request

/-!
# Stores of records

A store keeps, for each table name, the rows in key order. The two backends share all operations and
differ in four points: which row a key addresses, which key is shown for a row, what is read back from
a stored record, and how an index is searched. In memory all four are trivial. The database keeps the
sort value of every row as a text, empty if the key has none, stores records as JSON texts, and
compares column values when it searches an index.

A write is one step: the condition is checked against the record read from the row that the write
would change, and a write that fails leaves the store as it was.
-/

namespace AccountPool

open Json (Value)

/-- The rows of a table, by the key that addresses them. -/
abbrev Rows := SortedMap Key Record

/-- The rows of all tables, by table name. -/
structure Store where
  tables : SortedMap String Rows := {}
deriving Inhabited

namespace Store

/-- The rows filed under a table name. -/
def rows (store : Store) (table : String) : Rows :=
  (store.tables.find? table).getD {}

/-- The store with other rows under a table name. A table without rows is not listed, so stores
with the same rows are the same. -/
def withRows (store : Store) (table : String) (rows : Rows) : Store :=
  ⟨if rows.isEmpty then store.tables.erase table else store.tables.insert table rows⟩

/-- The number of rows in all tables. -/
def size (store : Store) : Nat :=
  store.tables.entries.foldl (fun count entry => count + entry.2.size) 0

end Store

/-- Where backends differ. -/
structure Backend where
  /-- The row that a key addresses. -/
  address : Key → Key
  /-- The key that is shown for a row of a table. -/
  shown : Table → Key → Key
  /-- What is read from a row that holds a record. -/
  reread : Record → Except Json.Fault Record
  /-- An index on an attribute can be searched. -/
  searchable : String → Bool
  /-- The search of an index reads the rows whose value of the attribute passes this test. -/
  candidate : Option Value → Value → Bool

namespace Backend

/-- Rows are kept in memory, by their own keys and as they were written. -/
def memory : Backend where
  address key := key
  shown _ row := row
  reread record := .ok record
  searchable _ := true
  candidate _ _ := true

/-- A non-empty name of ASCII letters, digits and underscores. -/
def isPlainName (name : String) : Bool :=
  !name.isEmpty && name.toList.all fun c => c.isAlphanum || c = '_'

/-- The two texts that stand for a key in a database; a missing sort value is kept as an empty one. -/
def columns (key : Key) : Key :=
  ⟨key.partition, some (key.sort.getD "")⟩

/-- Rows of a database. How records are read back and how an index is searched is up to the reader
of texts and to the engine. -/
def databaseWith (reread : Record → Except Json.Fault Record)
    (candidate : Option Value → Value → Bool) : Backend where
  address := columns
  shown table row := ⟨row.partition, if table.sort.isSome then row.sort else none⟩
  reread := reread
  searchable := isPlainName
  candidate := candidate

/-- The record read back from the text of a record. -/
def ofText (record : Record) : Except Json.Fault Record :=
  match Value.parse record.toValue.compact with
  | .ok value => (Record.ofValue value).mapError .ofMismatch
  | .error fault => .error fault

/-- The column extracted from a stored record equals the column looked for. -/
def columnMatches (held : Option Value) (value : Value) : Bool :=
  match held with
  | some held => (Column.stored held).equal (Column.sought value)
  | none => false

/-- Rows of a database whose records are JSON texts and whose indexes are columns. -/
def database : Backend :=
  databaseWith ofText columnMatches

variable (backend : Backend)

/-- Read the row of a table that a key addresses. -/
def read (store : Store) (table : Table) (row : Key) : Except StoreError (Option Record) :=
  match (store.rows table.name).find? row with
  | none => .ok none
  | some record => (some <$> backend.reread record).mapError .unreadable

/-- Read the records of rows, in order; the first one that cannot be read is reported. -/
def readAll (rows : List (Key × Record)) : Except StoreError (List Record) :=
  rows.mapM fun row => (backend.reread row.2).mapError .unreadable

/-- File a record in a row. -/
def write (store : Store) (table : Table) (row : Key) (record : Record) : Store :=
  store.withRows table.name ((store.rows table.name).insert row record)

/-- Remove a row. -/
def remove (store : Store) (table : Table) (row : Key) : Store :=
  store.withRows table.name ((store.rows table.name).erase row)

/-- The record of a row, if a condition holds for it. -/
def guarded (store : Store) (table : Table) (row : Key) (condition : Option Condition) :
    Except StoreError (Option Record) := do
  let current ← backend.read store table row
  if Condition.allows condition current then pure current
  else throw (.conditionFailed table.name)

/-- The record under a key. -/
def get (store : Store) (table : Table) (key : Key) : Except StoreError (Option Record) :=
  backend.read store table (backend.address key)

/-- File a record under its own key and give the one it replaces. -/
def put (store : Store) (table : Table) (record : Record) (condition : Option Condition) :
    Except StoreError (Option Record × Store) := do
  let key ← table.keyOf record
  let row := backend.address key
  let previous ← backend.guarded store table row condition
  pure (previous, write store table row record)

/-- Set attributes of the record under a key and give it as stored. An absent record is created with
its key. -/
def update (store : Store) (table : Table) (key : Key) (assignments : Assignments)
    (condition : Option Condition) : Except StoreError (Record × Store) := do
  let row := backend.address key
  let current ← backend.guarded store table row condition
  let next := (current.getD (table.keyRecord key)).assign assignments
  pure (next, write store table row next)

/-- Remove the record under a key and give it. -/
def delete (store : Store) (table : Table) (key : Key) (condition : Option Condition) :
    Except StoreError (Option Record × Store) := do
  let row := backend.address key
  let current ← backend.guarded store table row condition
  pure (current, remove store table row)

/-- The records with a value in the partition attribute or an indexed one, in key order. -/
def query (store : Store) (table : Table) (name : String) (value : Value) :
    Except StoreError (List Record) := do
  let rows := (store.rows table.name).entries
  if !table.isQueryable name then throw (.notIndexed table.name name)
  else if name = table.partition then
    backend.readAll (rows.filter fun row => value.string? == some row.1.partition)
  else if !backend.searchable name then throw (.invalidAttributeName name)
  else do
    let records ← backend.readAll (rows.filter fun row => backend.candidate (row.2.get? name) value)
    pure (records.filter fun record => record.holds name value)

/-- At most `limit` rows after `start`, at least one row being asked for. A full page names the key
of its last row. -/
def page (store : Store) (table : Table) (limit : Nat) (start : Option Key) :
    Except StoreError Page := do
  let limit := max limit 1
  let rows := ((store.rows table.name).after (start.map backend.address)).take limit
  let records ← backend.readAll rows
  let last := if rows.length = limit then rows.getLast?.map fun row => backend.shown table row.1
    else none
  pure ⟨records, last⟩

/-- The answer of a write, and the store after it: unchanged if the write failed. -/
def settle {ρ : Type} (store : Store) : Except StoreError (ρ × Store) → Except StoreError ρ × Store
  | .ok (reply, next) => (.ok reply, next)
  | .error error => (.error error, store)

/-- The backend as an engine. -/
def perform : Engine Store := fun store request =>
  match request with
  | .get table key => (backend.get store table key, store)
  | .put table record condition => settle store (backend.put store table record condition)
  | .update table key assignments condition =>
      settle store (backend.update store table key assignments condition)
  | .delete table key condition => settle store (backend.delete store table key condition)
  | .query table name value => (backend.query store table name value, store)
  | .page table limit start => (backend.page store table limit start, store)

end Backend

end AccountPool
