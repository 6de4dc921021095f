import AccountPool.Config.Error
import AccountPool.Toml.Document

/-!
# The configuration file

A configuration file is a TOML document with two optional sections, all of whose settings are
optional. Settings that are not known are ignored.
-/

namespace AccountPool

/-- Where records can be kept. -/
inductive StoreKind where
  | database
  | memory
deriving DecidableEq, Repr

/-- The name of a kind of store in a configuration file. -/
def StoreKind.name : StoreKind → String
  | database => "sqlite"
  | memory => "memory"

/-- The settings of the store. -/
structure StoreSection where
  kind : Option StoreKind := none
  /-- The path of the database file, with references to variables. -/
  path : Option String := none
  /-- How long to wait for a busy database, in milliseconds. -/
  busyTimeout : Option Nat := none
deriving DecidableEq, Repr

/-- The settings of the tables. -/
structure TableSection where
  accounts : Option String := none
  leases : Option String := none
  scanPageSize : Option Nat := none
deriving DecidableEq, Repr

/-- The content of a configuration file. -/
structure ConfigFile where
  store : Option StoreSection := none
  tables : Option TableSection := none
deriving DecidableEq, Repr

open Toml (Value)

namespace StoreKind

/-- The kind of store with a name. -/
def ofName? (name : String) : Option StoreKind :=
  [database, memory].find? fun kind => kind.name = name

/-- A kind of store, written as its name or as a table with the name as its only key. -/
def ofValue? : Value → Option StoreKind
  | .string name => ofName? name
  | .table [(name, .table [])] => ofName? name
  | .table [(name, .array [])] => ofName? name
  | _ => none

end StoreKind

namespace ConfigFile

/-- The settings of a section by their names; a section may also be the list of its settings. A
moment counts as a section in which nothing is set. -/
def settings? (names : List String) : Value → Option (List (Option Value))
  | .table entries => some (names.map fun name => entries.lookup name)
  | .moment _ => some (names.map fun _ => none)
  | .array items =>
      if names.length ≤ items.length then some ((items.take names.length).map some) else none
  | _ => none

/-- A setting that may be missing but not be of another type. -/
def setting? {α : Type} (read : Value → Option α) : Option Value → Option (Option α)
  | none => some none
  | some value => (read value).map some

/-- The settings of the store in a value. -/
def storeSection? (value : Value) : Option StoreSection := do
  match ← settings? ["backend", "path", "busy_timeout_ms"] value with
  | [kind, path, busyTimeout] =>
      pure {
        kind := ← setting? StoreKind.ofValue? kind
        path := ← setting? Value.string? path
        busyTimeout := ← setting? Value.count? busyTimeout }
  | _ => none

/-- The settings of the tables in a value. -/
def tableSection? (value : Value) : Option TableSection := do
  match ← settings? ["accounts", "leases", "scan_page_size"] value with
  | [accounts, leases, scanPageSize] =>
      pure {
        accounts := ← setting? Value.string? accounts
        leases := ← setting? Value.string? leases
        scanPageSize := ← setting? Value.count? scanPageSize }
  | _ => none

/-- The configuration in a document. -/
def ofValue? (value : Value) : Option ConfigFile := do
  match ← settings? ["store", "tables"] value with
  | [store, tables] =>
      pure { store := ← setting? storeSection? store, tables := ← setting? tableSection? tables }
  | _ => none

/-- The configuration that a text denotes. -/
def parse? (text : String) : Option ConfigFile :=
  Value.parse? text >>= ofValue?

/-- The configuration in the file at a path, given what reading the file gave. -/
def load (path : String) (content : Except FileCause String) : Except ConfigError ConfigFile :=
  match content with
  | .error cause => .error (.unreadable path cause)
  | .ok text =>
      match parse? text with
      | some file => .ok file
      | none => .error (.unparsable path)

end ConfigFile

end AccountPool
