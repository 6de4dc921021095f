import AccountPool.Database.Content

/-!
# Archives of databases

A store is written as a JSON object with a member for each table: the list of its rows, each with the
partition value, the sort value or null, and the record. The archive of a database holds its store and
the attributes with an index.
-/

namespace AccountPool.Store

open Json (Value)

/-- A row as a JSON array. -/
def rowValue (row : Key × Record) : Value :=
  .array [.string row.1.partition, (row.1.sort.map Value.string).getD .null, row.2.toValue]

/-- The row in a JSON array. -/
def rowOfValue? : Value → Option (Key × Record)
  | .array [.string partition, sort, .object members] =>
      match sort with
      | .null => some (⟨partition, none⟩, ⟨.ofList members⟩)
      | .string sort => some (⟨partition, some sort⟩, ⟨.ofList members⟩)
      | _ => none
  | _ => none

/-- A store as a JSON object. -/
def toValue (store : Store) : Value :=
  .object (store.tables.entries.map fun (name, rows) => (name, .array (rows.entries.map rowValue)))

/-- The rows of a table in a JSON array. -/
def rowsOfValue? : Value → Option Rows
  | .array rows => (rows.mapM rowOfValue?).map .ofList
  | _ => none

/-- The store in a JSON object. -/
def ofValue? : Value → Option Store
  | .object members => do
      let tables ← members.mapM fun (name, rows) => (rowsOfValue? rows).map fun rows => (name, rows)
      pure ⟨.ofList tables⟩
  | _ => none

end AccountPool.Store

namespace AccountPool.DatabaseContent

open Json (Value)

/-- The content of a database as a JSON object. -/
def toValue (content : DatabaseContent) : Value :=
  .object [("indexes", .array (content.indexes.map .string)), ("tables", content.store.toValue)]

/-- The content in a JSON object. -/
def ofValue? : Value → Option DatabaseContent
  | .object [("indexes", .array indexes), ("tables", tables)] => do
      let store ← Store.ofValue? tables
      pure { store, indexes := indexes.filterMap Value.string? }
  | _ => none

/-- The text of an archive. -/
def archive (content : DatabaseContent) : String :=
  content.toValue.compact

/-- The content that the text of an archive denotes. Records may be nested to any depth. -/
def ofArchive? (text : String) : Option DatabaseContent :=
  match Json.Reader.readAll (Json.Reader.value text.length) text with
  | .ok value => ofValue? value
  | .error _ => none

end AccountPool.DatabaseContent
