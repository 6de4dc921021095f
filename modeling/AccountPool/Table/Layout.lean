import AccountPool.Store.Error
import AccountPool.Table.Key
import AccountPool.Table.Record

/-!
# Tables

A table has a name, an attribute that holds the partition value of a row's key, possibly one that
holds its sort value, and indexed attributes. From a record its key can be taken, and from a key the
attributes that hold it.
-/

namespace AccountPool

open Json (Value)

/-- The name and the attributes of a table. -/
structure Table where
  name : String
  /-- The attribute with the partition value. -/
  partition : String
  /-- The attribute with the sort value, if keys have one. -/
  sort : Option String := none
  /-- The attributes that can be looked up besides the partition value. -/
  indexes : List String := []
deriving DecidableEq, Repr

namespace Table

/-- Add an index, unless it is there. -/
def withIndex (table : Table) (name : String) : Table :=
  if table.indexes.contains name then table
  else { table with indexes := table.indexes ++ [name] }

/-- Rows can be looked up by an attribute without a scan. -/
def isQueryable (table : Table) (name : String) : Bool :=
  name == table.partition || table.indexes.contains name

/-- The text of a key attribute. -/
def keyAttribute (table : Table) (record : Record) (name : String) :
    Except StoreError String :=
  match record.getText? name with
  | some text => .ok text
  | none => .error (.missingKeyAttribute table.name name)

/-- The key of a record. -/
def keyOf (table : Table) (record : Record) : Except StoreError Key := do
  let partition ← table.keyAttribute record table.partition
  match table.sort with
  | none => pure ⟨partition, none⟩
  | some name => do
      let sort ← table.keyAttribute record name
      pure ⟨partition, some sort⟩

/-- The record that holds a key and nothing else. -/
def keyRecord (table : Table) (key : Key) : Record :=
  let record := Record.empty.insert table.partition (.string key.partition)
  match table.sort, key.sort with
  | some name, some sort => record.insert name (.string sort)
  | _, _ => record

end Table

end AccountPool
