import AccountPool.Entity.Layout

/-!
# Records

A record is a row's content: a map from attribute names to JSON values. Entities are written as
records and read back from them.
-/

namespace AccountPool

open Json (Value Members Mismatch)

/-- A map from attribute names to values. -/
structure Record where
  attributes : Members
deriving Inhabited

namespace Record

/-- The record without attributes. -/
def empty : Record := ⟨{}⟩

/-- The value of an attribute. -/
def get? (record : Record) (name : String) : Option Value :=
  record.attributes.find? name

/-- The text of an attribute, if it is one. -/
def getText? (record : Record) (name : String) : Option String :=
  record.get? name >>= Value.string?

/-- Whether an attribute is present. -/
def contains (record : Record) (name : String) : Bool :=
  record.attributes.contains name

/-- Set an attribute. -/
def insert (record : Record) (name : String) (value : Value) : Record :=
  ⟨record.attributes.insert name value⟩

/-- The attribute is present and equal, as JSON, to a value. -/
def holds (record : Record) (name : String) (value : Value) : Bool :=
  match record.get? name with
  | some held => held.same value
  | none => false

/-- Set attributes one after the other. -/
def assign (record : Record) (assignments : List (String × Value)) : Record :=
  assignments.foldl (fun record (name, value) => record.insert name value) record

/-- A record as an object. -/
def toValue (record : Record) : Value :=
  .ofMembers record.attributes

/-- The record with the members of an object. -/
def ofValue : Value → Except Mismatch Record
  | .object members => .ok ⟨.ofList members⟩
  | value => .error (Shape.wrongType value "a map")

/-- The record in which an entity is stored. -/
def ofEntity {α : Type} [Entity α] (entity : α) : Record :=
  ⟨.ofList (Entity.members entity)⟩

/-- The entity stored in a record. -/
def toEntity {α : Type} [Entity α] (record : Record) : Except Mismatch α :=
  Entity.decode record.toValue

end Record

end AccountPool
