import AccountPool.Pool.Accounts
import AccountPool.Pool.Leases
import AccountPool.Proofs.Entity.Fields

/-!
# Records that carry an entity

A record carries an entity if its attributes hold the values of the fields, whatever other attributes it
has. `Record.carries_ofEntity` says that an entity is carried by the record in which it is stored,
`Record.Carries.toEntity` that it is read back from every record that carries it. The changes that the
pool makes attribute by attribute are changes of the entity that is carried, and the conditions that
guard them speak about it.
-/

namespace AccountPool

open Json (Value Members)

/-- An entity whose fields have names of their own, and defaults that stand for what is left out. -/
class LawfulEntity (α : Type) [Entity α] : Prop where
  nodup_names : ((Entity.fields α).map Field.name).Nodup
  lawful : ∀ field ∈ Entity.fields α, field.Lawful

/-- A role, a policy hash and metadata that an account does not have are left out. -/
instance : LawfulEntity Account where
  nodup_names := by decide
  lawful := by simp [Entity.fields, Field.Lawful, Shape.Holds, Shape.encode, @eq_comm _ none]

/-- Nothing of a lease is left out. -/
instance : LawfulEntity Lease where
  nodup_names := by decide
  lawful := by simp [Entity.fields, Field.Lawful, Shape.Holds, Shape.encode]

namespace Record

/-! ## Attributes after an assignment -/

/-- An attribute that was set has the new value. -/
theorem get?_insert_self (record : Record) (name : String) (value : Value) :
    (record.insert name value).get? name = some value :=
  SortedMap.find?_insert_self _ _ _

/-- Setting an attribute leaves the others alone. -/
theorem get?_insert_of_ne (record : Record) {name other : String} (hne : other ≠ name)
    (value : Value) : (record.insert name value).get? other = record.get? other :=
  SortedMap.find?_insert_of_ne _ hne _

/-- Nothing is assigned. -/
@[simp] theorem assign_nil (record : Record) : record.assign [] = record :=
  rfl

/-- Assignments are made in order. -/
@[simp] theorem assign_cons (record : Record) (name : String) (value : Value)
    (assignments : List (String × Value)) :
    record.assign ((name, value) :: assignments) = (record.insert name value).assign assignments :=
  rfl

/-! ## Carried entities -/

variable {α : Type} [Entity α]

/-- The attributes of the record hold the values of the entity. -/
def Carries (record : Record) (entity : α) : Prop :=
  Field.Holds record.get? (Entity.fields α) (Entity.values entity)

variable [LawfulEntity α]

/-- An entity is carried by the record in which it is stored. -/
theorem carries_ofEntity (entity : α) : (ofEntity entity).Carries entity :=
  Field.holds_members LawfulEntity.nodup_names (Entity.values entity)

/-- An entity is read back from every record that carries it. -/
theorem Carries.toEntity {record : Record} {entity : α} (h : record.Carries entity) :
    record.toEntity = .ok entity := by
  show Entity.ofValues <$> Field.ofMembers (Entity.fields α) record.attributes.entries = _
  rw [Field.ofMembers_of_holds LawfulEntity.nodup_names LawfulEntity.lawful h]
  exact congrArg Except.ok (Entity.ofValues_values entity)

/-- The pool reads an entity back from every record that carries it. -/
theorem Carries.decode {record : Record} {entity : α} (h : record.Carries entity) (table : Table) :
    Pool.decode table record = .ok entity := by
  rw [Pool.decode, h.toEntity]
  rfl

end Record

/-! ## Attributes that are texts -/

namespace Record

/-- A record holds a text exactly if the attribute is that text. -/
theorem holds_string {record : Record} {name text : String} :
    record.holds name (.string text) = true ↔ record.get? name = some (.string text) := by
  unfold holds
  cases record.get? name with
  | none => simp
  | some held => simp [Value.same_string]

/-- An attribute is absent exactly if it has no value. -/
theorem contains_eq_false {record : Record} {name : String} :
    record.contains name = false ↔ record.get? name = none := by
  simp [contains, get?, SortedMap.contains]

/-- The text of an attribute that is a text. -/
theorem getText?_of_get? {record : Record} {name text : String}
    (h : record.get? name = some (.string text)) : record.getText? name = some text := by
  rw [getText?, h]
  rfl

end Record

/-! ## Attributes of accounts and leases -/

/-- What the attributes of a record that carries an account are. -/
theorem Account.carries_iff {record : Record} {account : Account} :
    record.Carries account ↔
      record.get? idName = some (.string account.id) ∧
      record.get? statusName = some (.string account.status.name) ∧
      record.get? roleArnName = account.roleArn.map .string ∧
      record.get? policyHashName = account.policyHash.map .string ∧
      record.get? lastModifiedOnName = some (.int64 account.lastModifiedOn) ∧
      Shape.metadata.Holds (record.get? metadataName) account.metadata := by
  simp only [Record.Carries, Entity.fields, Entity.values, Field.Holds, Shape.Holds, Shape.encode,
    and_true]

/-- What the attributes of a record that carries a lease are. -/
theorem Lease.carries_iff {record : Record} {lease : Lease} :
    record.Carries lease ↔
      record.get? accountIdName = some (.string lease.accountId) ∧
      record.get? principalIdName = some (.string lease.principalId) ∧
      record.get? statusName = some (.string lease.status.name) ∧
      record.get? createdOnName = some (.int64 lease.createdOn) ∧
      record.get? lastModifiedOnName = some (.int64 lease.lastModifiedOn) ∧
      record.get? statusModifiedOnName = some (.int64 lease.statusModifiedOn) := by
  simp only [Record.Carries, Entity.fields, Entity.values, Field.Holds, Shape.Holds, Shape.encode,
    and_true]

namespace Pool

/-- An account is filed under its identifier. -/
theorem keyOf_account {record : Record} {account : Account} (h : record.Carries account)
    (name : String) : (accountTable name).keyOf record = .ok (accountKey account.id) := by
  have hid := Record.getText?_of_get? (Account.carries_iff.1 h).1
  simp only [Table.keyOf, Table.keyAttribute, accountTable, hid]
  rfl

/-- A lease is filed under its account and its principal. -/
theorem keyOf_lease {record : Record} {lease : Lease} (h : record.Carries lease) (name : String) :
    (leaseTable name).keyOf record = .ok (leaseKey lease.accountId lease.principalId) := by
  have haccount := Record.getText?_of_get? (Lease.carries_iff.1 h).1
  have hprincipal := Record.getText?_of_get? (Lease.carries_iff.1 h).2.1
  simp only [Table.keyOf, Table.keyAttribute, leaseTable, haccount, hprincipal]
  rfl

end Pool

end AccountPool
