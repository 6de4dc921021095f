import AccountPool.Table.Record

/-!
# Conditions on the stored record

A write may be guarded by a condition, a conjunction of clauses about the record it would change.
Against an absent record only the empty condition holds, so a writer cannot tell an absent record
from one in another state.
-/

namespace AccountPool

open Json (Value)

/-- A statement about a stored record. -/
inductive Clause where
  /-- There is a record. -/
  | present
  /-- An attribute has a value. -/
  | equals (name : String) (value : Value)
  /-- An attribute is absent or has another value. -/
  | notEquals (name : String) (value : Value)
  /-- An attribute is absent. -/
  | missing (name : String)

/-- A clause is true of a record. -/
def Clause.holds (record : Record) : Clause → Bool
  | present => true
  | equals name value => record.holds name value
  | notEquals name value => !record.holds name value
  | missing name => !record.contains name

/-- Clauses that have to hold together. -/
abbrev Condition := List Clause

namespace Condition

/-- The condition holds for the stored record, if there is one. -/
def evaluate (condition : Condition) : Option Record → Bool
  | some record => condition.all (Clause.holds record)
  | none => condition.isEmpty

/-- A write without condition is always allowed. -/
def allows (condition : Option Condition) (current : Option Record) : Bool :=
  match condition with
  | none => true
  | some condition => condition.evaluate current

end Condition

end AccountPool
