import AccountPool.Table.Condition
import AccountPool.Table.Layout

/-!
# Calls to a store

A store answers six kinds of requests. An engine is a store seen from outside: it takes a state and a
request to an answer and the next state, each call being one step.
-/

namespace AccountPool

open Json (Value)

/-- Attributes to set, in order. -/
abbrev Assignments := List (String × Value)

/-- A part of a table, in key order. -/
structure Page where
  records : List Record
  /-- The key to resume after, if more rows may follow. -/
  last : Option Key

/-- A call to a store. -/
inductive Request where
  /-- The record under a key. -/
  | get (table : Table) (key : Key)
  /-- File a record under its own key, if the condition holds. -/
  | put (table : Table) (record : Record) (condition : Option Condition)
  /-- Set attributes of the record under a key, if the condition holds. -/
  | update (table : Table) (key : Key) (assignments : Assignments) (condition : Option Condition)
  /-- Remove the record under a key, if the condition holds. -/
  | delete (table : Table) (key : Key) (condition : Option Condition)
  /-- The records with a value in an indexed attribute. -/
  | query (table : Table) (name : String) (value : Value)
  /-- At most `limit` rows strictly after `start`. -/
  | page (table : Table) (limit : Nat) (start : Option Key)

namespace Request

/-- What a request that succeeds gives: a previous, changed or removed record, records, or a page. -/
abbrev Reply : Request → Type
  | get .. => Option Record
  | put .. => Option Record
  | update .. => Record
  | delete .. => Option Record
  | query .. => List Record
  | page .. => Page

/-- The result of a request. -/
abbrev Answer (request : Request) : Type :=
  Except StoreError request.Reply

end Request

/-- A store seen from outside. -/
abbrev Engine (σ : Type) : Type :=
  σ → (request : Request) → request.Answer × σ

end AccountPool
