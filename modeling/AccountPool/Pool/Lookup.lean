import AccountPool.Pool.Program
import AccountPool.Pool.Settings

/-!
# Looking up and decoding entities

Records are found through an index where there is one, and by a scan otherwise. All of them are
fetched before the first one is decoded, and the first one that is not an entity is reported.
-/

namespace AccountPool.Pool

open Json (Value)
open Program (Result)

/-- The entity in a record of a table. -/
def decode {α : Type} [Entity α] (table : Table) (record : Record) : Result α :=
  record.toEntity.mapError (.undecodable table.name)

/-- The entity in a record, if there is a record. -/
def decode? {α : Type} [Entity α] (table : Table) : Option Record → Result (Option α)
  | none => .ok none
  | some record => some <$> decode table record

/-- The entities in a list of records. -/
def decodeAll {α : Type} [Entity α] (table : Table) (records : List Record) : Result (List α) :=
  records.mapM (decode table)

/-- Make an answer of the store a result of the pool. -/
def lift {α β : Type} (answer : Except StoreError α) (next : α → Result β) : Result β :=
  match answer with
  | .ok reply => next reply
  | .error error => .error (.store error)

/-- The entity under a key. -/
def get {α : Type} [Entity α] (table : Table) (key : Key) : Program (Result (Option α)) :=
  .call (.get table key) fun answer => .done (lift answer (decode? table))

/-- File an entity and give the one it replaces. -/
def put {α : Type} [Entity α] (table : Table) (entity : α) : Program (Result (Option α)) :=
  .call (.put table (.ofEntity entity) none) fun answer => .done (lift answer (decode? table))

/-- The entities whose records pass a test, found by a scan. -/
def scanWhere {α : Type} [Entity α] (pool : Pool) (table : Table) (keep : Record → Bool) :
    Program (Result (List α)) :=
  .scan table pool.scanPageSize keep fun answer => .done (lift answer (decodeAll table))

/-- The entities with a text in an attribute, in key order. -/
def findBy {α : Type} [Entity α] (pool : Pool) (table : Table) (name text : String) :
    Program (Result (List α)) :=
  if table.isQueryable name then
    .call (.query table name (.string text)) fun answer => .done (lift answer (decodeAll table))
  else scanWhere pool table fun record => record.holds name (.string text)

end AccountPool.Pool
