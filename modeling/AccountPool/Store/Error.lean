import AccountPool.Database.Fault
import AccountPool.Files.Cause
import AccountPool.Json.Fault

/-!
# Errors of a store

Why a store refuses a call. Only a failed condition says something about the pool; all other errors
concern the transport or the data. An error caused by another one repeats it in its message and names
it as its cause.
-/

namespace AccountPool

/-- Why a store refuses a call. -/
inductive StoreError where
  | conditionFailed (table : String)
  | missingKeyAttribute (table name : String)
  | notIndexed (table name : String)
  | invalidAttributeName (name : String)
  | unreadable (fault : Json.Fault)
  | engine (fault : EngineFault)
  | file (action path : String) (cause : FileCause)
  | poisoned

namespace StoreError

/-- The wording of an error. -/
def message : StoreError → String
  | conditionFailed table => "conditional check failed on table " ++ table
  | missingKeyAttribute table name =>
      "record in table " ++ table ++ " is missing string key attribute " ++ name
  | notIndexed table name =>
      "attribute " ++ name ++ " is neither the partition key nor an index of table " ++ table
  | invalidAttributeName name =>
      "attribute name " ++ Text.quoted name ++
        " may only contain ASCII letters, digits and underscores"
  | unreadable fault => "record body is not valid JSON for this item: " ++ fault.message
  | engine fault => "sqlite error: " ++ fault.message
  | file action path cause => action ++ " " ++ path ++ ": " ++ cause.message
  | poisoned => "store lock poisoned by a panicked writer"

/-- The wordings of an error's causes, nearest first. -/
def causes : StoreError → List String
  | unreadable fault => [fault.message]
  | engine fault => [fault.message, fault.cause]
  | file _ _ cause => [cause.message]
  | _ => []

end StoreError

end AccountPool
