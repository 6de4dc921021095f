import AccountPool.Entity.Account
import AccountPool.Store.Error

/-!
# Errors of the pool

Why an operation on accounts or leases fails. A refused transition tells nothing but what was asked
for: whether the record was absent or in another state cannot be told from it.
-/

namespace AccountPool

/-- A guarded change whose record was absent or held another value. -/
structure Rejection where
  /-- What kind of record was to be changed. -/
  entity : String
  /-- What was to be changed of it. -/
  label : String
  /-- Which record was to be changed. -/
  target : String
  /-- The field that the guard is about. -/
  field : String
  /-- The expected value; nothing if the field had to be absent. -/
  previous : Option String
  /-- The value to be written. -/
  next : String
deriving DecidableEq, Repr

/-- The wording of a rejection. -/
def Rejection.message (rejection : Rejection) : String :=
  let previous := rejection.previous.getD ""
  "unable to update " ++ rejection.entity ++ " " ++ rejection.label ++ " from \"" ++ previous ++
    "\" to \"" ++ rejection.next ++ "\" for " ++ rejection.target ++ ": no " ++ rejection.entity ++
    (match rejection.previous with
      | some _ => " exists with " ++ rejection.field ++ "=\"" ++ previous ++ "\""
      | none => " exists without " ++ rejection.field)

/-- Why an operation of the pool fails. -/
inductive PoolError where
  | rejected (rejection : Rejection)
  | accountNotFound (id : String)
  | accountLeased (account : Account)
  | undecodable (table : String) (mismatch : Json.Mismatch)
  | store (error : StoreError)

namespace PoolError

/-- The wording of an error. -/
def message : PoolError → String
  | rejected rejection => rejection.message
  | accountNotFound id => "No account found with ID \"" ++ id ++ "\"."
  | accountLeased account =>
      "Unable to delete account \"" ++ account.id ++ "\": account is leased."
  | undecodable table _ => "failed to decode record from table " ++ table
  | store error => error.message

/-- The wordings of an error's causes, nearest first. -/
def causes : PoolError → List String
  | undecodable _ mismatch => [mismatch.message]
  | store error => error.causes
  | _ => []

end PoolError

end AccountPool
