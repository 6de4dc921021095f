import AccountPool.Entity.Layout

/-!
# Leases

The assignment of an account to a principal and the names of its attributes.
-/

namespace AccountPool

/-- The assignment of an account to a principal; there is at most one for each pair. -/
structure Lease where
  accountId : String
  principalId : String
  status : LeaseStatus
  /-- Seconds since the epoch, as the other two timestamps. -/
  createdOn : Int64 := 0
  lastModifiedOn : Int64 := 0
  statusModifiedOn : Int64 := 0
deriving DecidableEq

namespace Lease

/-- The attribute names of leases. -/
abbrev accountIdName : String := "AccountId"

@[inherit_doc accountIdName] abbrev principalIdName : String := "PrincipalId"

@[inherit_doc accountIdName] abbrev statusName : String := "LeaseStatus"

@[inherit_doc accountIdName] abbrev createdOnName : String := "CreatedOn"

@[inherit_doc accountIdName] abbrev lastModifiedOnName : String := "LastModifiedOn"

@[inherit_doc accountIdName] abbrev statusModifiedOnName : String := "LeaseStatusModifiedOn"

/-- The fields of a lease in order of declaration. -/
abbrev fields : List Field := [
  ⟨accountIdName, .text, none⟩,
  ⟨principalIdName, .text, none⟩,
  ⟨statusName, .leaseStatus, none⟩,
  ⟨createdOnName, .timestamp, some 0⟩,
  ⟨lastModifiedOnName, .timestamp, some 0⟩,
  ⟨statusModifiedOnName, .timestamp, some 0⟩]

instance : Entity Lease where
  title := "struct Lease"
  fields := fields
  values lease :=
    (lease.accountId, lease.principalId, lease.status, lease.createdOn, lease.lastModifiedOn,
      lease.statusModifiedOn, ())
  ofValues := fun (accountId, principalId, status, createdOn, lastModifiedOn, statusModifiedOn, ()) =>
    ⟨accountId, principalId, status, createdOn, lastModifiedOn, statusModifiedOn⟩
  ofValues_values _ := rfl
  values_ofValues _ := rfl

/-- The lease with all three timestamps set to its creation. -/
def createdAt (lease : Lease) (now : Int64) : Lease :=
  { lease with createdOn := now, lastModifiedOn := now, statusModifiedOn := now }

end Lease

end AccountPool
