import AccountPool.Pool.Transition

/-!
# Operations on leases

Reading, listing, writing and removing leases. The status changes only by a transition that names the
expected one; it stamps the lease as modified and its status as modified at the same time.
-/

namespace AccountPool.Pool

open Program (Result)

/-- The key of a lease. -/
def leaseKey (accountId principalId : String) : Key :=
  ⟨accountId, some principalId⟩

/-- The lease of an account to a principal. -/
def getLease (pool : Pool) (accountId principalId : String) : Program (Result (Option Lease)) :=
  get pool.leases (leaseKey accountId principalId)

/-- All leases. -/
def listLeases (pool : Pool) : Program (Result (List Lease)) :=
  scanWhere pool pool.leases fun _ => true

/-- File a lease, whatever was there, and give the lease that it replaces. -/
def putLease (pool : Pool) (lease : Lease) : Program (Result (Option Lease)) :=
  put pool.leases lease

/-- The leases of an account. -/
def leasesByAccount (pool : Pool) (accountId : String) : Program (Result (List Lease)) :=
  findBy pool pool.leases Lease.accountIdName accountId

/-- The leases of a principal. -/
def leasesByPrincipal (pool : Pool) (principalId : String) : Program (Result (List Lease)) :=
  findBy pool pool.leases Lease.principalIdName principalId

/-- The leases in a status. -/
def leasesByStatus (pool : Pool) (status : LeaseStatus) : Program (Result (List Lease)) :=
  findBy pool pool.leases Lease.statusName status.name

/-- The change of a lease from one status to another. -/
def leaseStatusChange (accountId principalId : String) (previous next : LeaseStatus) :
    Transition where
  rejection :=
    ⟨"lease", "status", (leaseKey accountId principalId).display, "Status", some previous.name,
      next.name⟩
  name := Lease.statusName
  stamps := [Lease.lastModifiedOnName, Lease.statusModifiedOnName]

/-- Move a lease from one status to another, if it is in the former. -/
def changeLeaseStatus (pool : Pool) (accountId principalId : String) (previous next : LeaseStatus) :
    Program (Result Lease) :=
  (leaseStatusChange accountId principalId previous next).apply pool.leases
    (leaseKey accountId principalId)

/-- Remove a lease, if there is one, and give it. -/
def deleteLease (pool : Pool) (accountId principalId : String) : Program (Result (Option Lease)) :=
  .call (.delete pool.leases (leaseKey accountId principalId) none) fun answer =>
    .done (lift answer (decode? pool.leases))

end AccountPool.Pool
