import AccountPool.Pool.Accounts
import AccountPool.Pool.Leases

/-!
# The pool as a machine over typed entities

What the pool does if tables, records and attributes are forgotten: the state is a finite map of
accounts, a finite map of leases and a clock, and every access is one step. `Inventory.perform` says what
an access does to the entities, `TypedPool.perform` what it does to the clock as well.
-/

namespace AccountPool

open Program (Result)

/-! ## Changes of accounts -/

/-- A change of an account that stays in the pool. -/
inductive AccountEdit where
  | status (previous next : AccountStatus)
  | policyHash (previous : Option String) (next : String)
  | metadata (members : Json.Members)

namespace AccountEdit

/-- The change may be made of an account. -/
def allows : AccountEdit → Account → Bool
  | status previous _, account => account.status = previous
  | policyHash previous _, account => account.policyHash = previous
  | metadata _, _ => true

/-- The account after the change. -/
def change (now : Int64) : AccountEdit → Account → Account
  | status _ next, account => { account with status := next, lastModifiedOn := now }
  | policyHash _ next, account => { account with policyHash := some next, lastModifiedOn := now }
  | metadata members, account => { account with metadata := members, lastModifiedOn := now }

/-- Why the change of an account is not made. -/
def refusal (id : String) : AccountEdit → PoolError
  | status previous next => .rejected (Pool.accountStatusChange id previous next).rejection
  | policyHash previous next => .rejected (Pool.policyHashChange id previous next).rejection
  | metadata _ => .accountNotFound id

/-- The operation that makes the change. -/
def program (pool : Pool) (id : String) : AccountEdit → Program (Result Account)
  | status previous next => pool.changeAccountStatus id previous next
  | policyHash previous next => pool.changePolicyHash id previous next
  | metadata members => pool.replaceMetadata id members

/-- An account keeps its identifier. -/
@[simp] theorem id_change (now : Int64) (edit : AccountEdit) (account : Account) :
    (edit.change now account).id = account.id := by
  cases edit <;> rfl

end AccountEdit

/-- The lease after its status was changed. -/
def Lease.moved (now : Int64) (next : LeaseStatus) (lease : Lease) : Lease :=
  { lease with status := next, lastModifiedOn := now, statusModifiedOn := now }

/-! ## Accesses -/

/-- An operation of the pool that is about one account or one lease. -/
inductive Access where
  | getAccount (id : String)
  | putAccount (account : Account)
  | editAccount (id : String) (edit : AccountEdit)
  | deleteAccount (id : String)
  | getLease (accountId principalId : String)
  | putLease (lease : Lease)
  | moveLease (accountId principalId : String) (previous next : LeaseStatus)
  | deleteLease (accountId principalId : String)

namespace Access

/-- What an access that succeeds gives: the entity that was there, was removed or is there now. -/
abbrev Reply : Access → Type
  | getAccount _ | putAccount _ => Option Account
  | editAccount .. | deleteAccount _ => Account
  | getLease .. | putLease _ | deleteLease .. => Option Lease
  | moveLease .. => Lease

/-- The program of an access. -/
def program (pool : Pool) : (access : Access) → Program (Result access.Reply)
  | getAccount id => pool.getAccount id
  | putAccount account => pool.putAccount account
  | editAccount id edit => edit.program pool id
  | deleteAccount id => pool.deleteAccount id
  | getLease accountId principalId => pool.getLease accountId principalId
  | putLease lease => pool.putLease lease
  | moveLease accountId principalId previous next =>
      pool.changeLeaseStatus accountId principalId previous next
  | deleteLease accountId principalId => pool.deleteLease accountId principalId

/-- Changes are stamped with the time. -/
def readsClock : Access → Bool
  | editAccount .. | moveLease .. => true
  | _ => false

end Access

/-! ## The machine -/

/-- The accounts by identifier, and the leases by their keys. -/
structure Inventory where
  accounts : SortedMap String Account := {}
  leases : SortedMap Key Lease := {}

namespace Inventory

/-- The lease of an account to a principal. -/
def lease? (inventory : Inventory) (accountId principalId : String) : Option Lease :=
  inventory.leases.find? (Pool.leaseKey accountId principalId)

/-- What an access at a given time answers, and what it does to the entities. -/
def perform (inventory : Inventory) (now : Int64) :
    (access : Access) → Result access.Reply × Inventory
  | .getAccount id => (.ok (inventory.accounts.find? id), inventory)
  | .putAccount account =>
      (.ok (inventory.accounts.find? account.id),
        { inventory with accounts := inventory.accounts.insert account.id account })
  | .editAccount id edit =>
      match inventory.accounts.find? id with
      | none => (.error (edit.refusal id), inventory)
      | some account =>
          if edit.allows account then
            (.ok (edit.change now account),
              { inventory with accounts := inventory.accounts.insert id (edit.change now account) })
          else (.error (edit.refusal id), inventory)
  | .deleteAccount id =>
      match inventory.accounts.find? id with
      | none => (.error (.accountNotFound id), inventory)
      | some account =>
          if account.isLeased then (.error (.accountLeased account), inventory)
          else (.ok account, { inventory with accounts := inventory.accounts.erase id })
  | .getLease accountId principalId => (.ok (inventory.lease? accountId principalId), inventory)
  | .putLease lease =>
      (.ok (inventory.lease? lease.accountId lease.principalId),
        { inventory with
          leases := inventory.leases.insert (Pool.leaseKey lease.accountId lease.principalId) lease })
  | .moveLease accountId principalId previous next =>
      let refusal := PoolError.rejected
        (Pool.leaseStatusChange accountId principalId previous next).rejection
      match inventory.lease? accountId principalId with
      | none => (.error refusal, inventory)
      | some lease =>
          if lease.status = previous then
            (.ok (lease.moved now next),
              { inventory with
                leases := inventory.leases.insert (Pool.leaseKey accountId principalId)
                  (lease.moved now next) })
          else (.error refusal, inventory)
  | .deleteLease accountId principalId =>
      (.ok (inventory.lease? accountId principalId),
        { inventory with leases := inventory.leases.erase (Pool.leaseKey accountId principalId) })

variable {inventory : Inventory} {now : Int64} {id accountId principalId : String} {account : Account}
  {lease : Lease} {edit : AccountEdit} {previous next : LeaseStatus}

/-- A test is passed by the entity that is held, or by none. -/
theorem passes_or_fails {α : Type} (held : Option α) (test : α → Bool) :
    (∃ entity, held = some entity ∧ test entity = true) ∨
      ∀ entity, held = some entity → test entity = false := by
  cases held with
  | none => exact .inr fun _ hheld => by cases hheld
  | some entity =>
      cases htest : test entity with
      | true => exact .inl ⟨entity, rfl, htest⟩
      | false =>
          refine .inr ?_
          rintro _ ⟨⟩
          exact htest

/-- An account may be changed, or the change is refused. -/
theorem editable_or_not (inventory : Inventory) (id : String) (edit : AccountEdit) :
    (∃ account, inventory.accounts.find? id = some account ∧ edit.allows account = true) ∨
      ∀ account, inventory.accounts.find? id = some account → edit.allows account = false :=
  passes_or_fails _ _

/-- An account may be removed, or it is absent or leased. -/
theorem removable_or_not (inventory : Inventory) (id : String) :
    (∃ account, inventory.accounts.find? id = some account ∧ account.isLeased = false) ∨
      ∀ account, inventory.accounts.find? id = some account → account.isLeased = true := by
  simpa using passes_or_fails (inventory.accounts.find? id) fun account => !account.isLeased

/-- A change that may be made of an account is made. -/
theorem perform_editAccount (haccount : inventory.accounts.find? id = some account)
    (hallows : edit.allows account = true) :
    inventory.perform now (.editAccount id edit) =
      (.ok (edit.change now account),
        { inventory with accounts := inventory.accounts.insert id (edit.change now account) }) := by
  simp only [perform, haccount, hallows, if_true]

/-- A change that may not be made is refused, and nothing happens. -/
theorem perform_editAccount_refused
    (hrefused : ∀ account, inventory.accounts.find? id = some account → edit.allows account = false) :
    inventory.perform now (.editAccount id edit) = (.error (edit.refusal id), inventory) := by
  rw [perform]
  split
  · rfl
  · next account haccount => simp [hrefused account haccount]

/-- An account that is not leased is removed. -/
theorem perform_deleteAccount (haccount : inventory.accounts.find? id = some account)
    (hfree : account.isLeased = false) :
    inventory.perform now (.deleteAccount id) =
      (.ok account, { inventory with accounts := inventory.accounts.erase id }) := by
  simp [perform, haccount, hfree]

/-- A removal that is refused tells why, and nothing happens. -/
theorem perform_deleteAccount_refused
    (hleased : ∀ account, inventory.accounts.find? id = some account → account.isLeased = true) :
    inventory.perform now (.deleteAccount id) =
      (.error (match inventory.accounts.find? id with
        | none => .accountNotFound id
        | some account => .accountLeased account), inventory) := by
  rw [perform]
  split
  · rfl
  · next account haccount => simp [hleased account haccount]

/-- A lease in the expected status is moved to the next one. -/
theorem perform_moveLease (hlease : inventory.lease? accountId principalId = some lease)
    (hstatus : lease.status = previous) :
    inventory.perform now (.moveLease accountId principalId previous next) =
      (.ok (lease.moved now next),
        { inventory with
          leases := inventory.leases.insert (Pool.leaseKey accountId principalId)
            (lease.moved now next) }) := by
  simp only [perform, hlease, hstatus, if_true]

/-- A lease that is missing or in another status is not moved. -/
theorem perform_moveLease_refused
    (hstatus : ∀ lease, inventory.lease? accountId principalId = some lease →
      lease.status ≠ previous) :
    inventory.perform now (.moveLease accountId principalId previous next) =
      (.error (.rejected (Pool.leaseStatusChange accountId principalId previous next).rejection),
        inventory) := by
  simp only [perform]
  split
  · rfl
  · next lease hlease => simp [hstatus lease hlease]

end Inventory

/-- The entities of a pool and its clock. -/
structure TypedPool where
  inventory : Inventory := {}
  clock : Clock

/-- What an access answers, and the pool after it. -/
def TypedPool.perform (pool : TypedPool) (access : Access) : Result access.Reply × TypedPool :=
  let (answer, inventory) := pool.inventory.perform pool.clock.now access
  (answer, ⟨inventory, if access.readsClock then pool.clock.tick else pool.clock⟩)

end AccountPool
