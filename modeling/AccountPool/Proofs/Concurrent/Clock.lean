import AccountPool.Proofs.Concurrent.Transition

/-!
# Accesses that read the clock

A call that stamps an entity reads the clock in one step and updates the entity in a later one, and other
clients may do both in between. `Represents.act_timed` says what the later step does: the access takes effect
at the time that it has read. `Inventory.Below.perform` keeps timestamps below a bound, and
`Inventory.stamps?_perform` gives the timestamps that an access leaves behind.
-/

namespace AccountPool

open Program (Result)

/-! ## Accesses that read the clock -/

namespace Access

/-- What is left of an access that has read the clock. -/
def timed (pool : Pool) (now : Int64) : (access : Access) → Program (Result access.Reply)
  | editAccount id edit =>
      .call (.update pool.accounts (Pool.accountKey id) (edit.assignments id now) (some (edit.guard id)))
        fun answer => .done (edit.settle pool id answer)
  | moveLease accountId principalId previous next =>
      let transition := Pool.leaseStatusChange accountId principalId previous next
      .call (.update pool.leases (Pool.leaseKey accountId principalId) (transition.assignments now)
        (some transition.guard)) fun answer => .done (transition.settle pool.leases answer)
  | access => access.program pool

variable {access : Access} {pool : Pool}

/-- An access that reads the clock does so first. -/
theorem program_eq_clock (hreads : access.readsClock = true) :
    access.program pool = .clock fun now => access.timed pool now := by
  cases access with
  | editAccount id edit => exact AccountEdit.program_eq pool id edit
  | moveLease => rfl
  | getAccount | putAccount | deleteAccount | getLease | putLease | deleteLease => cases hreads

/-- After it has read the clock an access has not come to its result. -/
theorem result?_timed (hreads : access.readsClock = true) (pool : Pool) (now : Int64) :
    (Thread.running (access.timed pool now)).result? = none := by
  cases access with
  | editAccount | moveLease => rfl
  | getAccount | putAccount | deleteAccount | getLease | putLease | deleteLease => cases hreads

end Access

/-- An access that has read the clock takes effect at the time that it has read. -/
theorem Represents.act_timed {backend : Backend} {settings : PoolSettings} {store after : Store}
    {inventory : Inventory} (h : Represents backend settings store inventory)
    (hbackend : backend.Provided) (hnames : settings.accountTable ≠ settings.leaseTable)
    (hread : store.ReadsBack backend) {access : Access} (hreads : access.readsClock = true)
    {time now : Int64} {next : Thread (Result access.Reply)}
    (hstep : (Thread.running (access.timed (.ofSettings settings) time)).step backend.perform now
      store = some (next, after)) :
    next = .running (.done (inventory.perform time access).1) ∧
      Represents backend settings after (inventory.perform time access).2 := by
  cases access with
  | editAccount | moveLease => exact h.act_call hbackend hnames hread hstep fun _ _ htells => htells
  | getAccount | putAccount | deleteAccount | getLease | putLease | deleteLease => cases hreads

/-! ## Timestamps of entities -/

/-- What an access at a given time stamps or puts has timestamps below a bound. -/
def Access.Below (now bound : Int64) : Access → Prop
  | putAccount account => account.lastModifiedOn < bound
  | putLease lease => lease.lastModifiedOn < bound ∧ lease.statusModifiedOn < bound
  | editAccount .. | moveLease .. => now < bound
  | getAccount _ | deleteAccount _ | getLease .. | deleteLease .. => True

/-- An access that reads the clock stamps its entity with what it has read. -/
theorem Access.below_of_readsClock {access : Access} (hreads : access.readsClock = true)
    {now bound : Int64} (hnow : now < bound) : access.Below now bound := by
  cases access with
  | editAccount | moveLease => exact hnow
  | getAccount | putAccount | deleteAccount | getLease | putLease | deleteLease => cases hreads

/-- An account that was changed was modified at the time of the change. -/
@[simp] theorem AccountEdit.lastModifiedOn_change (now : Int64) (edit : AccountEdit)
    (account : Account) : (edit.change now account).lastModifiedOn = now := by
  cases edit <;> rfl

namespace Inventory

/-- The timestamps of the entity that an access changes: when an account was modified, or when a lease and
its status were. -/
def stamps? (inventory : Inventory) : Access → Option (List Int64)
  | .editAccount id _ => (inventory.accounts.find? id).map fun account => [account.lastModifiedOn]
  | .moveLease accountId principalId _ _ =>
      (inventory.lease? accountId principalId).map fun lease =>
        [lease.lastModifiedOn, lease.statusModifiedOn]
  | _ => none

/-- All timestamps are below a bound. -/
structure Below (inventory : Inventory) (bound : Int64) : Prop where
  accounts : ∀ id account, inventory.accounts.find? id = some account → account.lastModifiedOn < bound
  leases : ∀ accountId principalId lease, inventory.lease? accountId principalId = some lease →
    lease.lastModifiedOn < bound ∧ lease.statusModifiedOn < bound

variable {inventory : Inventory} {now bound : Int64}

/-- An empty inventory has no timestamps. -/
theorem below_empty (bound : Int64) : ({} : Inventory).Below bound where
  accounts id account haccount := by cases haccount
  leases accountId principalId lease hlease := by cases hlease

/-- Timestamps below a bound are below a greater one. -/
theorem Below.mono (h : inventory.Below bound) {greater : Int64} (hle : bound ≤ greater) :
    inventory.Below greater where
  accounts id account haccount := Int64.lt_of_lt_of_le (h.accounts id account haccount) hle
  leases accountId principalId lease hlease :=
    ⟨Int64.lt_of_lt_of_le (h.leases accountId principalId lease hlease).1 hle,
      Int64.lt_of_lt_of_le (h.leases accountId principalId lease hlease).2 hle⟩

/-- The timestamps of an entity are among those of the inventory. -/
theorem Below.stamps (h : inventory.Below bound) {access : Access} {stamps : List Int64}
    (hstamps : inventory.stamps? access = some stamps) : ∀ stamp ∈ stamps, stamp < bound := by
  cases access with
  | editAccount id edit =>
      obtain ⟨account, haccount, rfl⟩ := Option.map_eq_some_iff.1 hstamps
      simpa using h.accounts id account haccount
  | moveLease accountId principalId previous next =>
      obtain ⟨lease, hlease, rfl⟩ := Option.map_eq_some_iff.1 hstamps
      simpa using h.leases accountId principalId lease hlease
  | getAccount | putAccount | deleteAccount | getLease | putLease | deleteLease => cases hstamps

/-- An account with a timestamp below the bound may be filed. -/
theorem Below.insertAccount (h : inventory.Below bound) {account : Account}
    (haccount : account.lastModifiedOn < bound) (id : String) :
    ({ inventory with accounts := inventory.accounts.insert id account } : Inventory).Below bound where
  accounts other found hfound := by
    rw [SortedMap.find?_insert] at hfound
    split at hfound
    · cases hfound
      exact haccount
    · exact h.accounts other found hfound
  leases := h.leases

/-- A lease with timestamps below the bound may be filed. -/
theorem Below.insertLease (h : inventory.Below bound) {lease : Lease}
    (hlease : lease.lastModifiedOn < bound ∧ lease.statusModifiedOn < bound) (key : Key) :
    ({ inventory with leases := inventory.leases.insert key lease } : Inventory).Below bound where
  accounts := h.accounts
  leases accountId principalId found hfound := by
    rw [lease?, SortedMap.find?_insert] at hfound
    split at hfound
    · cases hfound
      exact hlease
    · exact h.leases accountId principalId found hfound

/-- An access that stamps nothing beyond a bound keeps all timestamps below it. -/
theorem Below.perform (h : inventory.Below bound) {access : Access} (haccess : access.Below now bound) :
    (inventory.perform now access).2.Below bound := by
  cases access with
  | getAccount | getLease => exact h
  | putAccount account => exact h.insertAccount haccess account.id
  | putLease lease => exact h.insertLease haccess _
  | editAccount id edit =>
      obtain ⟨account, haccount, hallows⟩ | hrefused := inventory.editable_or_not id edit
      · rw [perform_editAccount haccount hallows]
        refine h.insertAccount ?_ id
        rw [AccountEdit.lastModifiedOn_change]
        exact haccess
      · rw [perform_editAccount_refused hrefused]
        exact h
  | deleteAccount id =>
      obtain ⟨account, haccount, hfree⟩ | hleased := inventory.removable_or_not id
      · rw [perform_deleteAccount haccount hfree]
        refine ⟨fun other found hfound => ?_, h.leases⟩
        rw [SortedMap.find?_erase] at hfound
        split at hfound
        · cases hfound
        · exact h.accounts other found hfound
      · rw [perform_deleteAccount_refused hleased]
        exact h
  | moveLease accountId principalId previous next =>
      by_cases hallowed : ∃ lease, inventory.lease? accountId principalId = some lease ∧
          lease.status = previous
      · obtain ⟨lease, hlease, hstatus⟩ := hallowed
        have hnow : now < bound := haccess
        have hmoved : (lease.moved now next).lastModifiedOn < bound ∧
            (lease.moved now next).statusModifiedOn < bound := ⟨hnow, hnow⟩
        rw [perform_moveLease hlease hstatus]
        exact h.insertLease hmoved (Pool.leaseKey accountId principalId)
      · rw [perform_moveLease_refused fun lease hlease hstatus => hallowed ⟨lease, hlease, hstatus⟩]
        exact h
  | deleteLease accountId principalId =>
      refine ⟨h.accounts, fun otherId otherPrincipalId found hfound => ?_⟩
      rw [lease?] at hfound
      show found.lastModifiedOn < bound ∧ found.statusModifiedOn < bound
      rw [Inventory.perform, SortedMap.find?_erase] at hfound
      split at hfound
      · cases hfound
      · exact h.leases otherId otherPrincipalId found hfound

/-- An access that reads the clock and is granted stamps its entity with the time. -/
theorem stamps?_perform {access : Access} (hreads : access.readsClock = true) {reply : access.Reply}
    (hgranted : (inventory.perform now access).1 = .ok reply) :
    ∃ stamps, inventory.stamps? access = some stamps ∧
      (inventory.perform now access).2.stamps? access = some (stamps.map fun _ => now) := by
  cases access with
  | editAccount id edit =>
      obtain ⟨account, haccount, hallows⟩ | hrefused := inventory.editable_or_not id edit
      · refine ⟨[account.lastModifiedOn], ?_, ?_⟩
        · rw [stamps?, haccount]
          rfl
        · rw [perform_editAccount haccount hallows, stamps?, SortedMap.find?_insert_self]
          simp
      · rw [perform_editAccount_refused hrefused] at hgranted
        cases hgranted
  | moveLease accountId principalId previous next =>
      by_cases hallowed : ∃ lease, inventory.lease? accountId principalId = some lease ∧
          lease.status = previous
      · obtain ⟨lease, hlease, hstatus⟩ := hallowed
        refine ⟨[lease.lastModifiedOn, lease.statusModifiedOn], ?_, ?_⟩
        · rw [stamps?, hlease]
          rfl
        · rw [perform_moveLease hlease hstatus, stamps?, lease?, SortedMap.find?_insert_self]
          rfl
      · rw [perform_moveLease_refused fun lease hlease hstatus => hallowed ⟨lease, hlease, hstatus⟩]
          at hgranted
        cases hgranted
  | getAccount | putAccount | deleteAccount | getLease | putLease | deleteLease => cases hreads

end Inventory

end AccountPool
