import AccountPool.Proofs.Pool.Files

/-!
# Stores that represent an inventory

A store represents an inventory if its two tables file the accounts and the leases. Every access sends
the store a request that says what the access is about; `Represents.step` is the simulation: the request
does to the rows what the access does to the entities, and the answer tells what the access gives. Only
a refused removal tells less, since an account that is absent and one that is leased are refused alike.
-/

namespace AccountPool

open Program (Result)

/-! ## Requests of accesses -/

namespace Access

/-- The request by which an access reads or writes the store at a given time. -/
def request (pool : Pool) (now : Int64) : Access → Request
  | getAccount id => .get pool.accounts (Pool.accountKey id)
  | putAccount account => .put pool.accounts (.ofEntity account) none
  | editAccount id edit =>
      .update pool.accounts (Pool.accountKey id) (edit.assignments id now) (some (edit.guard id))
  | deleteAccount id => .delete pool.accounts (Pool.accountKey id) (some Pool.removalGuard)
  | getLease accountId principalId => .get pool.leases (Pool.leaseKey accountId principalId)
  | putLease lease => .put pool.leases (.ofEntity lease) none
  | moveLease accountId principalId previous next =>
      let transition := Pool.leaseStatusChange accountId principalId previous next
      .update pool.leases (Pool.leaseKey accountId principalId) (transition.assignments now)
        (some transition.guard)
  | deleteLease accountId principalId =>
      .delete pool.leases (Pool.leaseKey accountId principalId) none

end Access

/-- The result of a change of an account, from the answer of the store. -/
def AccountEdit.settle (pool : Pool) (id : String) :
    AccountEdit → Except StoreError Record → Result Account
  | .status previous next => (Pool.accountStatusChange id previous next).settle pool.accounts
  | .policyHash previous next => (Pool.policyHashChange id previous next).settle pool.accounts
  | .metadata _ => pool.settleMetadata id

/-- Every change of an account reads the clock and sends one request. -/
theorem AccountEdit.program_eq (pool : Pool) (id : String) (edit : AccountEdit) :
    edit.program pool id = .clock fun now =>
      .call (.update pool.accounts (Pool.accountKey id) (edit.assignments id now)
        (some (edit.guard id))) fun answer => .done (edit.settle pool id answer) := by
  cases edit <;> rfl

/-- The account that a record carries is the result of a change. -/
theorem AccountEdit.settle_ok (pool : Pool) (id : String) (edit : AccountEdit) {record : Record}
    {account : Account} (hcarries : record.Carries account) :
    edit.settle pool id (.ok record) = .ok account := by
  cases edit <;> exact hcarries.decode _

/-- A change whose condition failed is refused. -/
theorem AccountEdit.settle_conditionFailed (pool : Pool) (id : String) (edit : AccountEdit)
    (name : String) :
    edit.settle pool id (.error (.conditionFailed name)) = .error (edit.refusal id) := by
  cases edit <;> rfl

/-- The answer of the store tells the result of an access. That a removal is refused tells only that it
was. -/
def Access.Tells (pool : Pool) (now : Int64) :
    (access : Access) → (access.request pool now).Answer → Result access.Reply → Prop
  | getAccount _, answer, result | putAccount _, answer, result =>
      Pool.lift answer (Pool.decode? pool.accounts) = result
  | editAccount id edit, answer, result => edit.settle pool id answer = result
  | deleteAccount _, answer, result =>
      match result with
      | .ok account => ∃ record : Record, record.Carries account ∧ answer = .ok (some record)
      | .error _ => answer = .error (.conditionFailed pool.accounts.name)
  | getLease .., answer, result | putLease _, answer, result | deleteLease .., answer, result =>
      Pool.lift answer (Pool.decode? pool.leases) = result
  | moveLease accountId principalId previous next, answer, result =>
      (Pool.leaseStatusChange accountId principalId previous next).settle pool.leases answer = result

/-! ## The relation -/

/-- The two tables of a store file the accounts and the leases of an inventory. -/
structure Represents (backend : Backend) (settings : PoolSettings) (store : Store)
    (inventory : Inventory) : Prop where
  accounts : Files backend store settings.accountTable inventory.accounts.find?
  leases : Files backend store settings.leaseTable fun label => inventory.lease? label.1 label.2

namespace Represents

variable {backend : Backend} {settings : PoolSettings} {store : Store} {inventory : Inventory}

/-- An empty store represents an empty inventory. -/
theorem empty (backend : Backend) (settings : PoolSettings) : Represents backend settings {} {} where
  accounts := Files.empty backend settings.accountTable
  leases := Files.empty backend settings.leaseTable

/-- The key of a lease is that of an account and a principal exactly if the lease is theirs. -/
theorem leaseKey_eq {label : String × String} {accountId principalId : String} :
    Pool.leaseKey label.1 label.2 = Pool.leaseKey accountId principalId ↔
      label = (accountId, principalId) := by
  simp [Pool.leaseKey, Prod.ext_iff]

section Writes

variable (h : Represents backend settings store inventory) (hbackend : backend.Provided)
  (hnames : settings.accountTable ≠ settings.leaseTable)

include h hbackend hnames

/-- Writing the record of an account is filing the account. -/
theorem writeAccount {record : Record} {account : Account} (hcarries : record.Carries account) :
    Represents backend settings
      (Backend.write store (Pool.accountTable settings.accountTable)
        (backend.row Account account.id) record)
      { inventory with accounts := inventory.accounts.insert account.id account } where
  accounts := by
    refine (h.accounts.write hbackend hcarries).congr rfl fun id => ?_
    exact SortedMap.find?_insert _ _ _ _
  leases := by
    refine h.leases.congr ?_ fun _ => rfl
    exact Backend.rows_write_of_ne store hnames.symm _ record

/-- Removing the row of an account is removing the account. -/
theorem removeAccount (id : String) :
    Represents backend settings
      (Backend.remove store (Pool.accountTable settings.accountTable) (backend.row Account id))
      { inventory with accounts := inventory.accounts.erase id } where
  accounts := by
    refine (h.accounts.remove hbackend id).congr rfl fun other => ?_
    exact SortedMap.find?_erase _ _ _
  leases := by
    refine h.leases.congr ?_ fun _ => rfl
    exact Backend.rows_remove_of_ne store hnames.symm _

/-- Writing the record of a lease is filing the lease. -/
theorem writeLease {record : Record} {lease : Lease} (hcarries : record.Carries lease) :
    Represents backend settings
      (Backend.write store (Pool.leaseTable settings.leaseTable)
        (backend.row Lease (lease.accountId, lease.principalId)) record)
      { inventory with
        leases := inventory.leases.insert (Pool.leaseKey lease.accountId lease.principalId) lease } where
  accounts := by
    refine h.accounts.congr ?_ fun _ => rfl
    exact Backend.rows_write_of_ne store hnames _ record
  leases := by
    refine (h.leases.write hbackend hcarries).congr rfl fun label => ?_
    simp only [Inventory.lease?, SortedMap.find?_insert, leaseKey_eq]
    rfl

/-- Removing the row of a lease is removing the lease. -/
theorem removeLease (accountId principalId : String) :
    Represents backend settings
      (Backend.remove store (Pool.leaseTable settings.leaseTable)
        (backend.row Lease (accountId, principalId)))
      { inventory with
        leases := inventory.leases.erase (Pool.leaseKey accountId principalId) } where
  accounts := by
    refine h.accounts.congr ?_ fun _ => rfl
    exact Backend.rows_remove_of_ne store hnames _
  leases := by
    refine (h.leases.remove hbackend (accountId, principalId)).congr rfl fun label => ?_
    simp only [Inventory.lease?, SortedMap.find?_erase, leaseKey_eq]

end Writes

/-- An account that is not leased is removed by a guarded delete. -/
theorem perform_deleteAccount (h : Represents backend settings store inventory)
    (hread : store.ReadsBack backend) {id : String} {account : Account}
    (haccount : inventory.accounts.find? id = some account) (hfree : account.isLeased = false) :
    ∃ record : Record, record.Carries account ∧
      backend.perform store (.delete (Pool.accountTable settings.accountTable) (Pool.accountKey id)
          (some Pool.removalGuard)) =
        (.ok (some record), Backend.remove store (Pool.accountTable settings.accountTable)
          (backend.row Account id)) := by
  have hfound := h.accounts.found id
  rw [haccount] at hfound
  generalize hcurrent : (store.rows settings.accountTable).find? (backend.row Account id) = current
    at hfound
  cases hfound with
  | some hcarries =>
      refine ⟨_, hcarries.1, ?_⟩
      rw [Backend.perform_delete hread hcurrent]
      simp only [Condition.allows, Pool.evaluate_removalGuard hcarries.1, hfree, Bool.not_false, if_true]
      rfl

/-- The guarded delete of an account is refused if there is none or if it is leased. -/
theorem perform_deleteAccount_refused (h : Represents backend settings store inventory)
    (hread : store.ReadsBack backend) {id : String}
    (hleased : ∀ account, inventory.accounts.find? id = some account → account.isLeased = true) :
    backend.perform store (.delete (Pool.accountTable settings.accountTable) (Pool.accountKey id)
        (some Pool.removalGuard)) =
      (.error (.conditionFailed settings.accountTable), store) := by
  have hfound := h.accounts.found id
  generalize hcurrent : (store.rows settings.accountTable).find? (backend.row Account id) = current
    at hfound
  generalize hheld : inventory.accounts.find? id = held at hfound
  rw [Backend.perform_delete hread hcurrent]
  cases hfound with
  | none => rfl
  | some hcarries =>
      simp only [Condition.allows, Pool.evaluate_removalGuard hcarries.1, hleased _ hheld,
        Bool.not_true]
      rfl

/-- The request of an access does to the rows what the access does to the entities, and its answer tells
what the access gives. -/
theorem step (h : Represents backend settings store inventory) (hbackend : backend.Provided)
    (hnames : settings.accountTable ≠ settings.leaseTable) (hread : store.ReadsBack backend)
    (now : Int64) (access : Access) :
    ∃ answer next, backend.perform store (access.request (Pool.ofSettings settings) now) =
        (answer, next) ∧
      Represents backend settings next (inventory.perform now access).2 ∧
      access.Tells (Pool.ofSettings settings) now answer (inventory.perform now access).1 := by
  cases access with
  | getAccount id =>
      obtain ⟨current, hfound, hperform⟩ := h.accounts.perform_get hread id
      exact ⟨_, _, hperform, h, hfound.decode? _⟩
  | putAccount account =>
      obtain ⟨current, hfound, hperform⟩ := h.accounts.perform_put hread account
      have hcarries := Record.carries_ofEntity account
      exact ⟨_, _, hperform, h.writeAccount hbackend hnames hcarries, hfound.decode? _⟩
  | editAccount id edit =>
      obtain ⟨account, haccount, hallows⟩ | hrefused := inventory.editable_or_not id edit
      · obtain ⟨hid, record, hcarries, hperform⟩ :=
          h.accounts.perform_update hread (edit.edit id now) haccount hallows
        obtain rfl : account.id = id := hid
        have hchanged : record.Carries (edit.change now account) := hcarries
        have hnext := h.writeAccount hbackend hnames hchanged
        rw [AccountEdit.id_change] at hnext
        rw [Inventory.perform_editAccount haccount hallows]
        exact ⟨_, _, hperform, hnext, edit.settle_ok _ _ hcarries⟩
      · have hperform := h.accounts.perform_update_refused hread (edit.edit id now) id hrefused
        rw [Inventory.perform_editAccount_refused hrefused]
        exact ⟨_, _, hperform, h, edit.settle_conditionFailed _ id _⟩
  | deleteAccount id =>
      obtain ⟨account, haccount, hfree⟩ | hleased := inventory.removable_or_not id
      · obtain ⟨record, hcarries, hperform⟩ := h.perform_deleteAccount hread haccount hfree
        rw [Inventory.perform_deleteAccount haccount hfree]
        exact ⟨_, _, hperform, h.removeAccount hbackend hnames id, record, hcarries, rfl⟩
      · rw [Inventory.perform_deleteAccount_refused hleased]
        exact ⟨_, _, h.perform_deleteAccount_refused hread hleased, h, rfl⟩
  | getLease accountId principalId =>
      obtain ⟨current, hfound, hperform⟩ := h.leases.perform_get hread (accountId, principalId)
      exact ⟨_, _, hperform, h, hfound.decode? _⟩
  | putLease lease =>
      obtain ⟨current, hfound, hperform⟩ := h.leases.perform_put hread lease
      have hcarries := Record.carries_ofEntity lease
      exact ⟨_, _, hperform, h.writeLease hbackend hnames hcarries, hfound.decode? _⟩
  | moveLease accountId principalId previous next =>
      -- The key of the lease is made of two texts, so the lease is looked up by a pair of them.
      by_cases hallowed : ∃ lease, inventory.lease? accountId principalId = some lease ∧
          lease.status = previous
      · obtain ⟨lease, hlease, hstatus⟩ := hallowed
        have hfound : (fun label : String × String => inventory.lease? label.1 label.2)
            (accountId, principalId) = some lease := hlease
        obtain ⟨hlabel, record, hcarries, hperform⟩ := h.leases.perform_update hread
          (Lease.move accountId principalId previous next now) hfound (decide_eq_true hstatus)
        obtain ⟨rfl, rfl⟩ := Prod.ext_iff.1 hlabel
        have hnext := h.writeLease hbackend hnames hcarries
        rw [Inventory.perform_moveLease hlease hstatus]
        exact ⟨_, _, hperform, hnext, hcarries.decode _⟩
      · have hrefused : ∀ lease, inventory.lease? accountId principalId = some lease →
            lease.status ≠ previous :=
          fun lease hlease hstatus => hallowed ⟨lease, hlease, hstatus⟩
        have hperform := h.leases.perform_update_refused hread
          (Lease.move accountId principalId previous next now) (accountId, principalId)
          fun lease hlease => decide_eq_false (hrefused lease hlease)
        rw [Inventory.perform_moveLease_refused hrefused]
        exact ⟨_, _, hperform, h, rfl⟩
  | deleteLease accountId principalId =>
      obtain ⟨current, hfound, hperform⟩ := h.leases.perform_delete hread (accountId, principalId)
      exact ⟨_, _, hperform, h.removeLease hbackend hnames accountId principalId, hfound.decode? _⟩

end Represents

end AccountPool
