import AccountPool.Proofs.Pool.Operations

/-!
# The pool behaves like the machine over typed entities

`Represents.run_access` says that every access, executed by itself on a store that represents an
inventory, gives what the machine gives, and `Represents.after` that the relation between store and
machine lasts over every run of operations. So the tables, records and attributes cannot be observed.
-/

namespace AccountPool

open Program (Result)

/-- After a call a program goes on with the answer. -/
theorem Program.run_call {σ α : Type} {engine : Engine σ} {state next : σ} {request : Request}
    {answer : request.Answer} (hcall : engine state request = (answer, next)) (fuel : σ → Nat)
    (resume : request.Answer → Program α) (time : Clock) :
    (Program.call request resume).run engine fuel state time =
      (resume answer).run engine fuel next time := by
  rw [Program.run, hcall]

namespace Represents

variable {backend : Backend} {settings : PoolSettings} {store : Store} {inventory : Inventory}

/-- The removal of an account that is not leased gives the account. -/
theorem run_deleteAccount (h : Represents backend settings store inventory)
    (hread : store.ReadsBack backend) (fuel : Store → Nat) (time : Clock) {id : String}
    {account : Account} (haccount : inventory.accounts.find? id = some account)
    (hfree : account.isLeased = false) :
    ((Pool.ofSettings settings).deleteAccount id).run backend.perform fuel store time =
      (some (.ok account), Backend.remove store (Pool.accountTable settings.accountTable)
        (backend.row Account id), time) := by
  obtain ⟨record, hcarries, hperform⟩ := h.perform_deleteAccount hread haccount hfree
  refine (Program.run_call hperform fuel _ time).trans ?_
  show (some (Pool.decode _ record), _) = _
  rw [hcarries.decode]

/-- The removal of an account that is absent or leased changes nothing and tells why. -/
theorem run_deleteAccount_refused (h : Represents backend settings store inventory)
    (hread : store.ReadsBack backend) (fuel : Store → Nat) (time : Clock) {id : String}
    (hleased : ∀ account, inventory.accounts.find? id = some account → account.isLeased = true) :
    ((Pool.ofSettings settings).deleteAccount id).run backend.perform fuel store time =
      (some (.error (match inventory.accounts.find? id with
        | none => .accountNotFound id
        | some account => .accountLeased account)), store, time) := by
  have hperform := h.perform_deleteAccount_refused hread hleased
  refine (Program.run_call hperform fuel _ time).trans ?_
  -- The refusal does not tell why, so the account is read.
  obtain ⟨current, hfound, hget⟩ := h.accounts.perform_get hread id
  refine (Program.run_call hget fuel _ time).trans ?_
  have hdecode := hfound.decode? (Pool.ofSettings settings).accounts
  cases haccount : inventory.accounts.find? id with
  | none =>
      rw [haccount] at hdecode
      simp only [Pool.lift, hdecode]
      rfl
  | some account =>
      rw [haccount] at hdecode
      simp only [Pool.lift, hdecode]
      show Program.run _ _ (if account.isLeased then _ else _) _ _ = _
      rw [if_pos (hleased account haccount)]
      rfl

/-- Every access gives what the machine gives, and the store represents what the machine has then. -/
theorem run_access (h : Represents backend settings store inventory) (hbackend : backend.Provided)
    (hnames : settings.accountTable ≠ settings.leaseTable) (hread : store.ReadsBack backend)
    (fuel : Store → Nat) (time : Clock) (access : Access) :
    ∃ next, (access.program (Pool.ofSettings settings)).run backend.perform fuel store time =
        (some (inventory.perform time.now access).1, next,
          if access.readsClock then time.tick else time) ∧
      Represents backend settings next (inventory.perform time.now access).2 := by
  obtain ⟨answer, next, hperform, hnext, htells⟩ := h.step hbackend hnames hread time.now access
  cases access with
  | editAccount id edit =>
      rw [Access.program, AccountEdit.program_eq, Program.run]
      refine ⟨next, (Program.run_call hperform fuel _ time.tick).trans ?_, hnext⟩
      exact congrArg (fun result => (some result, next, time.tick)) htells
  | moveLease accountId principalId previous status =>
      rw [Access.program, Pool.changeLeaseStatus, Transition.apply, Program.run]
      refine ⟨next, (Program.run_call hperform fuel _ time.tick).trans ?_, hnext⟩
      exact congrArg (fun result => (some result, next, time.tick)) htells
  | deleteAccount id =>
      obtain ⟨account, haccount, hfree⟩ | hleased := inventory.removable_or_not id
      · rw [Inventory.perform_deleteAccount haccount hfree]
        exact ⟨_, h.run_deleteAccount hread fuel time haccount hfree,
          h.removeAccount hbackend hnames id⟩
      · rw [Inventory.perform_deleteAccount_refused hleased]
        exact ⟨_, h.run_deleteAccount_refused hread fuel time hleased, h⟩
  | _ =>
      -- The other accesses are one request, whose answer they translate.
      refine ⟨next, (Program.run_call hperform fuel _ time).trans ?_, hnext⟩
      exact congrArg (fun result => (some result, next, time)) htells

end Represents

/-! ## Runs -/

/-- The store and the clock after operations that are executed one after the other. -/
def Operation.after (backend : Backend) (fuel : Store → Nat) (pool : Pool) :
    Store × Clock → List Operation → Store × Clock
  | state, [] => state
  | state, operation :: operations =>
      after backend fuel pool ((operation.program pool).run backend.perform fuel state.1 state.2).2
        operations

/-- The machine after operations; searches leave it alone. -/
def TypedPool.after : TypedPool → List Operation → TypedPool
  | pool, [] => pool
  | pool, .one access :: operations => after (pool.perform access).2 operations
  | pool, .many _ :: operations => after pool operations

/-- The machine never complains about a record. -/
theorem Inventory.perform_decodes (inventory : Inventory) (now : Int64) (access : Access) :
    (inventory.perform now access).1.Decodes := by
  intro table mismatch hresult
  cases access with
  | getAccount | putAccount | getLease | putLease | deleteLease => cases hresult
  | editAccount id edit =>
      obtain ⟨account, haccount, hallows⟩ | hrefused := inventory.editable_or_not id edit
      · rw [perform_editAccount haccount hallows] at hresult
        cases hresult
      · rw [perform_editAccount_refused hrefused] at hresult
        cases edit <;> cases hresult
  | deleteAccount id =>
      rw [perform] at hresult
      repeat' split at hresult
      all_goals cases hresult
  | moveLease accountId principalId previous next =>
      rw [perform] at hresult
      repeat' split at hresult
      all_goals cases hresult

section Runs

variable {backend : Backend} {settings : PoolSettings} (hbackend : backend.Provided)
  (hnames : settings.accountTable ≠ settings.leaseTable) (fuel : Store → Nat)

include hbackend hnames

/-- A store that represents the entities of the machine still does so after every run. -/
theorem Represents.after {store : Store} {typed : TypedPool}
    (h : Represents backend settings store typed.inventory) (operations : List Operation)
    (hread : ∀ before, before <+: operations →
      (Operation.after backend fuel (.ofSettings settings) (store, typed.clock) before).1.ReadsBack
        backend) :
    Represents backend settings
        (Operation.after backend fuel (.ofSettings settings) (store, typed.clock) operations).1
        (typed.after operations).inventory ∧
      (Operation.after backend fuel (.ofSettings settings) (store, typed.clock) operations).2 =
        (typed.after operations).clock := by
  induction operations generalizing store typed with
  | nil => exact ⟨h, rfl⟩
  | cons operation operations ih =>
      have hstart := hread [] List.nil_prefix
      have hrest := fun before (hbefore : before <+: operations) =>
        hread (operation :: before) (List.cons_prefix_cons.2 ⟨rfl, hbefore⟩)
      -- An access is one step of the machine, a search is none.
      cases operation with
      | one access =>
          obtain ⟨next, hrun, hnext⟩ :=
            h.run_access hbackend hnames hstart fuel typed.clock access
          simp only [Operation.after, Operation.program, hrun] at hrest ⊢
          have hpool : Represents backend settings next (typed.perform access).2.inventory := hnext
          exact ih hpool hrest
      | many search =>
          obtain ⟨result, hrun, -⟩ := h.search_onlyReads hstart fuel typed.clock search
          simp only [Operation.after, Operation.program, hrun] at hrest ⊢
          exact ih h hrest

/-- After every run of operations from an empty store, every access gives what the machine over typed
entities gives, and no operation meets a record that it cannot read. -/
theorem answer_eq_typedPool (clock : Clock) (operations : List Operation)
    (hread : ∀ before, before <+: operations →
      (Operation.after backend fuel (.ofSettings settings) ({}, clock) before).1.ReadsBack backend) :
    let state := Operation.after backend fuel (.ofSettings settings) ({}, clock) operations
    let typed := TypedPool.after ⟨{}, clock⟩ operations
    (∀ access : Access,
      ((access.program (.ofSettings settings)).run backend.perform fuel state.1 state.2).1 =
        some (typed.perform access).1) ∧
    ∀ (operation : Operation) (result : Result operation.Reply),
      ((operation.program (.ofSettings settings)).run backend.perform fuel state.1 state.2).1 =
        some result → result.Decodes := by
  intro state typed
  have hempty : Represents backend settings {} (TypedPool.inventory ⟨{}, clock⟩) := .empty _ _
  obtain ⟨hrepresents, hclock⟩ := hempty.after hbackend hnames fuel operations hread
  have hstate : state.1.ReadsBack backend := hread operations List.prefix_rfl
  have haccess : ∀ access : Access,
      ((access.program (.ofSettings settings)).run backend.perform fuel state.1 state.2).1 =
        some (typed.perform access).1 := by
    intro access
    obtain ⟨next, hrun, -⟩ := hrepresents.run_access hbackend hnames hstate fuel typed.clock access
    rw [show state.2 = typed.clock from hclock, hrun]
    rfl
  refine ⟨haccess, ?_⟩
  intro operation result hresult
  cases operation with
  | one access =>
      obtain rfl := Option.some.inj ((haccess access).symm.trans hresult)
      exact typed.inventory.perform_decodes typed.clock.now access
  | many search =>
      obtain ⟨found, hrun, hdecodes⟩ := hrepresents.search_onlyReads hstate fuel state.2 search
      refine hdecodes result ?_
      rw [← hresult]
      exact congrArg Prod.fst hrun.symm

end Runs

/-- An account that was put in a database and listed is moved from its status to another one. -/
theorem answer_eq_typedPool_moved :
    let backend := Backend.databaseWith .ok Backend.columnMatches
    let account : Account := { id := "1", status := .ready }
    let state := Operation.after backend Store.size (.ofSettings {}) ({}, ⟨7, 1⟩)
      [.one (.putAccount account), .many .listAccounts]
    let access := Access.editAccount "1" (.status .ready .leased)
    ((access.program (.ofSettings {})).run backend.perform Store.size state.1 state.2).1 =
      some (.ok { account with status := .leased, lastModifiedOn := 7 }) := by
  intro backend account state access
  have hprovided : backend.Provided := .database .ok Backend.columnMatches
  have hnames : ({} : PoolSettings).accountTable ≠ ({} : PoolSettings).leaseTable := by decide
  have hread (store : Store) : store.ReadsBack backend := fun _ _ _ _ => rfl
  have hanswer := (answer_eq_typedPool hprovided hnames Store.size ⟨7, 1⟩
    [.one (.putAccount account), .many .listAccounts] fun _ _ => hread _).1 access
  let typed := TypedPool.after ⟨{}, ⟨7, 1⟩⟩ [.one (.putAccount account), .many .listAccounts]
  have haccount : typed.inventory.accounts.find? "1" = some account :=
    SortedMap.find?_insert_self _ _ _
  have hmoved : typed.inventory.perform 7 access = _ := Inventory.perform_editAccount haccount rfl
  refine hanswer.trans ?_
  show some (typed.inventory.perform 7 access).1 = _
  rw [hmoved]
  rfl

end AccountPool
