import AccountPool.Proofs.Pool.Operations
import AccountPool.Proofs.Pool.Simulation
import AccountPool.Proofs.Store.Drain
import AccountPool.Proofs.Store.Equivalence
import AccountPool.Proofs.Store.Target

/-!
# What operations ask of the store

An operation looks records up or sends the request of one access, and nothing else: `Operation.sends`. So a
property of stores that these requests keep up holds in every state that operations reach, whether or not
they succeed and whether or not records can be read: `Operation.after_invariant`. One such property is that
every row has a key of one of the two tables.
-/

namespace AccountPool

open Program (Result)

/-! ## Requests of programs -/

namespace Program

variable {α β : Type}

/-- Whatever a program sends to the store, apart from its scans, is of a kind. -/
def Sends (kind : Request → Prop) : Program α → Prop
  | done _ => True
  | call request resume => kind request ∧ ∀ answer, (resume answer).Sends kind
  | clock resume => ∀ now, (resume now).Sends kind
  | scan _ _ _ resume => ∀ answer, (resume answer).Sends kind

variable {kind : Request → Prop}

/-- A program that is continued sends what it sends and what the continuation sends. -/
theorem Sends.bind {program : Program α} (h : program.Sends kind) {next : α → Program β}
    (hnext : ∀ result, (next result).Sends kind) : (program.bind next).Sends kind := by
  induction program with
  | done result => exact hnext result
  | call request resume ih => exact ⟨h.1, fun answer => ih answer (h.2 answer)⟩
  | clock resume ih => exact fun now => ih now (h now)
  | scan table pageSize keep resume ih => exact fun answer => ih answer (h answer)

/-- What the requests of a program keep up holds after the program. -/
theorem Sends.run {backend : Backend} {program : Program α} (h : program.Sends kind)
    {holds : Store → Prop}
    (hkeep : ∀ store request, kind request → holds store → holds (backend.perform store request).2)
    (fuel : Store → Nat) {store : Store} (hstart : holds store) (time : Clock) :
    holds (program.run backend.perform fuel store time).2.1 := by
  induction program generalizing store time with
  | done result => exact hstart
  | call request resume ih => exact ih _ (h.2 _) (hkeep store request h.1 hstart) time
  | clock resume ih => exact ih _ (h _) hstart time.tick
  | scan table pageSize keep resume ih =>
      have hstate : ((Scan.begin pageSize).drain (.ofEngine backend.perform table) keep (fuel store)
        store []).2 = store := Scan.drain_state keep (fuel store) (.begin pageSize) []
      rw [Program.run]
      split <;> next hdrain =>
        rw [hdrain] at hstate
        obtain rfl : _ = store := hstate
        first | exact ih _ (h _) hstart time | exact hstart

end Program

/-! ## Requests of operations -/

/-- The requests that an operation of a pool may send: that of an access, or a look-up of records. -/
inductive Operation.Requests (pool : Pool) : Operation → Request → Prop where
  | access (access : Access) (now : Int64) : Requests pool (.one access) (access.request pool now)
  | reread (access : Access) (id : String) :
      Requests pool (.one access) (.get pool.accounts (Pool.accountKey id))
  | search (search : Search) (table : Table) (name : String) (value : Json.Value) :
      Requests pool (.many search) (.query table name value)

namespace Pool

variable {pool : Pool}

/-- The removal of an account deletes it and reads it. -/
theorem sends_deleteAccount (id : String) (attempts : Nat) :
    (pool.deleteAccount id attempts).Sends
      (Operation.Requests pool (.one (.deleteAccount id))) := by
  induction attempts with
  | zero => trivial
  | succ attempts ih =>
      refine ⟨.access (.deleteAccount id) 0, fun answer => ?_⟩
      dsimp only
      split
      · trivial
      · trivial
      · have hget : (pool.getAccount id).Sends
            (Operation.Requests pool (.one (.deleteAccount id))) := ⟨.reread _ id, fun _ => trivial⟩
        refine hget.bind fun result => ?_
        split
        · trivial
        · trivial
        · split
          · trivial
          · exact ih
      · trivial

/-- Accounts are looked for by their role in a scan, since the role is not indexed. -/
theorem accountsByRole_eq_scan (settings : PoolSettings) (roleArn : String) :
    (ofSettings settings).accountsByRole roleArn =
      scanWhere (ofSettings settings) (ofSettings settings).accounts fun record =>
        record.holds Account.roleArnName (.string roleArn) := by
  have hindex : ¬ (ofSettings settings).accounts.isQueryable Account.roleArnName = true := by
    show ¬ (accountTable "").isQueryable Account.roleArnName = true
    decide
  rw [accountsByRole, findBy, if_neg hindex]

end Pool

/-- An operation sends nothing but its requests. -/
theorem Operation.sends (pool : Pool) (operation : Operation) :
    (operation.program pool).Sends (operation.Requests pool) := by
  cases operation with
  | one access =>
      cases access with
      | deleteAccount id => exact Pool.sends_deleteAccount id 2
      | editAccount id edit =>
          rw [Operation.program, Access.program, AccountEdit.program_eq]
          exact fun now => ⟨.access (.editAccount id edit) now, fun _ => trivial⟩
      | moveLease accountId principalId previous next =>
          exact fun now =>
            ⟨.access (.moveLease accountId principalId previous next) now, fun _ => trivial⟩
      | getAccount | putAccount | getLease | putLease | deleteLease =>
          exact ⟨.access _ 0, fun _ => trivial⟩
  | many search =>
      have hscan {α : Type} [Entity α] (table : Table) (keep : Record → Bool) :
          (Pool.scanWhere (α := α) pool table keep).Sends (Requests pool (.many search)) :=
        fun _ => trivial
      have hfind {α : Type} [Entity α] (table : Table) (name text : String) :
          (Pool.findBy (α := α) pool table name text).Sends (Requests pool (.many search)) := by
        unfold Pool.findBy
        split
        · exact ⟨.search search table name _, fun _ => trivial⟩
        · exact hscan table _
      cases search with
      | listAccounts | accountsNotReady | listLeases => exact hscan _ _
      | accountsByStatus | accountsByRole | leasesByAccount | leasesByPrincipal | leasesByStatus =>
          exact hfind _ _ _
      | firstReadyAccount => exact (hfind _ _ _).bind fun _ => trivial

/-- What the requests of operations keep up holds after the operations. -/
theorem Operation.after_invariant {backend : Backend} {pool : Pool} {holds : Store → Prop}
    {operations : List Operation}
    (hkeep : ∀ operation ∈ operations, ∀ store request, operation.Requests pool request →
      holds store → holds (backend.perform store request).2)
    (fuel : Store → Nat) {state : Store × Clock} (hstart : holds state.1) :
    holds (Operation.after backend fuel pool state operations).1 := by
  induction operations generalizing state with
  | nil => exact hstart
  | cons operation operations ih =>
      refine ih (fun other hmem => hkeep other (List.mem_cons_of_mem _ hmem)) ?_
      exact (operation.sends pool).run (hkeep operation List.mem_cons_self) fuel hstart state.2

/-! ## Keys of rows -/

/-- A key of an account suits the table of accounts, and a key of a lease that of leases. -/
def Pool.Suits (pool : Pool) (name : String) (key : Key) : Prop :=
  (name = pool.accounts.name ∧ key.sort = none) ∨ (name = pool.leases.name ∧ key.sort.isSome)

/-- The key of a record has a sort value if the table has a sort attribute. -/
theorem Table.sort_target {table : Table} {record : Record} {condition : Option Condition} {key : Key}
    (hkey : (Request.put table record condition).target? = some key) :
    key.sort.isSome = table.sort.isSome := by
  rw [Request.target?] at hkey
  cases hrecord : table.keyOf record with
  | error error =>
      rw [hrecord] at hkey
      cases hkey
  | ok found =>
      rw [hrecord] at hkey
      cases hkey
      exact Table.keyOf_sort hrecord

/-- Whatever an operation is about has a key that suits its table. -/
theorem Operation.Requests.suits {settings : PoolSettings} {operation : Operation} {request : Request}
    (h : operation.Requests (.ofSettings settings) request) {key : Key}
    (hkey : request.target? = some key) :
    (Pool.ofSettings settings).Suits request.table.name key := by
  cases h with
  | access access now =>
      cases access with
      | getAccount | editAccount | deleteAccount =>
          cases hkey
          exact .inl ⟨rfl, rfl⟩
      | putAccount account =>
          have hsort : key.sort.isSome = false := Table.sort_target hkey
          exact .inl ⟨rfl, by simpa using hsort⟩
      | getLease | moveLease | deleteLease =>
          cases hkey
          exact .inr ⟨rfl, rfl⟩
      | putLease lease => exact .inr ⟨rfl, Table.sort_target hkey⟩
  | reread access id =>
      cases hkey
      exact .inl ⟨rfl, rfl⟩
  | search => cases hkey

/-- Rows keep keys that suit their tables throughout every run of operations. -/
theorem Store.AddressedBy.after {backend : Backend} {settings : PoolSettings} {store : Store}
    (h : store.AddressedBy backend (Pool.ofSettings settings).Suits) (fuel : Store → Nat)
    (clock : Clock) (operations : List Operation) :
    (Operation.after backend fuel (.ofSettings settings) (store, clock) operations).1.AddressedBy backend
      (Pool.ofSettings settings).Suits := by
  have hkeep : ∀ operation ∈ operations, ∀ store request,
      operation.Requests (.ofSettings settings) request →
      store.AddressedBy backend (Pool.ofSettings settings).Suits →
      (backend.perform store request).2.AddressedBy backend (Pool.ofSettings settings).Suits :=
    fun operation _ store request hrequest hstore =>
      hstore.perform fun key hkey => hrequest.suits hkey
  exact Operation.after_invariant hkeep fuel h

/-- Every row that operations file has a key that suits its table. -/
theorem Operation.addressedBy_after (backend : Backend) (settings : PoolSettings)
    (fuel : Store → Nat) (clock : Clock) (operations : List Operation) :
    (Operation.after backend fuel (.ofSettings settings) ({}, clock) operations).1.AddressedBy backend
      (Pool.ofSettings settings).Suits :=
  Store.AddressedBy.after (Store.addressedBy_empty backend _) fuel clock operations

end AccountPool
