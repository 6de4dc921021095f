import AccountPool.Proofs.Pool.Simulation
import AccountPool.Proofs.Store.Legible

/-!
# Guarded updates touch what they name

The status and the policy hash of an account, its metadata, and the status of a lease are changed by one
guarded update of the store each. `guarded_update` says, for any records in the store, when an update is
made, what the record is then, and that nothing else changes. What the store gives afterwards is the record
as it is read back: in memory the record that was written, in a database one that may have other
floating-point numbers.
-/

namespace AccountPool

open Json (Value)
open Program (Result)

/-- A guarded update of an account or of the status of a lease. -/
inductive GuardedUpdate where
  | account (id : String) (edit : AccountEdit)
  | lease (accountId principalId : String) (previous next : LeaseStatus)

namespace GuardedUpdate

/-- What an update that is made gives. -/
abbrev Reply : GuardedUpdate → Type
  | account .. => Account
  | lease .. => Lease

instance : (update : GuardedUpdate) → Entity update.Reply
  | account .. => inferInstanceAs (Entity Account)
  | lease .. => inferInstanceAs (Entity Lease)

/-- The program of an update. -/
def program (pool : Pool) : (update : GuardedUpdate) → Program (Result update.Reply)
  | account id edit => edit.program pool id
  | lease accountId principalId previous next =>
      pool.changeLeaseStatus accountId principalId previous next

/-- The table with the record. -/
def table (pool : Pool) : GuardedUpdate → Table
  | account .. => pool.accounts
  | lease .. => pool.leases

/-- The key of the record. -/
def key : GuardedUpdate → Key
  | account id _ => Pool.accountKey id
  | lease accountId principalId _ _ => Pool.leaseKey accountId principalId

/-- The record may be updated: its status or its policy hash is the expected one. -/
def Expects : GuardedUpdate → Record → Prop
  | account _ (.status previous _), record =>
      record.get? Account.statusName = some (.string previous.name)
  | account _ (.policyHash previous _), record =>
      record.get? Account.policyHashName = previous.map .string
  | account _ (.metadata _), _ => True
  | lease _ _ previous _, record => record.get? Lease.statusName = some (.string previous.name)

/-- The attribute that is set, and its value. -/
def assigned : GuardedUpdate → String × Value
  | account _ (.status _ next) => (Account.statusName, .string next.name)
  | account _ (.policyHash _ next) => (Account.policyHashName, .string next)
  | account _ (.metadata members) => (Account.metadataName, .ofMembers members)
  | lease _ _ _ next => (Lease.statusName, .string next.name)

/-- The attributes that are set to the time of the update. -/
def stamps : GuardedUpdate → List String
  | account .. => [Account.lastModifiedOnName]
  | lease .. => [Lease.lastModifiedOnName, Lease.statusModifiedOnName]

/-- The record after the update at a time. -/
def edited (update : GuardedUpdate) (now : Int64) (record : Record) : Record :=
  record.assign (update.assigned :: update.stamps.map fun stamp => (stamp, .int64 now))

/-- The condition under which the update is made. -/
def guard : GuardedUpdate → Condition
  | account id edit => edit.guard id
  | lease accountId principalId previous next =>
      (Pool.leaseStatusChange accountId principalId previous next).guard

/-- Why an update is not made. -/
def refusal : GuardedUpdate → PoolError
  | account id edit => edit.refusal id
  | lease accountId principalId previous next =>
      .rejected (Pool.leaseStatusChange accountId principalId previous next).rejection

/-- The result of an update, from the answer of the store. -/
def settle (pool : Pool) (update : GuardedUpdate) : Except StoreError Record → Result update.Reply
  | .ok record => Pool.decode (update.table pool) record
  | .error (.conditionFailed _) => .error update.refusal
  | .error error => .error (.store error)

/-! ## The record -/

/-- No attribute is set twice. -/
theorem assigned_not_mem_stamps (update : GuardedUpdate) : update.assigned.1 ∉ update.stamps := by
  cases update with
  | account id edit => cases edit <;> simp +decide [assigned, stamps]
  | lease => simp +decide [assigned, stamps]

end GuardedUpdate

/-- Attributes that are stamped have the time, and the others are left alone. -/
theorem Record.get?_assign_stamps (record : Record) (stamps : List String) (now : Int64) (name : String) :
    (record.assign (stamps.map fun stamp => (stamp, .int64 now))).get? name =
      if name ∈ stamps then some (.int64 now) else record.get? name := by
  induction stamps generalizing record with
  | nil => rfl
  | cons stamp stamps ih =>
      rw [List.map_cons, assign_cons, ih]
      by_cases hrest : name ∈ stamps
      · rw [if_pos hrest, if_pos (List.mem_cons_of_mem _ hrest)]
      · rw [if_neg hrest]
        by_cases hname : name = stamp
        · rw [hname, get?_insert_self, if_pos List.mem_cons_self]
        · have hnot : name ∉ stamp :: stamps := by simp [hname, hrest]
          rw [get?_insert_of_ne _ hname, if_neg hnot]

namespace GuardedUpdate

/-- The attribute is set, the stamps have the time, and all other attributes keep their values. -/
theorem get?_edited (update : GuardedUpdate) (now : Int64) (record : Record) (name : String) :
    (update.edited now record).get? name =
      if name = update.assigned.1 then some update.assigned.2
      else if name ∈ update.stamps then some (.int64 now)
      else record.get? name := by
  show ((record.insert update.assigned.1 update.assigned.2).assign _).get? name = _
  rw [Record.get?_assign_stamps]
  by_cases hname : name = update.assigned.1
  · rw [if_pos hname, hname, if_neg update.assigned_not_mem_stamps, Record.get?_insert_self]
  · rw [if_neg hname, Record.get?_insert_of_ne _ hname]

/-- The guard holds for a record exactly if the record is as expected. -/
theorem evaluate_guard_some (update : GuardedUpdate) (record : Record) :
    update.guard.evaluate (some record) = true ↔ update.Expects record := by
  cases update with
  | account id edit =>
      cases edit with
      | status previous next =>
          exact (Pool.accountStatusChange id previous next).evaluate_guard_some record
      | policyHash previous next =>
          exact (Pool.policyHashChange id previous next).evaluate_guard_some record
      | metadata members => exact iff_of_true rfl trivial
  | lease accountId principalId previous next =>
      exact (Pool.leaseStatusChange accountId principalId previous next).evaluate_guard_some record

/-- The guard fails where there is no record. -/
theorem evaluate_guard_none (update : GuardedUpdate) : update.guard.evaluate none = false := by
  cases update with
  | account id edit => exact (edit.edit id 0).evaluate_none
  | lease accountId principalId previous next =>
      exact (Pool.leaseStatusChange accountId principalId previous next).evaluate_guard_none

/-! ## The update -/

/-- An update reads the clock and sends one request. -/
theorem program_eq (pool : Pool) (update : GuardedUpdate) :
    update.program pool = .clock fun now =>
      .call (.update (update.table pool) update.key
        (update.assigned :: update.stamps.map fun stamp => (stamp, .int64 now)) (some update.guard))
        fun answer => .done (update.settle pool answer) := by
  cases update with
  | account id edit =>
      cases edit with
      | status | policyHash | metadata =>
          refine congrArg Program.clock (funext fun now => ?_)
          refine congrArg (Program.call _) (funext fun answer => ?_)
          cases answer with
          | ok record => rfl
          | error error => cases error <;> rfl
  | lease =>
      refine congrArg Program.clock (funext fun now => ?_)
      refine congrArg (Program.call _) (funext fun answer => ?_)
      cases answer with
      | ok record => rfl
      | error error => cases error <;> rfl

/-- The settled answer of a store that fails is an error. -/
theorem exists_settle_error (pool : Pool) (update : GuardedUpdate) (error : StoreError) :
    ∃ failure, update.settle pool (.error error) = .error failure := by
  cases error <;> exact ⟨_, rfl⟩

variable {backend : Backend} {store : Store} {pool : Pool} {update : GuardedUpdate} {record : Record}

/-- An update of a record that is as expected writes the edited record and gives what is decoded from it. -/
theorem run_of_expects
    (hread : backend.read store (update.table pool) (backend.address update.key) = .ok (some record))
    (hexpects : update.Expects record) (fuel : Store → Nat) (time : Clock) :
    (update.program pool).run backend.perform fuel store time =
      (some (Pool.decode (update.table pool) (update.edited time.now record)),
        Backend.write store (update.table pool) (backend.address update.key)
          (update.edited time.now record), time.tick) := by
  have hallows : Condition.allows (some update.guard) (some record) = true :=
    (update.evaluate_guard_some record).2 hexpects
  have hperform := Backend.perform_update_of_read hread
    (update.assigned :: update.stamps.map fun stamp => (stamp, .int64 time.now)) (some update.guard)
  rw [if_pos hallows] at hperform
  rw [program_eq, Program.run]
  exact Program.run_call hperform fuel _ time.tick

/-- An update of a record that is absent, not as expected or not readable is answered by an error of the
store and changes nothing. -/
theorem exists_run_error
    (hrefused : ∀ record, backend.read store (update.table pool) (backend.address update.key) =
      .ok (some record) → ¬ update.Expects record) (fuel : Store → Nat) (time : Clock) :
    ∃ error, (update.program pool).run backend.perform fuel store time =
      (some (update.settle pool (.error error)), store, time.tick) := by
  have hfails : ∃ error, backend.perform store (.update (update.table pool) update.key
      (update.assigned :: update.stamps.map fun stamp => (stamp, .int64 time.now))
        (some update.guard)) = (.error error, store) := by
    cases hread : backend.read store (update.table pool) (backend.address update.key) with
    | error error => exact ⟨error, Backend.perform_update_of_read_error hread _ _⟩
    | ok current =>
        have hdenies : ¬ Condition.allows (some update.guard) current = true := by
          cases current with
          | none => simp [Condition.allows, update.evaluate_guard_none]
          | some record =>
              exact fun hallows => hrefused record hread ((update.evaluate_guard_some record).1 hallows)
        rw [Backend.perform_update_of_read hread, if_neg hdenies]
        exact ⟨_, rfl⟩
  obtain ⟨error, hperform⟩ := hfails
  refine ⟨error, ?_⟩
  rw [program_eq, Program.run, Program.run_call hperform, Program.run]

/-- An update of a record that is absent, not as expected or not readable fails and changes nothing. -/
theorem run_of_not_expects
    (hrefused : ∀ record, backend.read store (update.table pool) (backend.address update.key) =
      .ok (some record) → ¬ update.Expects record) (fuel : Store → Nat) (time : Clock) :
    ∃ failure, (update.program pool).run backend.perform fuel store time =
      (some (.error failure), store, time.tick) := by
  obtain ⟨error, hrun⟩ := exists_run_error hrefused fuel time
  obtain ⟨failure, hsettle⟩ := exists_settle_error pool update error
  exact ⟨failure, by rw [hrun, hsettle]⟩

/-- An update writes the edited record if there is one that is as expected. Otherwise it is answered by an
error of the store. -/
theorem run_cases (backend : Backend) (pool : Pool) (update : GuardedUpdate) (fuel : Store → Nat)
    (store : Store) (time : Clock) :
    (∃ record, backend.read store (update.table pool) (backend.address update.key) = .ok (some record) ∧
      update.Expects record ∧ (update.program pool).run backend.perform fuel store time =
        (some (Pool.decode (update.table pool) (update.edited time.now record)),
          Backend.write store (update.table pool) (backend.address update.key)
            (update.edited time.now record), time.tick)) ∨
    (∀ record, backend.read store (update.table pool) (backend.address update.key) = .ok (some record) →
      ¬ update.Expects record) ∧ ∃ error, (update.program pool).run backend.perform fuel store time =
        (some (update.settle pool (.error error)), store, time.tick) := by
  by_cases hmade : ∃ record, backend.read store (update.table pool) (backend.address update.key) =
      .ok (some record) ∧ update.Expects record
  · obtain ⟨record, hread, hexpects⟩ := hmade
    exact .inl ⟨record, hread, hexpects, run_of_expects hread hexpects fuel time⟩
  · have hrefused : ∀ record, backend.read store (update.table pool) (backend.address update.key) =
        .ok (some record) → ¬ update.Expects record :=
      fun record hread hexpects => hmade ⟨record, hread, hexpects⟩
    exact .inr ⟨hrefused, exists_run_error hrefused fuel time⟩

/-- The edited record of one that a database has read is legible, if the value that is set can be read. -/
theorem legible_edited (hread : Backend.database.read store (update.table pool)
      (Backend.columns update.key) = .ok (some record))
    (hsound : update.assigned.2.Sound) (hdepth : update.assigned.2.depth < Json.Reader.maxDepth)
    (now : Int64) : (update.edited now record).Legible := by
  obtain ⟨held, -, hheld⟩ := Backend.exists_of_read hread
  have hlegible : record.Legible := Record.legible_of_ofText hheld
  refine hlegible.assign fun assignment hmem => ?_
  obtain rfl | hstamp := List.mem_cons.1 hmem
  · exact ⟨hsound, hdepth⟩
  · obtain ⟨stamp, -, rfl⟩ := List.mem_map.1 hstamp
    exact ⟨rfl, Nat.zero_lt_succ _⟩

end GuardedUpdate

namespace Backend

/-- What is written in memory is read as it is. -/
theorem read_write_memory (store : Store) (table : Table) (row : Key) (record : Record) :
    memory.read (write store table row record) table row = .ok (some record) := by
  rw [read_eq (Store.readsBack_memory _), find?_write, if_pos ⟨rfl, rfl⟩]

/-- What is written in a database is read as it is seen. -/
theorem read_write_database {record : Record} (hlegible : record.Legible) (store : Store) (table : Table)
    (row : Key) : database.read (write store table row record) table row = .ok (some record.seen) := by
  have hself : ((write store table row record).rows table.name).find? row = some record := by
    rw [find?_write, if_pos ⟨rfl, rfl⟩]
  have hreread : database.reread record = .ok record.seen := hlegible.ofText.1
  simp only [read, hself, hreread]
  rfl

end Backend

/-- A guarded update is made exactly if the record can be read and is as expected. Then the record has the
new value in the one attribute, the time in the attributes that are stamped and in all others what it had,
no other row changes, and what the update gives is decoded from the record. From then on the record is given
as it is read back: in memory as it was written, in a database up to floating-point numbers, unless the
metadata that was set is nested too deep. An update that is not made fails and changes nothing. The clock is
read once in any case. -/
theorem guarded_update (backend : Backend) (settings : PoolSettings) (update : GuardedUpdate)
    (fuel : Store → Nat) (store : Store) (time : Clock) :
    let pool := Pool.ofSettings settings
    let table := update.table pool
    let row := backend.address update.key
    let run := (update.program pool).run backend.perform fuel store time
    (∀ record, backend.read store table row = .ok (some record) → update.Expects record →
      let edited := update.edited time.now record
      run.1 = some (Pool.decode table edited) ∧
      (∀ name, edited.get? name =
        if name = update.assigned.1 then some update.assigned.2
        else if name ∈ update.stamps then some (.int64 time.now)
        else record.get? name) ∧
      (∀ name other, (run.2.1.rows name).find? other =
        if name = table.name ∧ other = row then some edited else (store.rows name).find? other) ∧
      (backend = .memory → backend.get run.2.1 table update.key = .ok (some edited)) ∧
      (backend = .database → update.assigned.2.Sound →
        update.assigned.2.depth < Json.Reader.maxDepth →
        ∃ seen, backend.get run.2.1 table update.key = .ok (some seen) ∧
          ∀ name, (seen.get? name).map Value.outline = (edited.get? name).map Value.outline)) ∧
    ((∀ record, backend.read store table row = .ok (some record) → ¬ update.Expects record) →
      (∃ failure, run.1 = some (.error failure)) ∧ run.2.1 = store) ∧
    run.2.2 = time.tick := by
  intro pool table row run
  by_cases hmade : ∃ record, backend.read store table row = .ok (some record) ∧ update.Expects record
  · obtain ⟨record, hread, hexpects⟩ := hmade
    have hrun : run = _ := GuardedUpdate.run_of_expects hread hexpects fuel time
    refine ⟨fun found hfound _ => ?_, fun hrefused => absurd hexpects (hrefused record hread), ?_⟩
    · obtain rfl : record = found := by
        rw [hread] at hfound
        exact Option.some.inj (Except.ok.inj hfound)
      refine ⟨by rw [hrun], update.get?_edited time.now record, fun name other => ?_, ?_, ?_⟩
      · rw [hrun, Backend.find?_write]
      · rintro rfl
        rw [hrun]
        exact Backend.read_write_memory store table row _
      · rintro rfl hsound hdepth
        have hlegible := GuardedUpdate.legible_edited hread hsound hdepth time.now
        rw [hrun]
        exact ⟨_, Backend.read_write_database hlegible store table row, hlegible.get?_outline⟩
    · rw [hrun]
  · have hrefused : ∀ record, backend.read store table row = .ok (some record) →
        ¬ update.Expects record :=
      fun record hread hexpects => hmade ⟨record, hread, hexpects⟩
    obtain ⟨failure, hrun⟩ := GuardedUpdate.run_of_not_expects hrefused fuel time
    have hrun : run = _ := hrun
    refine ⟨fun record hread hexpects => absurd hexpects (hrefused record hread), fun _ => ?_, ?_⟩
    · rw [hrun]
      exact ⟨⟨failure, rfl⟩, rfl⟩
    · rw [hrun]

/-- An account with an attribute of its own is leased in memory. -/
theorem guarded_update_leased :
    let settings : PoolSettings := {}
    let table := Pool.accountTable settings.accountTable
    let update := GuardedUpdate.account "1" (.status .ready .leased)
    let record := ((Record.empty.insert Account.idName (.string "1")).insert Account.statusName
      (.string AccountStatus.ready.name)).insert "Owner" .null
    let store := Backend.write {} table update.key record
    let run := (update.program (.ofSettings settings)).run Backend.memory.perform Store.size store ⟨7, 1⟩
    Backend.memory.read store table update.key = .ok (some record) ∧ update.Expects record ∧
      Backend.memory.get run.2.1 table update.key = .ok (some (update.edited 7 record)) ∧
      (update.edited 7 record).get? "Owner" = some .null := by
  intro settings table update record store run
  have hread : Backend.memory.read store table update.key = .ok (some record) :=
    Backend.read_write_memory {} table update.key record
  have hexpects : update.Expects record := by
    show record.get? Account.statusName = _
    rw [Record.get?_insert_of_ne _ (by decide), Record.get?_insert_self]
  obtain ⟨hmade, -, -⟩ := guarded_update .memory settings update Store.size store ⟨7, 1⟩
  obtain ⟨-, hedited, -, hget, -⟩ := hmade record hread hexpects
  refine ⟨hread, hexpects, hget rfl, ?_⟩
  rw [hedited, if_neg (by decide), if_neg (by decide), Record.get?_insert_self]

/-- A number in the metadata of an account changes when the account is leased, if a database has the
account: the number that is read from its text has another text. -/
theorem metadata_drifts :
    let pool := Pool.ofSettings {}
    let run {α : Type} (program : Program α) (store : Store) :=
      program.run Backend.database.perform Store.size store ⟨7, 1⟩
    let metadata := SortedMap.insert {} "x" (.number (.binary ⟨0x39b4484bfeebc29f⟩))
    let stored := (run (pool.putAccount { id := "1", status := .ready, metadata }) {}).2.1
    let moved := run (pool.changeAccountStatus "1" .ready .leased) stored
    let text : Result Account → Option String
      | .ok account => some (Value.ofMembers account.metadata).compact
      | .error _ => none
    let shown (store : Store) : Option String :=
      match (run (pool.getAccount "1") store).1 with
      | some (.ok (some account)) => text (.ok account)
      | _ => none
    shown stored = some "\x7b\"x\":1e-30\x7d" ∧
      moved.1.bind text = some "\x7b\"x\":1e-30\x7d" ∧
      shown moved.2.1 = some "\x7b\"x\":9.999999999999999e-31\x7d" := by
  decide +kernel

end AccountPool
