import AccountPool.Proofs.Pool.Guarded
import AccountPool.Proofs.Pool.Requests
import AccountPool.Proofs.Pool.Shows

/-!
# The row of a lease

What an operation makes of a lease is told by the lease, the operation and the time:
`Operation.leaseAfter`. In memory and in a database every run of operations leaves a readable lease or
nothing under every label, and every operation makes of it what it should, whatever becomes of the operation
otherwise: `Store.HoldsLease.run`. The accounts need not be readable for this. The main statement is
`status_stamp_moves_with_status`: unless the lease is replaced or removed, the timestamp of its status moves
only when the status changes or is set to what it was.
-/

namespace AccountPool

open Program (Result)

/-! ## What becomes of a lease -/

/-- The lease after a transition that is refused in all statuses but one. -/
def Lease.movedFrom (now : Int64) (previous next : LeaseStatus) (lease : Lease) : Lease :=
  if lease.status = previous then lease.moved now next else lease

namespace Operation

/-- What an operation at a given time makes of what is under the label of a lease. -/
def leaseAfter (label : String × String) (now : Int64) : Operation → Option Lease → Option Lease
  | one (.putLease lease), held => if Filed.label lease = label then some lease else held
  | one (.moveLease accountId principalId previous next), held =>
      if (accountId, principalId) = label then held.map (Lease.movedFrom now previous next) else held
  | one (.deleteLease accountId principalId), held =>
      if (accountId, principalId) = label then none else held
  | one _, held | many _, held => held

/-- The label of the lease that an operation replaces or removes. -/
def replaced? : Operation → Option (String × String)
  | one (.putLease lease) => some (Filed.label lease)
  | one (.deleteLease accountId principalId) => some (accountId, principalId)
  | one _ | many _ => none

/-- The label of the lease that an operation may change. -/
def leaseLabel? : Operation → Option (String × String)
  | one (.moveLease accountId principalId _ _) => some (accountId, principalId)
  | operation => operation.replaced?

variable {label : String × String} {now : Int64} {operation : Operation}

/-- An operation that is about another lease, or none, keeps what is held. -/
theorem leaseAfter_of_ne (h : operation.leaseLabel? ≠ some label) (held : Option Lease) :
    operation.leaseAfter label now held = held := by
  cases operation with
  | many search => rfl
  | one access =>
      cases access with
      | getAccount | putAccount | editAccount | deleteAccount | getLease => rfl
      | putLease | moveLease | deleteLease => exact if_neg fun hsame => h (congrArg some hsame)

/-- An operation that does not replace or remove the lease keeps it, or moves it from its status. -/
theorem leaseAfter_some (h : operation.replaced? ≠ some label) (now : Int64) (lease : Lease) :
    operation.leaseAfter label now (some lease) = some lease ∨
      ∃ next, operation = .one (.moveLease label.1 label.2 lease.status next) ∧
        operation.leaseAfter label now (some lease) = some (lease.moved now next) := by
  by_cases hlabel : operation.leaseLabel? = some label
  · cases operation with
    | many search => cases hlabel
    | one access =>
        cases access with
        | getAccount | putAccount | editAccount | deleteAccount | getLease => cases hlabel
        | putLease | deleteLease => exact absurd hlabel h
        | moveLease accountId principalId previous next =>
            cases hlabel
            rw [leaseAfter, if_pos rfl, Option.map_some, Lease.movedFrom]
            split
            · next hstatus => exact .inr ⟨next, by rw [hstatus], rfl⟩
            · exact .inl rfl
  · exact .inl (leaseAfter_of_ne hlabel _)

/-- An operation that does not replace or remove a lease changes the timestamp of its status together with
the status, unless it moves the lease from its status to this same status. -/
theorem stamp_leaseAfter (h : operation.replaced? ≠ some label) {lease changed : Lease}
    (hchanged : operation.leaseAfter label now (some lease) = some changed)
    (hstamp : changed.statusModifiedOn ≠ lease.statusModifiedOn) :
    changed.status ≠ lease.status ∨
      operation = .one (.moveLease label.1 label.2 lease.status lease.status) := by
  obtain hkept | ⟨next, hmove, hmoved⟩ := leaseAfter_some h now lease
  · obtain rfl : lease = changed := Option.some.inj (hkept.symm.trans hchanged)
    exact absurd rfl hstamp
  · obtain rfl : lease.moved now next = changed := Option.some.inj (hmoved.symm.trans hchanged)
    by_cases hstatus : next = lease.status
    · exact .inr (by rw [hmove, hstatus])
    · exact .inl hstatus

end Operation

/-! ## Rows -/

/-- A legible record of a lease, or neither a record nor a lease. -/
def Lease.Held : Option Record → Option Lease → Prop :=
  Option.Rel fun record lease => record.Legible ∧ record.Carries lease

/-- A record is held with the lease that it carries. -/
theorem Lease.Held.exists_eq_some {record : Record} {held : Option Lease} (h : Held (some record) held) :
    ∃ lease, held = some lease ∧ record.Legible ∧ record.Carries lease := by
  cases h with
  | some hlease => exact ⟨_, rfl, hlease⟩

/-- A table holds a lease under a label, or nothing. -/
def Store.HoldsLease (backend : Backend) (store : Store) (name : String) (label : String × String)
    (held : Option Lease) : Prop :=
  Lease.Held ((store.rows name).find? (backend.row Lease label)) held

/-- Whatever is read from a legible record of a lease is a legible record of this lease. -/
def Backend.ReadsLeases (backend : Backend) : Prop :=
  ∀ {record : Record} {lease : Lease}, record.Legible → record.Carries lease →
    ∃ read, backend.reread record = .ok read ∧ read.Legible ∧ read.Carries lease

/-- In memory records are read as they are. -/
theorem Backend.readsLeases_memory : memory.ReadsLeases :=
  fun hlegible hcarries => ⟨_, rfl, hlegible, hcarries⟩

/-- A database sees leases as they are. -/
theorem Backend.readsLeases_database : database.ReadsLeases :=
  fun hlegible hcarries => ⟨_, hlegible.ofText.1, hlegible.seen, hlegible.carries_lease hcarries⟩

namespace Store.HoldsLease

variable {backend : Backend} {store : Store} {name : String} {label : String × String}
  {held : Option Lease}

/-- An empty store holds no lease. -/
theorem empty (backend : Backend) (name : String) (label : String × String) :
    HoldsLease backend {} name label none := by
  rw [HoldsLease, rows_empty]
  exact .none

/-- What is held under a label depends on one row only. -/
theorem congr (h : store.HoldsLease backend name label held) {next : Store}
    (hrow : (next.rows name).find? (backend.row Lease label) =
      (store.rows name).find? (backend.row Lease label)) :
    next.HoldsLease backend name label held := by
  rw [HoldsLease, hrow]
  exact h

/-- After a legible record was written the lease that it carries is held. -/
theorem write {record : Record} {lease : Lease} (hlegible : record.Legible)
    (hcarries : record.Carries lease) (store : Store) :
    (Backend.write store (Pool.leaseTable name) (backend.row Lease label) record).HoldsLease backend name
      label (some lease) := by
  rw [HoldsLease, Backend.find?_write, if_pos ⟨rfl, rfl⟩]
  exact .some ⟨hlegible, hcarries⟩

/-- After a row was removed nothing is held. -/
theorem remove (store : Store) :
    (Backend.remove store (Pool.leaseTable name) (backend.row Lease label)).HoldsLease backend name label
      none := by
  rw [HoldsLease, Backend.find?_remove, if_pos ⟨rfl, rfl⟩]
  exact .none

/-- A lease that is held is read. -/
theorem exists_read (h : store.HoldsLease backend name label held) (hreads : backend.ReadsLeases) :
    ∃ current, backend.read store (Pool.leaseTable name) (backend.row Lease label) = .ok current ∧
      Lease.Held current held := by
  have hrow : Lease.Held ((store.rows (Pool.leaseTable name).name).find? (backend.row Lease label)) held :=
    h
  unfold Backend.read
  cases hfind : (store.rows (Pool.leaseTable name).name).find? (backend.row Lease label) with
  | none =>
      rw [hfind] at hrow
      exact ⟨none, rfl, hrow⟩
  | some record =>
      rw [hfind] at hrow
      obtain ⟨lease, rfl, hlegible, hcarries⟩ := hrow.exists_eq_some
      obtain ⟨read, hread, hlease⟩ := hreads hlegible hcarries
      refine ⟨some read, ?_, .some hlease⟩
      simp only [hread]
      rfl

/-- A record that is read is one of the lease that is held. -/
theorem exists_eq_some (h : store.HoldsLease backend name label held) (hreads : backend.ReadsLeases)
    {record : Record}
    (hread : backend.read store (Pool.leaseTable name) (backend.row Lease label) = .ok (some record)) :
    ∃ lease, held = some lease ∧ record.Legible ∧ record.Carries lease := by
  obtain ⟨current, hcurrent, hheld⟩ := h.exists_read hreads
  obtain rfl : current = some record := Except.ok.inj (hcurrent.symm.trans hread)
  exact hheld.exists_eq_some

/-- A look-up gives what is held under the label. -/
theorem run_getLease {settings : PoolSettings}
    (h : store.HoldsLease backend settings.leaseTable label held) (hreads : backend.ReadsLeases)
    (fuel : Store → Nat) (time : Clock) :
    ((Pool.ofSettings settings).getLease label.1 label.2).run backend.perform fuel store time =
      (some (.ok held), store, time) := by
  obtain ⟨current, hread, hheld⟩ := h.exists_read hreads
  have hperform : backend.perform store
      (.get (Pool.ofSettings settings).leases (Pool.leaseKey label.1 label.2)) = (.ok current, store) :=
    congrArg (·, store) hread
  refine (Program.run_call hperform fuel _ time).trans ?_
  cases hheld with
  | none => rfl
  | some hlease =>
      show (some (Pool.lift (.ok _) fun record => Pool.decode? _ record), store, time) = _
      rw [Pool.lift, Pool.decode?, hlease.2.decode]
      rfl

end Store.HoldsLease

/-! ## Operations -/

section Operations

variable {backend : Backend} {settings : PoolSettings} {store : Store} {label : String × String}
  {held : Option Lease}

/-- A request of an operation leaves the row of a lease alone that is not its own. -/
theorem Operation.Requests.find?_lease {operation : Operation} {request : Request}
    (h : operation.Requests (.ofSettings settings) request) (hbackend : backend.Provided)
    (hnames : settings.accountTable ≠ settings.leaseTable) (hlabel : operation.leaseLabel? ≠ some label)
    (store : Store) :
    ((backend.perform store request).2.rows settings.leaseTable).find? (backend.row Lease label) =
      (store.rows settings.leaseTable).find? (backend.row Lease label) := by
  have hother {found : String × String} {request : Request} (hne : some found ≠ some label)
      (htarget : ∀ key, request.target? = some key → key = Pool.leaseKey found.1 found.2) :
      ((backend.perform store request).2.rows settings.leaseTable).find? (backend.row Lease label) =
        (store.rows settings.leaseTable).find? (backend.row Lease label) := by
    refine Backend.find?_perform_of_not ?_
    rintro ⟨-, key, hkey, hrow⟩
    rw [htarget key hkey] at hrow
    exact hne (congrArg some ((Backend.row_inj (α := Lease) hbackend).1 hrow))
  cases h with
  | access access now =>
      cases access with
      | getAccount | putAccount | editAccount | deleteAccount =>
          exact Backend.find?_perform_of_not fun haddresses => hnames haddresses.1
      | getLease => rfl
      | putLease lease =>
          have hown := Pool.keyOf_lease (Record.carries_ofEntity lease) settings.leaseTable
          refine hother hlabel fun key hkey => Option.some.inj (hkey.symm.trans ?_)
          exact congrArg Except.toOption hown
      | moveLease | deleteLease => exact hother hlabel fun key hkey => (Option.some.inj hkey).symm
  | reread => rfl
  | search => rfl

/-- The record that is read of a lease is as a transition expects it exactly if the lease is in the former
status. -/
theorem Lease.expects_iff {record : Record} {lease : Lease} (h : record.Carries lease)
    (accountId principalId : String) (previous next : LeaseStatus) :
    (GuardedUpdate.lease accountId principalId previous next).Expects record ↔
      lease.status = previous := by
  rw [← GuardedUpdate.evaluate_guard_some]
  exact (Bool.eq_iff_iff.1 (Lease.evaluate_statusGuard accountId principalId previous next h)).trans
    decide_eq_true_iff

namespace Store.HoldsLease

/-- A transition moves the lease if it is in the former status, and keeps what is held otherwise. -/
theorem move (h : store.HoldsLease backend settings.leaseTable label held)
    (hreads : backend.ReadsLeases) (previous next : LeaseStatus) (fuel : Store → Nat) (time : Clock) :
    (((Pool.ofSettings settings).changeLeaseStatus label.1 label.2 previous next).run
      backend.perform fuel store time).2.1.HoldsLease backend settings.leaseTable label
        (held.map (Lease.movedFrom time.now previous next)) := by
  let pool := Pool.ofSettings settings
  let update := GuardedUpdate.lease label.1 label.2 previous next
  let run := (update.program pool).run backend.perform fuel store time
  show run.2.1.HoldsLease backend settings.leaseTable label _
  obtain ⟨record, hread, hexpects, hrun⟩ | ⟨hrefused, error, hrun⟩ :=
    update.run_cases backend pool fuel store time
  · have hrun : run = _ := hrun
    obtain ⟨lease, rfl, hlegible, hcarries⟩ := h.exists_eq_some hreads hread
    have hstatus : lease.status = previous := (Lease.expects_iff hcarries ..).1 hexpects
    have hwritten : (update.edited time.now record).Legible :=
      hlegible.assign
        ((Pool.leaseStatusChange label.1 label.2 previous next).legible_assignments time.now)
    have hmoved : (update.edited time.now record).Carries (lease.moved time.now next) :=
      Lease.carries_moved label.1 label.2 previous next time.now hcarries
    rw [hrun, Option.map_some, Lease.movedFrom, if_pos hstatus]
    exact write hwritten hmoved store
  · have hrun : run = _ := hrun
    obtain ⟨current, hread, hheld⟩ := h.exists_read hreads
    -- A transition that is refused would not have moved the lease, since it was read as it is held.
    have hkept : held.map (Lease.movedFrom time.now previous next) = held := by
      cases hheld with
      | none => rfl
      | some hlease =>
          have hstatus := mt (Lease.expects_iff hlease.2 label.1 label.2 previous next).2
            (hrefused _ hread)
          rw [Option.map_some, Lease.movedFrom, if_neg hstatus]
    rw [hrun, hkept]
    exact h

/-- A lease that is filed is held. -/
theorem put {lease : Lease}
    (h : store.HoldsLease backend settings.leaseTable (Filed.label lease) held)
    (hreads : backend.ReadsLeases) (fuel : Store → Nat) (time : Clock) :
    (((Pool.ofSettings settings).putLease lease).run backend.perform fuel store time).2.1.HoldsLease
      backend settings.leaseTable (Filed.label lease) (some lease) := by
  obtain ⟨current, hread, -⟩ := h.exists_read hreads
  have hkey := Filed.keyOf_table (Record.carries_ofEntity lease) settings.leaseTable
  have hrun : ((Pool.ofSettings settings).putLease lease).run backend.perform fuel store time = _ :=
    Program.run_call (Backend.perform_put_of_read hkey hread none) fuel _ time
  rw [hrun]
  exact write lease.legible_ofEntity (Record.carries_ofEntity lease) store

/-- A lease that was removed is no longer held. -/
theorem delete (h : store.HoldsLease backend settings.leaseTable label held)
    (hreads : backend.ReadsLeases) (fuel : Store → Nat) (time : Clock) :
    (((Pool.ofSettings settings).deleteLease label.1 label.2).run backend.perform fuel store
      time).2.1.HoldsLease backend settings.leaseTable label none := by
  obtain ⟨current, hread, -⟩ := h.exists_read hreads
  have hrun : ((Pool.ofSettings settings).deleteLease label.1 label.2).run backend.perform fuel store
      time = _ := Program.run_call (Backend.perform_delete_of_read hread none) fuel _ time
  rw [hrun]
  exact remove store

/-- Every operation makes of what is held under a label what it should. -/
theorem run (h : store.HoldsLease backend settings.leaseTable label held)
    (hbackend : backend.Provided) (hreads : backend.ReadsLeases)
    (hnames : settings.accountTable ≠ settings.leaseTable) (operation : Operation) (fuel : Store → Nat)
    (time : Clock) :
    ((operation.program (.ofSettings settings)).run backend.perform fuel store time).2.1.HoldsLease
      backend settings.leaseTable label (operation.leaseAfter label time.now held) := by
  by_cases hlabel : operation.leaseLabel? = some label
  · cases operation with
    | many search => cases hlabel
    | one access =>
        cases access with
        | getAccount | putAccount | editAccount | deleteAccount | getLease => cases hlabel
        | putLease lease =>
            cases hlabel
            rw [Operation.leaseAfter, if_pos rfl]
            exact h.put hreads fuel time
        | moveLease accountId principalId previous next =>
            cases hlabel
            rw [Operation.leaseAfter, if_pos rfl]
            exact h.move hreads previous next fuel time
        | deleteLease accountId principalId =>
            cases hlabel
            rw [Operation.leaseAfter, if_pos rfl]
            exact h.delete hreads fuel time
  · -- Accounts may be unreadable here, so all that is known of the requests is which rows they are about.
    have hkeep (store : Store) (request : Request)
        (hrequest : operation.Requests (.ofSettings settings) request)
        (hstore : store.HoldsLease backend settings.leaseTable label held) :
        (backend.perform store request).2.HoldsLease backend settings.leaseTable label held :=
      hstore.congr (hrequest.find?_lease hbackend hnames hlabel store)
    rw [Operation.leaseAfter_of_ne hlabel]
    exact (operation.sends (.ofSettings settings)).run hkeep fuel h time

end Store.HoldsLease

/-- Every run of operations leaves a readable lease or nothing under every label. -/
theorem Operation.exists_holdsLease_after (hbackend : backend.Provided) (hreads : backend.ReadsLeases)
    (hnames : settings.accountTable ≠ settings.leaseTable) (fuel : Store → Nat) (clock : Clock)
    (operations : List Operation) (label : String × String) :
    ∃ held, (Operation.after backend fuel (.ofSettings settings) ({}, clock)
      operations).1.HoldsLease backend settings.leaseTable label held := by
  suffices hrun : ∀ (state : Store × Clock) (held : Option Lease),
      state.1.HoldsLease backend settings.leaseTable label held →
      ∃ next, (Operation.after backend fuel (.ofSettings settings) state
        operations).1.HoldsLease backend settings.leaseTable label next from
    hrun ({}, clock) none (.empty backend settings.leaseTable label)
  induction operations with
  | nil => exact fun state held hheld => ⟨held, hheld⟩
  | cons operation operations ih =>
      exact fun state held hheld => ih _ _ (hheld.run hbackend hreads hnames operation fuel state.2)

end Operations

/-- In every state that operations reach, an operation makes of a lease what is told by the lease and the
time, even if accounts cannot be read. So if it does not replace or remove the lease and the timestamp of the
status is another one afterwards, the status is another one as well, or the operation moves the lease from
its status to this same status. -/
theorem status_stamp_moves_with_status {backend : Backend}
    (hbackend : backend = .memory ∨ backend = .database) (settings : PoolSettings)
    (hnames : settings.accountTable ≠ settings.leaseTable) (fuel : Store → Nat) (clock : Clock)
    (operations : List Operation) (operation : Operation) (accountId principalId : String)
    (hkept : operation.replaced? ≠ some (accountId, principalId)) :
    let pool := Pool.ofSettings settings
    let state := Operation.after backend fuel pool ({}, clock) operations
    let next := Operation.after backend fuel pool state [operation]
    let shown (state : Store × Clock) :=
      ((pool.getLease accountId principalId).run backend.perform fuel state.1 state.2).1
    ∃ before after : Option Lease,
      shown state = some (.ok before) ∧ shown next = some (.ok after) ∧
      after = operation.leaseAfter (accountId, principalId) state.2.now before ∧
      ∀ lease ∈ before, ∀ changed ∈ after, changed.statusModifiedOn ≠ lease.statusModifiedOn →
        changed.status ≠ lease.status ∨
          operation = .one (.moveLease accountId principalId lease.status lease.status) := by
  intro pool state next shown
  obtain ⟨hprovided, hreads⟩ : backend.Provided ∧ backend.ReadsLeases := by
    obtain rfl | rfl := hbackend
    · exact ⟨.memory, Backend.readsLeases_memory⟩
    · exact ⟨.database _ _, Backend.readsLeases_database⟩
  obtain ⟨before, hbefore⟩ := Operation.exists_holdsLease_after hprovided hreads hnames fuel clock
    operations (accountId, principalId)
  have hafter := hbefore.run hprovided hreads hnames operation fuel state.2
  refine ⟨before, _, congrArg Prod.fst (hbefore.run_getLease hreads fuel state.2),
    congrArg Prod.fst (hafter.run_getLease hreads fuel next.2), rfl, ?_⟩
  rintro lease rfl changed hchanged hstamp
  exact Operation.stamp_leaseAfter hkept hchanged hstamp

/-- A lease in memory is locked, so its status moves with the timestamp of the status. -/
theorem status_stamp_moves_locked :
    let settings : PoolSettings := {}
    let operation : Operation := .one (.moveLease "1" "p" .active .resetLock)
    let state := Operation.after .memory Store.size (.ofSettings settings) ({}, ⟨1000, 1⟩)
      [.one (.putLease { accountId := "1", principalId := "p", status := .active })]
    let next := Operation.after .memory Store.size (.ofSettings settings) state [operation]
    let shown (state : Store × Clock) :=
      (((Pool.ofSettings settings).getLease "1" "p").run Backend.memory.perform Store.size state.1
        state.2).1
    settings.accountTable ≠ settings.leaseTable ∧ operation.replaced? ≠ some ("1", "p") ∧
      ∃ before after : Lease, shown state = some (.ok (some before)) ∧
        shown next = some (.ok (some after)) ∧ before.statusModifiedOn = 0 ∧
        after.statusModifiedOn = 1000 ∧ after.status ≠ before.status := by
  intro settings operation state next shown
  have hnames : settings.accountTable ≠ settings.leaseTable := by decide
  have hkept : operation.replaced? ≠ some ("1", "p") := by decide
  obtain ⟨before, after, hbefore, hafter, -, hmoves⟩ := status_stamp_moves_with_status (.inl rfl) settings
    hnames Store.size ⟨1000, 1⟩ _ operation "1" "p" hkept
  have hstart : ((shown state).bind Except.toOption).join.map Lease.statusModifiedOn = some 0 := by
    decide +kernel
  have hend : ((shown next).bind Except.toOption).join.map Lease.statusModifiedOn = some 1000 := by
    decide +kernel
  rw [show shown state = _ from hbefore] at hstart
  rw [show shown next = _ from hafter] at hend
  obtain ⟨lease, hlease, hstamp⟩ := Option.map_eq_some_iff.1 hstart
  obtain ⟨changed, hchanged, hstamp'⟩ := Option.map_eq_some_iff.1 hend
  obtain rfl : before = some lease := hlease
  obtain rfl : after = some changed := hchanged
  refine ⟨hnames, hkept, lease, changed, hbefore, hafter, hstamp, hstamp', ?_⟩
  have hmoved : changed.statusModifiedOn ≠ lease.statusModifiedOn := by
    rw [hstamp, hstamp']
    decide
  refine (hmoves lease rfl changed rfl hmoved).resolve_right fun hsame => ?_
  obtain ⟨-, -, hactive, hlocked⟩ := Access.moveLease.inj (Operation.one.inj hsame)
  exact absurd (hactive.trans hlocked.symm) (by decide)

/-- In memory and in a database, moving an active lease to being active keeps its status and moves the
timestamp of its status. -/
theorem status_stamp_moves_alone :
    let settings : PoolSettings := {}
    let pool := Pool.ofSettings settings
    let operation : Operation := .one (.moveLease "1" "p" .active .active)
    let shown (backend : Backend) (operations : List Operation) : Option (LeaseStatus × Int64) :=
      let state := Operation.after backend Store.size pool ({}, ⟨1000, 1⟩) operations
      let found := ((pool.getLease "1" "p").run backend.perform Store.size state.1 state.2).1
      (found.bind Except.toOption).join.map fun lease => (lease.status, lease.statusModifiedOn)
    let filed : Operation := .one (.putLease
      { accountId := "1", principalId := "p", status := .active, statusModifiedOn := 1 })
    settings.accountTable ≠ settings.leaseTable ∧ operation.replaced? ≠ some ("1", "p") ∧
      ∀ backend ∈ [Backend.memory, Backend.database],
        shown backend [filed] = some (.active, 1) ∧
          shown backend [filed, operation] = some (.active, 1000) := by
  intro settings pool operation shown filed
  exact ⟨by decide, by decide, by decide +kernel⟩

end AccountPool
