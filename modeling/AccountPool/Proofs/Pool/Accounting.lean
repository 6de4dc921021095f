import AccountPool.Proofs.Entity.Format
import AccountPool.Proofs.Pool.Failure
import AccountPool.Proofs.Pool.Guarded

/-!
# Readings of a shared clock

Connections that share a clock take turns, each on a store of its own or on one that it shares. Only the
guarded updates read the clock, once each, so the reading that a call uses follows from the number of such
calls before it: `World.clock_through`. What an update that is made writes and gives is stamped with this
reading, and an update that is refused writes nothing: `Connection.settled`. The main statement is
`clock_accounting`, by which the stamps of accepted calls increase as long as no reading wraps.
-/

namespace AccountPool

open Json (Value)
open Program (Result)

/-! ## Readings of a clock -/

namespace Clock

/-- The reading after a number of others, wrapped around in 64 bits. -/
def reading (clock : Clock) (count : Nat) : Int64 :=
  .ofInt (clock.now.toInt + count * clock.step.toInt)

/-- The first reading is the time that the clock shows. -/
theorem reading_zero (clock : Clock) : clock.reading 0 = clock.now := by
  simp [reading, Int64.ofInt_toInt]

/-- After one reading the others follow. -/
theorem reading_tick (clock : Clock) (count : Nat) :
    clock.tick.reading count = clock.reading (count + 1) := by
  have hshift : clock.now.toInt + (count + 1 : Nat) * clock.step.toInt =
      clock.now.toInt + clock.step.toInt + count * clock.step.toInt := by
    rw [Int.natCast_add, Int.add_mul]
    omega
  rw [reading, reading, hshift, Int64.ofInt_add, Int64.ofInt_add, Int64.ofInt_add, Int64.ofInt_toInt,
    Int64.ofInt_toInt, Int64.ofInt_toInt]
  rfl

/-- The first readings, one by one. -/
theorem readings_eq_map (clock : Clock) (count : Nat) :
    clock.readings count = (List.range count).map clock.reading := by
  induction count generalizing clock with
  | zero => rfl
  | succ count ih =>
      rw [readings, ih, List.range_succ_eq_map, List.map_cons, List.map_map, reading_zero]
      exact congrArg _ (List.map_congr_left fun index _ => clock.reading_tick index)

/-- Readings increase if the step is positive and none of them wraps. -/
theorem pairwise_readings {clock : Clock} {count : Nat} (hstep : 0 < clock.step)
    (hwrap : ∀ index < count, clock.now.toInt + index * clock.step.toInt < 0x8000000000000000) :
    (clock.readings count).Pairwise (· < ·) := by
  have hpositive : 0 < clock.step.toInt := Int64.lt_iff_toInt_lt.1 hstep
  have hlower : -0x8000000000000000 ≤ clock.now.toInt := clock.now.le_toInt
  have htoInt : ∀ index < count,
      (clock.reading index).toInt = clock.now.toInt + index * clock.step.toInt := by
    intro index hindex
    have hnonneg : 0 ≤ (index : Int) * clock.step.toInt :=
      Int.mul_nonneg (Int.natCast_nonneg _) (Int.le_of_lt hpositive)
    exact Int64.toInt_ofInt_of_le (by omega) (hwrap index hindex)
  rw [readings_eq_map, List.pairwise_map]
  refine List.pairwise_lt_range.imp_of_mem fun {earlier later} hearlier hlater hlt => ?_
  rw [Int64.lt_iff_toInt_lt, htoInt _ (List.mem_range.1 hearlier), htoInt _ (List.mem_range.1 hlater)]
  exact Int.add_lt_add_left (Int.mul_lt_mul_of_pos_right (Int.ofNat_lt.2 hlt) hpositive) _

end Clock

/-! ## Programs that do not read the clock -/

namespace Program

variable {α β σ : Type}

/-- The program does not read the clock. -/
def Timeless : Program α → Prop
  | done _ => True
  | call _ resume => ∀ answer, (resume answer).Timeless
  | clock _ => False
  | scan _ _ _ resume => ∀ answer, (resume answer).Timeless

/-- A program that is continued does not read the clock if neither part does. -/
theorem Timeless.bind {program : Program α} (h : program.Timeless) {next : α → Program β}
    (hnext : ∀ result, (next result).Timeless) : (program.bind next).Timeless := by
  induction program with
  | done result => exact hnext result
  | call request resume ih => exact fun answer => ih answer (h answer)
  | clock resume => exact h.elim
  | scan table pageSize keep resume ih => exact fun answer => ih answer (h answer)

/-- A clock that is not read shows the same time afterwards. -/
theorem Timeless.run {program : Program α} (h : program.Timeless) (engine : Engine σ)
    (fuel : σ → Nat) (state : σ) (time : Clock) : (program.run engine fuel state time).2.2 = time := by
  induction program generalizing state with
  | done result => rfl
  | call request resume ih => exact ih _ (h _) _
  | clock resume => exact h.elim
  | scan table pageSize keep resume ih =>
      rw [Program.run]
      split
      · exact ih _ (h _) _
      · rfl

end Program

namespace Pool

/-- The removal of an account does not read the clock. -/
theorem timeless_deleteAccount (pool : Pool) (id : String) (attempts : Nat) :
    (pool.deleteAccount id attempts).Timeless := by
  induction attempts with
  | zero => trivial
  | succ attempts ih =>
      intro answer
      dsimp only
      split
      · trivial
      · trivial
      · have hget : (pool.getAccount id).Timeless := fun _ => trivial
        refine hget.bind fun result => ?_
        split
        · trivial
        · trivial
        · split
          · trivial
          · exact ih
      · trivial

end Pool

/-- A search does not read the clock. -/
theorem Search.timeless (pool : Pool) (search : Search) : (search.program pool).Timeless := by
  have hscan {α : Type} [Entity α] (table : Table) (keep : Record → Bool) :
      (Pool.scanWhere (α := α) pool table keep).Timeless := fun _ => trivial
  have hfind {α : Type} [Entity α] (table : Table) (name text : String) :
      (Pool.findBy (α := α) pool table name text).Timeless := by
    unfold Pool.findBy
    split
    · exact fun _ => trivial
    · exact hscan table _
  cases search with
  | listAccounts | accountsNotReady | listLeases => exact hscan _ _
  | accountsByStatus | accountsByRole | leasesByAccount | leasesByPrincipal | leasesByStatus =>
      exact hfind _ _ _
  | firstReadyAccount => exact (hfind _ _ _).bind fun _ => trivial

namespace Operation

/-- The operation stamps an entity. -/
def readsClock : Operation → Bool
  | one access => access.readsClock
  | many _ => false

/-- An operation that stamps no entity does not read the clock. -/
theorem timeless {operation : Operation} (h : operation.readsClock = false) (pool : Pool) :
    (operation.program pool).Timeless := by
  cases operation with
  | many search => exact search.timeless pool
  | one access =>
      cases access with
      | deleteAccount id => exact pool.timeless_deleteAccount id 2
      | getAccount | putAccount | getLease | putLease | deleteLease => exact fun _ => trivial
      | editAccount | moveLease => cases h

/-- The timestamps that an operation has set in the entity that it gives. -/
def moments : (operation : Operation) → operation.Reply → List Int64
  | one (.editAccount ..), account => [account.lastModifiedOn]
  | one (.moveLease ..), lease => [lease.lastModifiedOn, lease.statusModifiedOn]
  | _, _ => []

end Operation

namespace GuardedUpdate

/-- A guarded update as an operation of the pool. -/
def operation : GuardedUpdate → Operation
  | account id edit => .one (.editAccount id edit)
  | lease accountId principalId previous next => .one (.moveLease accountId principalId previous next)

/-- The operations that stamp an entity are the guarded updates. -/
theorem exists_of_readsClock {operation : Operation} (h : operation.readsClock = true) :
    ∃ update : GuardedUpdate, operation = update.operation := by
  cases operation with
  | many search => cases h
  | one access =>
      cases access with
      | editAccount id edit => exact ⟨.account id edit, rfl⟩
      | moveLease accountId principalId previous next =>
          exact ⟨.lease accountId principalId previous next, rfl⟩
      | getAccount | putAccount | deleteAccount | getLease | putLease | deleteLease => cases h

/-- The timestamps that an update has set in the entity that it gives. -/
def moments : (update : GuardedUpdate) → update.Reply → List Int64
  | account .., entity => [entity.lastModifiedOn]
  | lease .., entity => [entity.lastModifiedOn, entity.statusModifiedOn]

end GuardedUpdate

/-! ## Stamped entities -/

/-- A timestamp that is written is read back. -/
theorem Field.value?_timestamp {look : String → Option Value} {name : String} {now : Int64}
    (h : look name = some (.int64 now)) :
    (⟨name, .timestamp, some 0⟩ : Field).value? look none = some now := by
  have hholds : Shape.timestamp.Holds (some (.int64 now)) now := rfl
  rw [value?, h]
  exact toOption_eq_some.2 (Shape.decode_of_holds hholds)

/-- What is decoded from a record of the pool is read from the record. -/
theorem Pool.toEntity_of_decode {α : Type} [Entity α] {table : Table} {record : Record} {entity : α}
    (h : Pool.decode table record = .ok entity) : record.toEntity = .ok entity := by
  unfold Pool.decode at h
  cases hread : (record.toEntity : Except Json.Mismatch α) with
  | error mismatch =>
      rw [hread] at h
      cases h
  | ok found =>
      rw [hread] at h
      cases h
      rfl

/-- An account that is read from a stamped record was modified at the time of the stamp. -/
theorem Account.lastModifiedOn_of_toEntity {record : Record} {account : Account} {stamp : Int64}
    (h : record.toEntity = .ok account)
    (hstamp : record.get? lastModifiedOnName = some (.int64 stamp)) :
    account.lastModifiedOn = stamp := by
  obtain ⟨-, -, -, -, hmodified, -⟩ := Entity.valued_of_toEntity h
  exact Option.some.inj (hmodified.symm.trans (Field.value?_timestamp hstamp))

/-- A lease that is read from a stamped record was modified, as was its status, at the time of the stamp. -/
theorem Lease.stamps_of_toEntity {record : Record} {lease : Lease} {stamp : Int64}
    (h : record.toEntity = .ok lease)
    (hmodified : record.get? lastModifiedOnName = some (.int64 stamp))
    (hstatus : record.get? statusModifiedOnName = some (.int64 stamp)) :
    lease.lastModifiedOn = stamp ∧ lease.statusModifiedOn = stamp := by
  obtain ⟨-, -, -, -, hlast, hlastStatus, -⟩ := Entity.valued_of_toEntity h
  exact ⟨Option.some.inj (hlast.symm.trans (Field.value?_timestamp hmodified)),
    Option.some.inj (hlastStatus.symm.trans (Field.value?_timestamp hstatus))⟩

namespace GuardedUpdate

/-- An entity that is read from a stamped record has the stamp in its timestamps. -/
theorem moments_of_decode {update : GuardedUpdate} {table : Table} {record : Record} {stamp : Int64}
    (hstamps : ∀ name ∈ update.stamps, record.get? name = some (.int64 stamp))
    {reply : update.Reply} (h : Pool.decode table record = .ok reply) :
    ∀ moment ∈ update.moments reply, moment = stamp := by
  cases update with
  | account id edit =>
      have hmodified := Account.lastModifiedOn_of_toEntity (Pool.toEntity_of_decode h)
        (hstamps _ List.mem_cons_self)
      simpa [moments] using hmodified
  | lease accountId principalId previous next =>
      have hmodified := Lease.stamps_of_toEntity (Pool.toEntity_of_decode h)
        (hstamps _ List.mem_cons_self) (hstamps _ (List.mem_cons_of_mem _ List.mem_cons_self))
      simpa [moments] using hmodified

end GuardedUpdate

namespace GuardedUpdate

/-- An update reads the clock once. -/
theorem clock_run {σ : Type} (pool : Pool) (update : GuardedUpdate) (engine : Engine σ)
    (fuel : σ → Nat) (state : σ) (time : Clock) :
    ((update.program pool).run engine fuel state time).2.2 = time.tick := by
  have hrest (now : Int64) : (Program.call (.update (update.table pool) update.key
      (update.assigned :: update.stamps.map fun stamp => (stamp, .int64 now)) (some update.guard))
        fun answer => .done (update.settle pool answer)).Timeless := fun _ => trivial
  rw [program_eq]
  exact (hrest time.now).run engine fuel state time.tick

/-- What the store answers to an update that is refused is a failure. -/
theorem settle_error_fails (pool : Pool) (update : GuardedUpdate) (error : StoreError) :
    (update.settle pool (.error error)).Fails := by
  cases error with
  | conditionFailed =>
      refine ⟨update.refusal, rfl, fun table mismatch hsame => ?_⟩
      cases update with
      | account id edit => cases edit <;> cases hsame
      | lease => cases hsame
  | missingKeyAttribute | notIndexed | invalidAttributeName | unreadable | engine | file | poisoned =>
      exact ⟨_, rfl, fun _ _ hsame => by cases hsame⟩

end GuardedUpdate

/-! ## Connections that take turns -/

/-- A connection to one of several stores. -/
structure Connection (ι : Type) where
  backend : Backend
  settings : PoolSettings
  place : ι

/-- A call through a connection. -/
structure Call (ι : Type) where
  connection : Connection ι
  operation : Operation
  /-- How long the scans of the call may take. -/
  fuel : Store → Nat

/-- All stores, and the clock that is shared by all connections. -/
structure World (ι : Type) where
  stores : ι → Store
  clock : Clock

variable {ι : Type} [DecidableEq ι]

namespace Call

/-- The call is one that reads the clock. -/
def readsClock (call : Call ι) : Bool :=
  call.operation.readsClock

/-- The execution of a call on the store of its connection. -/
def run (call : Call ι) (world : World ι) : Option (Result call.operation.Reply) × Store × Clock :=
  (call.operation.program (.ofSettings call.connection.settings)).run call.connection.backend.perform
    call.fuel (world.stores call.connection.place) world.clock

/-- What a call gives. -/
def result (call : Call ι) (world : World ι) : Option (Result call.operation.Reply) :=
  (call.run world).1

/-- The world after a call. -/
def after (call : Call ι) (world : World ι) : World ι where
  stores place := if place = call.connection.place then (call.run world).2.1 else world.stores place
  clock := (call.run world).2.2

/-- The time that a call has set in the entity that it gives. -/
def stamp? (call : Call ι) (world : World ι) : Option Int64 :=
  match call.result world with
  | some (.ok reply) => (call.operation.moments reply).head?
  | _ => none

end Call

namespace World

/-- The world after several calls. -/
def through (world : World ι) (calls : List (Call ι)) : World ι :=
  calls.foldl (fun world call => call.after world) world

/-- The times that calls have set, in the order of the calls. -/
def stamps (world : World ι) : List (Call ι) → List Int64
  | [] => []
  | call :: calls => (call.stamp? world).toList ++ (call.after world).stamps calls

end World

/-- Between two worlds the record under the key of an update was written: it has the new value in the
attribute that is set and the stamp in those that are stamped, and no other row has changed. -/
def Connection.Stamps (connection : Connection ι) (update : GuardedUpdate) (stamp : Int64)
    (before after : World ι) : Prop :=
  let table := update.table (.ofSettings connection.settings)
  let row := connection.backend.address update.key
  ∃ record edited : Record,
    connection.backend.read (before.stores connection.place) table row = .ok (some record) ∧
    (∀ name, edited.get? name =
      if name = update.assigned.1 then some update.assigned.2
      else if name ∈ update.stamps then some (.int64 stamp)
      else record.get? name) ∧
    ∀ place name other, ((after.stores place).rows name).find? other =
      if place = connection.place ∧ name = table.name ∧ other = row then some edited
      else ((before.stores place).rows name).find? other

/-- What an update does that uses a stamp. It comes to an end. If it is accepted, or was made of a record
that is no entity, it has written the stamp; otherwise it has written nothing. The entity that it gives has
the stamp in the timestamps that were set. -/
structure Connection.Settled (connection : Connection ι) (update : GuardedUpdate) (stamp : Int64)
    (before after : World ι) {α : Type} (moments : α → List Int64) (result : Option (Result α)) :
    Prop where
  ends : result.isSome
  accepted (reply : α) (hresult : result = some (.ok reply)) :
    connection.Stamps update stamp before after ∧ ∀ moment ∈ moments reply, moment = stamp
  undecodable (table : String) (mismatch : Json.Mismatch)
      (hresult : result = some (.error (.undecodable table mismatch))) :
    connection.Stamps update stamp before after
  rejected (outcome : Result α) (hresult : result = some outcome) (hfails : outcome.Fails) :
    after.stores = before.stores

/-! ## Updates that use a stamp -/

namespace Connection

variable {connection : Connection ι} {update : GuardedUpdate} {before after : World ι}

/-- An update that writes the edited record has written its stamp. -/
theorem stamps_of_write {record : Record} {stamp : Int64}
    (hread : connection.backend.read (before.stores connection.place)
      (update.table (.ofSettings connection.settings)) (connection.backend.address update.key) =
        .ok (some record))
    (hstores : ∀ place, after.stores place = if place = connection.place then
      Backend.write (before.stores connection.place) (update.table (.ofSettings connection.settings))
        (connection.backend.address update.key) (update.edited stamp record)
      else before.stores place) :
    connection.Stamps update stamp before after := by
  refine ⟨record, _, hread, update.get?_edited stamp record, fun place name other => ?_⟩
  rw [hstores]
  by_cases hplace : place = connection.place
  · subst hplace
    rw [if_pos rfl, Backend.find?_write]
    simp only [true_and]
  · rw [if_neg hplace, if_neg fun h => hplace h.1]

/-- An update uses the time that the clock shows. -/
theorem settled_program (connection : Connection ι) (update : GuardedUpdate) (fuel : Store → Nat)
    (before : World ι) :
    let run := (update.program (.ofSettings connection.settings)).run connection.backend.perform fuel
      (before.stores connection.place) before.clock
    connection.Settled update before.clock.now before
      ⟨fun place => if place = connection.place then run.2.1 else before.stores place, run.2.2⟩
      update.moments run.1 := by
  intro run
  let pool := Pool.ofSettings connection.settings
  obtain ⟨record, hread, -, hrun⟩ | ⟨-, error, hrun⟩ := GuardedUpdate.run_cases connection.backend pool
    update fuel (before.stores connection.place) before.clock
  · have hrun : run = _ := hrun
    have hwritten : connection.Stamps update before.clock.now before
        ⟨fun place => if place = connection.place then run.2.1 else before.stores place, run.2.2⟩ := by
      refine stamps_of_write hread fun place => ?_
      rw [hrun]
    refine ⟨by rw [hrun]; rfl, fun reply hreply => ⟨hwritten, ?_⟩, fun _ _ _ => hwritten,
      fun outcome houtcome hfails => ?_⟩
    · rw [hrun] at hreply
      refine GuardedUpdate.moments_of_decode (fun name hname => ?_) (Option.some.inj hreply)
      have hother : name ≠ update.assigned.1 := fun hsame =>
        update.assigned_not_mem_stamps (hsame ▸ hname)
      rw [update.get?_edited, if_neg hother, if_pos hname]
    · rw [hrun] at houtcome
      obtain rfl : _ = outcome := Option.some.inj houtcome
      exact absurd hfails (Pool.decode_not_fails _ _)
  · have hrun : run = _ := hrun
    have hfails : (update.settle pool (.error error)).Fails := update.settle_error_fails pool error
    have hunwritten {outcome : Result update.Reply} (houtcome : run.1 = some outcome) :
        outcome.Fails := by
      rw [hrun] at houtcome
      obtain rfl : _ = outcome := Option.some.inj houtcome
      exact hfails
    refine ⟨by rw [hrun]; rfl, fun reply hreply => ?_, fun table mismatch hmismatch => ?_,
      fun _ _ _ => funext fun place => ?_⟩
    · obtain ⟨_, hfailure, -⟩ := hunwritten hreply
      cases hfailure
    · obtain ⟨_, hfailure, hother⟩ := hunwritten hmismatch
      cases hfailure
      exact absurd rfl (hother table mismatch)
    · show (if place = connection.place then run.2.1 else before.stores place) = before.stores place
      split
      · next hplace => rw [hrun, hplace]
      · rfl

/-- An update through a connection uses the time that the clock shows. -/
theorem settled (connection : Connection ι) (update : GuardedUpdate) (fuel : Store → Nat)
    (before : World ι) :
    let call : Call ι := ⟨connection, update.operation, fuel⟩
    connection.Settled update before.clock.now before (call.after before) update.operation.moments
      (call.result before) := by
  cases update with
  | account id edit => exact connection.settled_program (.account id edit) fuel before
  | lease accountId principalId previous next =>
      exact connection.settled_program (.lease accountId principalId previous next) fuel before

end Connection

/-! ## Calls one after the other -/

namespace Call

/-- A call moves the clock on if it is one that reads it. -/
theorem clock_after (call : Call ι) (world : World ι) :
    (call.after world).clock = if call.readsClock then world.clock.tick else world.clock := by
  obtain ⟨connection, operation, fuel⟩ := call
  cases hreads : operation.readsClock with
  | false =>
      have hclock := (Operation.timeless hreads (.ofSettings connection.settings)).run
        connection.backend.perform fuel (world.stores connection.place) world.clock
      rw [if_neg (by simp [readsClock, hreads])]
      exact hclock
  | true =>
      obtain ⟨update, rfl⟩ := GuardedUpdate.exists_of_readsClock hreads
      have hclock := update.clock_run (.ofSettings connection.settings) connection.backend.perform fuel
        (world.stores connection.place) world.clock
      have hafter : ((⟨connection, update.operation, fuel⟩ : Call ι).after world).clock =
          world.clock.tick := by
        cases update <;> exact hclock
      rw [hafter]
      exact (if_pos hreads).symm

/-- Only a call that reads the clock stamps an entity, and it stamps it with what it reads. -/
theorem stamp?_eq_some {call : Call ι} {world : World ι} {stamp : Int64}
    (h : call.stamp? world = some stamp) : call.readsClock = true ∧ stamp = world.clock.now := by
  obtain ⟨connection, operation, fuel⟩ := call
  rw [stamp?] at h
  split at h
  · next reply hreply =>
      have hmem : stamp ∈ operation.moments reply := List.mem_of_mem_head? h
      cases hreads : operation.readsClock with
      | false =>
          cases operation with
          | many search => cases hmem
          | one access =>
              cases access with
              | editAccount | moveLease => cases hreads
              | getAccount | putAccount | deleteAccount | getLease | putLease | deleteLease => cases hmem
      | true =>
          obtain ⟨update, rfl⟩ := GuardedUpdate.exists_of_readsClock hreads
          exact ⟨hreads, ((connection.settled update fuel world).accepted reply hreply).2 stamp hmem⟩
  · cases h

end Call

namespace World

/-- The clock after several calls has been read by those of them that read it. -/
theorem clock_through (world : World ι) (calls : List (Call ι)) :
    (world.through calls).clock =
      ⟨world.clock.reading (calls.countP Call.readsClock), world.clock.step⟩ := by
  induction calls generalizing world with
  | nil =>
      rw [List.countP_nil, Clock.reading_zero]
      rfl
  | cons call calls ih =>
      show ((call.after world).through calls).clock = _
      rw [ih, call.clock_after]
      cases hreads : call.readsClock with
      | false => rw [List.countP_cons_of_neg (by simp [hreads]), if_neg (by simp)]
      | true =>
          rw [List.countP_cons_of_pos hreads, if_pos rfl, Clock.reading_tick]
          rfl

/-- The stamps of calls are among the readings of the clock, in order. -/
theorem stamps_sublist (world : World ι) (calls : List (Call ι)) :
    (world.stamps calls).Sublist (world.clock.readings (calls.countP Call.readsClock)) := by
  induction calls generalizing world with
  | nil => exact List.Sublist.refl _
  | cons call calls ih =>
      have hrest := ih (call.after world)
      rw [call.clock_after] at hrest
      rw [stamps]
      cases hreads : call.readsClock with
      | false =>
          have hnone : call.stamp? world = none := by
            cases hstamp : call.stamp? world with
            | none => rfl
            | some stamp =>
                have hread := (Call.stamp?_eq_some hstamp).1
                rw [hreads] at hread
                cases hread
          rw [List.countP_cons_of_neg (by simp [hreads]), hnone]
          rw [hreads] at hrest
          exact hrest
      | true =>
          rw [List.countP_cons_of_pos hreads]
          rw [hreads] at hrest
          cases hstamp : call.stamp? world with
          | none => exact hrest.cons _
          | some stamp =>
              rw [(Call.stamp?_eq_some hstamp).2]
              exact hrest.cons_cons _

end World

/-- The reading of a clock that a call uses is told by the number of calls before it that read the clock,
made or refused, through any connections. An update uses the reading for every timestamp that it sets, and
sets none if it is refused. If the step is positive and no reading wraps, the stamps of the calls that are
accepted increase. -/
theorem clock_accounting (start : World ι) :
    (∀ calls : List (Call ι), (start.through calls).clock =
      ⟨start.clock.reading (calls.countP Call.readsClock), start.clock.step⟩) ∧
    (∀ (earlier : List (Call ι)) (connection : Connection ι) (update : GuardedUpdate)
        (fuel : Store → Nat),
      let before := start.through earlier
      let call : Call ι := ⟨connection, update.operation, fuel⟩
      connection.Settled update (start.clock.reading (earlier.countP Call.readsClock)) before
        (call.after before) update.operation.moments (call.result before)) ∧
    ∀ calls : List (Call ι), 0 < start.clock.step →
      (∀ index < calls.countP Call.readsClock,
        start.clock.now.toInt + index * start.clock.step.toInt < 0x8000000000000000) →
      (start.stamps calls).Pairwise (· < ·) := by
  refine ⟨start.clock_through, fun earlier connection update fuel => ?_, fun calls hstep hwrap => ?_⟩
  · have hsettled := connection.settled update fuel (start.through earlier)
    rw [start.clock_through] at hsettled
    exact hsettled
  · exact (Clock.pairwise_readings hstep hwrap).sublist (start.stamps_sublist calls)

/-- A connection to a store in memory and one to a database take turns. A transition that is refused uses
a reading that no entity has. -/
theorem clock_accounting_two :
    let memory : Connection Bool := ⟨.memory, {}, false⟩
    let database : Connection Bool := ⟨.database, { leaseTable := "Leases2" }, true⟩
    let start : World Bool := ⟨fun _ => {}, ⟨5, 10⟩⟩
    let lease : Lease := { accountId := "1", principalId := "p", status := .active }
    let calls : List (Call Bool) := [
      ⟨memory, .one (.putAccount { id := "1", status := .ready }), Store.size⟩,
      ⟨memory, .one (.editAccount "1" (.status .ready .leased)), Store.size⟩,
      ⟨database, .one (.putLease lease), Store.size⟩,
      ⟨database, .one (.moveLease "1" "p" .resetLock .active), Store.size⟩,
      ⟨database, .one (.moveLease "1" "p" .active .resetLock), Store.size⟩]
    (0 < start.clock.step ∧ ∀ index < calls.countP Call.readsClock,
      start.clock.now.toInt + index * start.clock.step.toInt < 0x8000000000000000) ∧
    start.stamps calls = [5, 25] ∧ (start.stamps calls).Pairwise (· < ·) ∧
      (start.through calls).clock = ⟨start.clock.reading 3, 10⟩ := by
  intro memory database start lease calls
  have hcount : calls.countP Call.readsClock = 3 := rfl
  have hwrap : ∀ index < calls.countP Call.readsClock,
      start.clock.now.toInt + index * start.clock.step.toInt < 0x8000000000000000 := by
    rw [hcount]
    decide
  obtain ⟨hclock, -, hincreases⟩ := clock_accounting start
  refine ⟨⟨by decide, hwrap⟩, by decide +kernel, hincreases calls (by decide) hwrap, ?_⟩
  rw [hclock, hcount]

end AccountPool
