import AccountPool.Proofs.Concurrent.Clock

/-!
# Timestamps are readings of the clock

All clients of a run share one clock. A call that changes an entity stamps it with what the clock showed
when the call read it, `stamped_by_reading`, and this is more than every timestamp that was there at that
moment. It need not be more than what is there when the entity is updated: a client that has read the clock
later may have updated the entity first, and then the timestamps go back, `stamps_go_back`.
-/

namespace AccountPool

open Program (Result)

variable {ι : Type} [DecidableEq ι]

/-! ## A clock for all clients -/

/-- What an operation puts has timestamps below a bound. -/
def Operation.PutsBelow (bound : Int64) : Operation → Prop
  | .one (.putAccount account) => account.lastModifiedOn < bound
  | .one (.putLease lease) => lease.lastModifiedOn < bound ∧ lease.statusModifiedOn < bound
  | _ => True

instance (bound : Int64) : (operation : Operation) → Decidable (operation.PutsBelow bound)
  | .one (.putAccount account) => inferInstanceAs (Decidable (account.lastModifiedOn < bound))
  | .one (.putLease _) => inferInstanceAs (Decidable (_ ∧ _))
  | .one (.getAccount _) | .one (.editAccount ..) | .one (.deleteAccount _) | .one (.getLease ..)
  | .one (.moveLease ..) | .one (.deleteLease ..) | .many _ => inferInstanceAs (Decidable True)

/-- A call that reads the clock does so when the clock shows the time, and the clock goes forward then. What
a call puts has timestamps that the clock has passed. -/
def Task.Timed (clock : Clock) (now : Int64) (task : Task) : Prop :=
  (task.thread.readsClock = true → now = clock.now ∧ clock.now < clock.tick.now) ∧
    task.operation.PutsBelow clock.now

instance (clock : Clock) (now : Int64) (task : Task) : Decidable (task.Timed clock now) :=
  inferInstanceAs (Decidable (_ ∧ _))

namespace Moment

/-- At this moment a client reads the clock. -/
def readsClock (moment : Moment ι) : Bool :=
  match moment.event with
  | .act client _ => (moment.before.tasks client).any fun task => task.thread.readsClock
  | _ => false

/-- The clock after a moment. -/
def clock (clock : Clock) (moment : Moment ι) : Clock :=
  if moment.readsClock then clock.tick else clock

/-- The client that acts at this moment keeps to the clock. -/
def Timed (clock : Clock) (moment : Moment ι) : Prop :=
  match moment.event with
  | .act client now => ∀ task ∈ moment.before.tasks client, task.Timed clock now
  | _ => True

instance (clock : Clock) : (moment : Moment ι) → Decidable (moment.Timed clock)
  | ⟨before, .act client now, _⟩ =>
      inferInstanceAs (Decidable (∀ task ∈ before.tasks client, task.Timed clock now))
  | ⟨_, .start .., _⟩ | ⟨_, .finish _, _⟩ => inferInstanceAs (Decidable True)

end Moment

/-- The clock after a run. -/
def Clock.through (clock : Clock) (moments : List (Moment ι)) : Clock :=
  moments.foldl Moment.clock clock

/-- All clients keep to one clock throughout a run. -/
def Timed : Clock → List (Moment ι) → Prop
  | _, [] => True
  | clock, moment :: rest => moment.Timed clock ∧ Timed (moment.clock clock) rest

/-- Whether all clients keep to one clock can be found out. -/
instance decidableTimed : (clock : Clock) → (moments : List (Moment ι)) → Decidable (Timed clock moments)
  | _, [] => inferInstanceAs (Decidable True)
  | clock, moment :: rest =>
      have := decidableTimed (moment.clock clock) rest
      inferInstanceAs (Decidable (_ ∧ _))

section Clocks

variable {start : Clock} {earlier later : List (Moment ι)} {moment : Moment ι}

omit [DecidableEq ι] in
/-- A run in which all clients keep to one clock may be split. -/
theorem timed_append :
    Timed start (earlier ++ later) ↔ Timed start earlier ∧ Timed (start.through earlier) later := by
  induction earlier generalizing start with
  | nil => exact (true_and _).to_iff.symm
  | cons moment earlier ih =>
      refine (and_congr_right fun _ => ih).trans ?_
      exact and_assoc.symm

omit [DecidableEq ι] in
/-- The clock goes through a run moment by moment. -/
theorem Clock.through_append (start : Clock) (earlier later : List (Moment ι)) :
    start.through (earlier ++ later) = (start.through earlier).through later :=
  List.foldl_append

omit [DecidableEq ι] in
/-- A client that reads the clock reads what it shows, and the clock goes forward. -/
theorem Moment.Timed.reads (h : moment.Timed start) (hreads : moment.readsClock = true) :
    (∃ client, moment.event = .act client start.now) ∧ start.now < (moment.clock start).now := by
  rw [Moment.clock, hreads, if_pos rfl]
  rw [Moment.Timed] at h
  rw [Moment.readsClock] at hreads
  cases hevent : moment.event with
  | start | finish =>
      rw [hevent] at hreads
      cases hreads
  | act client now =>
      simp only [hevent] at h hreads
      obtain ⟨task, htask, hclock⟩ := (Option.any_eq_true _ _).1 hreads
      obtain ⟨rfl, hforward⟩ := (h task htask).1 hclock
      exact ⟨⟨client, rfl⟩, hforward⟩

omit [DecidableEq ι] in
/-- The clock does not go back at a moment. -/
theorem Moment.Timed.le_clock (h : moment.Timed start) : start.now ≤ (moment.clock start).now := by
  cases hreads : moment.readsClock with
  | false =>
      rw [Moment.clock, hreads]
      exact Int64.le_refl _
  | true => exact Int64.le_of_lt (h.reads hreads).2

omit [DecidableEq ι] in
/-- The clock does not go back. -/
theorem Timed.le_through (h : Timed start later) : start.now ≤ (start.through later).now := by
  induction later generalizing start with
  | nil => exact Int64.le_refl _
  | cons moment later ih => exact Int64.le_trans h.1.le_clock (ih h.2)

omit [DecidableEq ι] in
/-- The clock passes what a client has read. -/
theorem Timed.lt_through (h : Timed start (earlier ++ moment :: later))
    (hreads : moment.readsClock = true) :
    (start.through earlier).now < (start.through (earlier ++ moment :: later)).now := by
  obtain ⟨-, hmoment, hlater⟩ := timed_append.1 h
  rw [Clock.through_append]
  exact Int64.lt_of_lt_of_le (hmoment.reads hreads).2 hlater.le_through

end Clocks

/-! ## The invariant -/

/-- At this moment a client starts an access by reading the clock. -/
def Moment.Starts (moment : Moment ι) (pool : Pool) (client : ι) (access : Access) : Prop :=
  (∃ now, moment.event = .act client now) ∧
    moment.before.tasks client = some ⟨.one access, .running (access.program pool)⟩

/-- An access of a client has read the clock in an earlier moment, and has been left alone since. -/
def Waiting (pool : Pool) (start : Clock) (done : List (Moment ι)) (client : ι) (access : Access)
    (thread : Thread (Result access.Reply)) : Prop :=
  ∃ before reading between, done = before ++ reading :: between ∧ reading.Starts pool client access ∧
    (∀ moment ∈ between, moment.event.client ≠ client) ∧
    thread = .running (access.timed pool (start.through before).now)

/-- After a run no timestamp is there that the clock has not passed, and every access that stamps its entity
is at its beginning, has read the clock or has come to its result. -/
structure Dated (backend : Backend) (settings : PoolSettings) (start : Clock)
    (done : List (Moment ι)) (system : System ι) : Prop where
  below : ∃ inventory, Represents backend settings system.store inventory ∧
    inventory.Below (start.through done).now
  waits : ∀ client (access : Access) (thread : Thread (Result access.Reply)),
    access.readsClock = true → system.tasks client = some ⟨.one access, thread⟩ →
      thread = .running (access.program (.ofSettings settings)) ∨
        Waiting (.ofSettings settings) start done client access thread ∨
        ∃ result, thread = .running (.done result)

section Steps

variable {backend : Backend} {settings : PoolSettings} {start : Clock} {done : List (Moment ι)}
  {system next : System ι} {event : Event ι} {client : ι} {access : Access}

omit [DecidableEq ι] in
/-- A client that starts an access reads the clock. -/
theorem Moment.Starts.readsClock {moment : Moment ι} {pool : Pool}
    (h : moment.Starts pool client access) (hreads : access.readsClock = true) :
    moment.readsClock = true := by
  obtain ⟨⟨now, hevent⟩, htask⟩ := h
  rw [Moment.readsClock, hevent]
  simp only [htask, Option.any_some]
  rw [Access.program_eq_clock hreads]
  rfl

/-- A client that reads the clock leaves the store alone. -/
theorem Moment.Starts.store_eq {moment : Moment ι} {pool : Pool}
    (h : moment.Starts pool client access) (hreads : access.readsClock = true)
    (hstep : System.Step backend pool moment.before moment.event moment.after) :
    moment.after.store = moment.before.store := by
  obtain ⟨⟨now, hevent⟩, htask⟩ := h
  rw [hevent] at hstep
  rw [Access.program_eq_clock hreads] at htask
  obtain ⟨thread, hthread, -⟩ := hstep.of_act_task htask
  exact (congrArg Prod.snd (Option.some.inj hthread)).symm

omit [DecidableEq ι] in
/-- An access that waits goes on waiting while other clients act. -/
theorem Waiting.snoc {pool : Pool} {thread : Thread (Result access.Reply)}
    (h : Waiting pool start done client access thread) {moment : Moment ι}
    (hother : moment.event.client ≠ client) :
    Waiting pool start (done ++ [moment]) client access thread := by
  obtain ⟨before, reading, between, rfl, hstarts, hothers, hthread⟩ := h
  refine ⟨before, reading, between ++ [moment], by simp, hstarts, ?_, hthread⟩
  intro other hmem
  obtain hmem | hmem := List.mem_append.1 hmem
  · exact hothers other hmem
  · rw [List.mem_singleton.1 hmem]
    exact hother

variable (hbackend : backend.Provided) (hnames : settings.accountTable ≠ settings.leaseTable)

include hbackend hnames

omit [DecidableEq ι] in
/-- A step of an access that stamps its entity reads the clock, or is the one in which a waiting access takes
effect at the time that it has read. -/
theorem Dated.act_access (h : Dated backend settings start done system)
    (hreads : access.readsClock = true) (hread : system.store.ReadsBack backend)
    {inventory : Inventory} (hinventory : Represents backend settings system.store inventory)
    {thread thread' : Thread (Result access.Reply)} {now : Int64} {after : Store}
    (htask : system.tasks client = some ⟨.one access, thread⟩)
    (hthread : thread.step backend.perform now system.store = some (thread', after)) :
    (thread = .running (access.program (.ofSettings settings)) ∧
      thread' = .running (access.timed (.ofSettings settings) now) ∧ after = system.store) ∨
    ∃ before reading between, done = before ++ reading :: between ∧
      reading.Starts (.ofSettings settings) client access ∧
      (∀ moment ∈ between, moment.event.client ≠ client) ∧
      thread' = .running (.done (inventory.perform (start.through before).now access).1) ∧
      Represents backend settings after (inventory.perform (start.through before).now access).2 := by
  obtain rfl | ⟨before, reading, between, hdone, hstarts, hothers, rfl⟩ | ⟨result, rfl⟩ :=
    h.waits client access thread hreads htask
  · refine .inl ⟨rfl, ?_⟩
    rw [Access.program_eq_clock hreads] at hthread
    cases hthread
    exact ⟨rfl, rfl⟩
  · exact .inr ⟨before, reading, between, hdone, hstarts, hothers,
      hinventory.act_timed hbackend hnames hread hreads hthread⟩
  · cases hthread

/-- What takes effect at a moment has timestamps that the clock has passed. -/
theorem Dated.below_of_act (h : Dated backend settings start done system) (htimed : Timed start done)
    (hlawful : Moment.Lawful backend settings ⟨system, event, next⟩)
    (hmoment : Moment.Timed (start.through done) ⟨system, event, next⟩) :
    ∃ inventory, Represents backend settings next.store inventory ∧
      inventory.Below (start.through done).now := by
  obtain ⟨inventory, hinventory, hbelow⟩ := h.below
  have hkept (hstore : next.store = system.store) :
      ∃ inventory, Represents backend settings next.store inventory ∧
        inventory.Below (start.through done).now := ⟨inventory, hstore ▸ hinventory, hbelow⟩
  have hstep := hlawful.step
  cases event with
  | start client operation => exact hkept (hstep.store_eq (by simp))
  | finish client => exact hkept (hstep.store_eq (by simp))
  | act client now =>
      obtain ⟨hstore, -⟩ | ⟨access, time, hresult, hafter⟩ :=
        hlawful.sound.act hbackend hnames hlawful.before hinventory hstep
      · exact hkept hstore
      · obtain ⟨operation, thread, thread', htask, hthread, hnext⟩ := hstep.of_act
        cases hnext.symm.trans hresult
        cases hreads : access.readsClock with
        | false =>
            obtain ⟨-, hputs⟩ := hmoment _ htask
            refine ⟨_, hafter, hbelow.perform ?_⟩
            cases access with
            | putAccount | putLease => exact hputs
            | editAccount | moveLease => cases hreads
            | getAccount | deleteAccount | getLease | deleteLease => trivial
        | true =>
            -- The access has read the clock before, so its time is one that the clock has passed.
            obtain ⟨-, hwaits, -⟩ | ⟨before, reading, between, rfl, hstarts, -, -, hafter⟩ :=
              h.act_access hbackend hnames hreads hlawful.before hinventory htask hthread
            · have hnone := Access.result?_timed hreads (.ofSettings settings) now
              rw [← hwaits] at hnone
              cases hnone
            · have htime := htimed.lt_through (hstarts.readsClock hreads)
              exact ⟨_, hafter, hbelow.perform (Access.below_of_readsClock hreads htime)⟩

/-- The invariant holds on from moment to moment. -/
theorem Dated.step (h : Dated backend settings start done system) (htimed : Timed start done)
    (hlawful : Moment.Lawful backend settings ⟨system, event, next⟩)
    (hmoment : Moment.Timed (start.through done) ⟨system, event, next⟩) :
    Dated backend settings start (done ++ [⟨system, event, next⟩]) next where
  below := by
    obtain ⟨inventory, hinventory, hbelow⟩ := h.below_of_act hbackend hnames htimed hlawful hmoment
    rw [Clock.through_append]
    exact ⟨inventory, hinventory, hbelow.mono hmoment.le_clock⟩
  waits client access thread hreads htask := by
    have hstep : System.Step backend (.ofSettings settings) system event next := hlawful.step
    by_cases hclient : event.client = client
    · subst hclient
      cases event with
      | start client operation =>
          cases hstep with
          | start hidle =>
              cases (System.tasks_assign_self _ _ _).symm.trans htask
              exact .inl rfl
      | finish client =>
          cases hstep with
          | finish hdone => cases (System.tasks_assign_self _ _ _).symm.trans htask
      | act client now =>
          obtain ⟨inventory, hinventory, -⟩ := h.below
          obtain ⟨operation, thread₀, thread', hbefore, hthread, hnext⟩ := hstep.of_act
          cases hnext.symm.trans htask
          obtain ⟨rfl, rfl, -⟩ | ⟨-, -, -, -, -, -, rfl, -⟩ :=
            h.act_access hbackend hnames hreads hlawful.before hinventory hbefore hthread
          · have hstarts : Moment.Starts ⟨system, .act client now, next⟩ (.ofSettings settings) client
                access := ⟨⟨now, rfl⟩, hbefore⟩
            obtain ⟨⟨actor, hevent⟩, -⟩ := hmoment.reads (hstarts.readsClock hreads)
            cases hevent
            exact .inr (.inl ⟨done, _, [], rfl, hstarts, by simp, rfl⟩)
          · exact .inr (.inr ⟨_, rfl⟩)
    · rw [hstep.tasks_eq hclient] at htask
      obtain hstart | hwaits | hdone := h.waits client access thread hreads htask
      · exact .inl hstart
      · exact .inr (.inl (hwaits.snoc hclient))
      · exact .inr (.inr hdone)

end Steps

section Runs

variable {backend : Backend} {settings : PoolSettings} {start : Clock} {system last : System ι}

omit [DecidableEq ι] in
/-- Nothing has been stamped and no call is under way. -/
theorem Dated.initial (backend : Backend) (settings : PoolSettings) (start : Clock) :
    Dated backend settings start [] ({} : System ι) where
  below := ⟨{}, .empty backend settings, Inventory.below_empty _⟩
  waits client access thread hreads htask := by cases htask

/-- The invariant holds after every run in which all clients keep to one clock. -/
theorem Run.dated {moments : List (Moment ι)}
    (hrun : Run backend (.ofSettings settings) system moments last) (hbackend : backend.Provided)
    (hnames : settings.accountTable ≠ settings.leaseTable) {done : List (Moment ι)}
    (h : Dated backend settings start done system) (htimed : Timed start (done ++ moments))
    (hlawful : ∀ moment ∈ moments, moment.Lawful backend settings) :
    Dated backend settings start (done ++ moments) last := by
  induction hrun generalizing done with
  | nil => simpa using h
  | cons hstep hrest ih =>
      obtain ⟨hdone, hmoment, -⟩ := timed_append.1 htimed
      have hnext := h.step hbackend hnames hdone (hlawful _ List.mem_cons_self) hmoment
      rw [List.append_cons] at htimed ⊢
      exact ih hnext htimed fun moment hmem => hlawful moment (List.mem_cons_of_mem _ hmem)

end Runs

/-! ## Timestamps that are read -/

namespace System

variable {backend : Backend} {settings : PoolSettings} {system next : System ι} {inventory : Inventory}

/-- What reading a lease gives if nothing comes between. -/
def lease? (backend : Backend) (pool : Pool) (system : System ι) (accountId principalId : String) :
    Result (Option Lease) :=
  Pool.lift (backend.perform system.store (.get pool.leases (Pool.leaseKey accountId principalId))).1
    (Pool.decode? pool.leases)

/-- The timestamps of the entity that an access changes, as they are read if nothing comes between. -/
def stamps? (backend : Backend) (pool : Pool) (system : System ι) : Access → Result (Option (List Int64))
  | .editAccount id _ =>
      (system.account? backend pool id).map (Option.map fun account => [account.lastModifiedOn])
  | .moveLease accountId principalId _ _ =>
      (system.lease? backend pool accountId principalId).map
        (Option.map fun lease => [lease.lastModifiedOn, lease.statusModifiedOn])
  | _ => .ok none

omit [DecidableEq ι] in
/-- The lease that is read is the one of the inventory that the store represents. -/
theorem lease?_eq (hinventory : Represents backend settings system.store inventory)
    (hread : system.store.ReadsBack backend) (accountId principalId : String) :
    system.lease? backend (.ofSettings settings) accountId principalId =
      .ok (inventory.lease? accountId principalId) := by
  obtain ⟨current, hfound, hperform⟩ := hinventory.leases.perform_get hread (accountId, principalId)
  have hanswer : (backend.perform system.store
      (.get (Pool.ofSettings settings).leases (Pool.leaseKey accountId principalId))).1 = .ok current :=
    congrArg Prod.fst hperform
  rw [lease?, hanswer]
  exact hfound.decode? _

omit [DecidableEq ι] in
/-- The timestamps that are read are those of the inventory that the store represents. -/
theorem stamps?_eq (hinventory : Represents backend settings system.store inventory)
    (hread : system.store.ReadsBack backend) (access : Access) :
    system.stamps? backend (.ofSettings settings) access = .ok (inventory.stamps? access) := by
  cases access with
  | editAccount id edit =>
      rw [stamps?, account?_eq hinventory hread]
      rfl
  | moveLease accountId principalId previous next =>
      rw [stamps?, lease?_eq hinventory hread]
      rfl
  | getAccount | putAccount | deleteAccount | getLease | putLease | deleteLease => rfl

omit [DecidableEq ι] in
/-- The timestamps that are read depend on the store only. -/
theorem stamps?_of_store_eq {pool : Pool} (hstore : next.store = system.store) (access : Access) :
    next.stamps? backend pool access = system.stamps? backend pool access := by
  cases access with
  | editAccount => rw [stamps?, stamps?, account?_of_store_eq hstore]
  | moveLease => rw [stamps?, stamps?, lease?, lease?, hstore]
  | getAccount | putAccount | deleteAccount | getLease | putLease | deleteLease => rfl

/-- The timestamps of the entity that an access changes are below a bound. -/
def StampedBelow (backend : Backend) (pool : Pool) (access : Access) (bound : Int64)
    (system : System ι) : Prop :=
  ∀ stamps, system.stamps? backend pool access = .ok (some stamps) → ∀ stamp ∈ stamps, stamp < bound

end System

/-- At this moment a client other than the given one brings the timestamps of the entity that an access
changes to a time or beyond it. -/
def Moment.Overtakes (backend : Backend) (pool : Pool) (client : ι) (access : Access) (time : Int64)
    (moment : Moment ι) : Prop :=
  (∃ (other : ι) (access' : Access) (result : Result access'.Reply),
    other ≠ client ∧ moment.Returns other (.one access') result) ∧
  moment.before.StampedBelow backend pool access time ∧
    ¬ moment.after.StampedBelow backend pool access time

omit [DecidableEq ι] in
/-- After a run all timestamps are below what the clock shows. -/
theorem Dated.stampedBelow {backend : Backend} {settings : PoolSettings} {start : Clock}
    {done : List (Moment ι)} {system : System ι} (h : Dated backend settings start done system)
    (hread : system.store.ReadsBack backend) (access : Access) :
    system.StampedBelow backend (.ofSettings settings) access (start.through done).now := by
  obtain ⟨inventory, hinventory, hbelow⟩ := h.below
  intro stamps hstamps
  rw [System.stamps?_eq hinventory hread] at hstamps
  exact hbelow.stamps (Except.ok.inj hstamps)

section Runs

variable {backend : Backend} {settings : PoolSettings} {start : Clock} {system last : System ι}
  {moments : List (Moment ι)} {client : ι} {access : Access} (hbackend : backend.Provided)
  (hnames : settings.accountTable ≠ settings.leaseTable)

include hbackend hnames

/-- While a client waits, timestamps stay below a time unless another client overtakes it. -/
theorem Run.stampedBelow_or_overtaken
    (hrun : Run backend (.ofSettings settings) system moments last)
    (hlawful : ∀ moment ∈ moments, moment.Lawful backend settings)
    (hothers : ∀ moment ∈ moments, moment.event.client ≠ client) {time : Int64}
    (hbelow : system.StampedBelow backend (.ofSettings settings) access time) :
    last.StampedBelow backend (.ofSettings settings) access time ∨
      ∃ moment ∈ moments, moment.Overtakes backend (.ofSettings settings) client access time := by
  refine Classical.or_iff_not_imp_right.2 fun hnone => ?_
  refine (hrun.invariant (System.StampedBelow backend (.ofSettings settings) access time) hbelow
    fun moment hmem hbefore => ?_).1
  refine Classical.byContradiction fun hafter => hnone ⟨moment, hmem, ?_, hbefore, hafter⟩
  have hlaw := hlawful moment hmem
  have hkept (hstore : moment.after.store = moment.before.store) : False := by
    refine hafter fun stamps hstamps => hbefore stamps ?_
    rw [← hstamps, System.stamps?_of_store_eq hstore]
  have hstep := hlaw.step
  have hother := hothers moment hmem
  cases hevent : moment.event with
  | start other operation => exact (hkept (hstep.store_eq (by simp [hevent]))).elim
  | finish other => exact (hkept (hstep.store_eq (by simp [hevent]))).elim
  | act other now =>
      rw [hevent] at hstep hother
      obtain ⟨inventory, hinventory⟩ := hlaw.sound.represents
      obtain ⟨hstore, -⟩ | ⟨access', time', hresult, -⟩ :=
        hlaw.sound.act hbackend hnames hlaw.before hinventory hstep
      · exact (hkept hstore).elim
      · exact ⟨other, access', _, hother, ⟨now, hevent⟩, hresult⟩

/-- When a client reads the clock all timestamps are below what it shows, and while it waits they stay there
unless another client overtakes it. -/
theorem Run.waited {before between : List (Moment ι)} {reading : Moment ι}
    (hrun : Run backend (.ofSettings settings) {} (before ++ reading :: between) last)
    (hlawful : ∀ moment ∈ before ++ reading :: between, moment.Lawful backend settings)
    (htimed : Timed start (before ++ reading :: between)) (hreads : access.readsClock = true)
    (hstarts : reading.Starts (.ofSettings settings) client access)
    (hothers : ∀ moment ∈ between, moment.event.client ≠ client) :
    reading.before.StampedBelow backend (.ofSettings settings) access (start.through before).now ∧
      (last.StampedBelow backend (.ofSettings settings) access (start.through before).now ∨
        ∃ moment ∈ between, moment.Overtakes backend (.ofSettings settings) client access
          (start.through before).now) := by
  obtain ⟨middle, hrunBefore, hrunReading⟩ := hrun.of_append
  have hdated := hrunBefore.dated hbackend hnames (.initial backend settings start)
    (timed_append.1 htimed).1 fun moment hmem => hlawful moment (List.mem_append_left _ hmem)
  have hlaw := hlawful reading (by simp)
  cases hrunReading with
  | cons hstep hrunBetween =>
      have hbelow := hdated.stampedBelow hlaw.before access
      refine ⟨hbelow, hrunBetween.stampedBelow_or_overtaken hbackend hnames
        (fun moment hmem => hlawful moment (by simp [hmem])) hothers fun stamps hstamps => ?_⟩
      rw [System.stamps?_of_store_eq (hstarts.store_eq hreads hstep)] at hstamps
      exact hbelow stamps hstamps

/-- A call that changes an entity stamps it with what the clock showed when the call read it. All that was
stamped before has earlier timestamps, and so has the entity when it is changed, unless another client has
overtaken the call since. -/
theorem stamped_by_reading {earlier later : List (Moment ι)} {update : Moment ι}
    (hrun : Run backend (.ofSettings settings) {} (earlier ++ update :: later) last)
    (hread : ReadsBackThroughout backend (earlier ++ update :: later))
    (htimed : Timed start (earlier ++ update :: later)) (hreads : access.readsClock = true)
    {reply : access.Reply} (hreturns : update.Returns client (.one access) (.ok reply)) :
    ∃ before reading between stamps,
      earlier = before ++ reading :: between ∧
      reading.event = .act client (start.through before).now ∧ reading.readsClock = true ∧
      (∀ moment ∈ between, moment.event.client ≠ client) ∧
      reading.before.StampedBelow backend (.ofSettings settings) access (start.through before).now ∧
      update.before.stamps? backend (.ofSettings settings) access = .ok (some stamps) ∧
      update.after.stamps? backend (.ofSettings settings) access =
        .ok (some (stamps.map fun _ => (start.through before).now)) ∧
      ((∀ stamp ∈ stamps, stamp < (start.through before).now) ∨
        ∃ moment ∈ between, moment.Overtakes backend (.ofSettings settings) client access
          (start.through before).now) := by
  obtain ⟨-, hlawful⟩ := hrun.sound (.initial backend settings) hbackend hnames hread
  obtain ⟨htimedEarlier, -⟩ := timed_append.1 htimed
  have hlawfulEarlier (moment : Moment ι) (hmem : moment ∈ earlier) :
      moment.Lawful backend settings := hlawful moment (List.mem_append_left _ hmem)
  have hlaw : update.Lawful backend settings := hlawful update (by simp)
  obtain ⟨middle, hrunEarlier, hrunUpdate⟩ := hrun.of_append
  obtain rfl : update.before = middle := by
    cases hrunUpdate
    rfl
  have hdated : Dated backend settings start earlier update.before :=
    hrunEarlier.dated hbackend hnames (.initial backend settings start) htimedEarlier hlawfulEarlier
  -- The step of the call is the one in which it takes effect, so it has read the clock before.
  obtain ⟨⟨now, hevent⟩, hresult⟩ := hreturns
  have hstep := hlaw.step
  rw [hevent] at hstep
  obtain ⟨operation, thread, thread', htask, hthread, hnext⟩ := hstep.of_act
  cases hnext.symm.trans hresult
  obtain ⟨inventory, hinventory, -⟩ := hdated.below
  obtain ⟨-, hwaits, -⟩ | ⟨before, reading, between, rfl, hstarts, hothers, hdone, hafter⟩ :=
    hdated.act_access hbackend hnames hreads hlaw.before hinventory htask hthread
  · have hnone := Access.result?_timed hreads (.ofSettings settings) now
    rw [← hwaits] at hnone
    cases hnone
  injection hdone with hdone
  injection hdone with hreply
  obtain ⟨stamps, hfound, hstamped⟩ := Inventory.stamps?_perform hreads hreply.symm
  have hbefore := System.stamps?_eq hinventory hlaw.before access
  have hupdated := System.stamps?_eq hafter hlaw.after access
  rw [hfound] at hbefore
  rw [hstamped] at hupdated
  obtain ⟨hearlier, hwaited⟩ := Run.waited hbackend hnames hrunEarlier hlawfulEarlier htimedEarlier hreads
    hstarts hothers
  have hshown : reading.event = .act client (start.through before).now := by
    obtain ⟨time, hreading⟩ := hstarts.1
    obtain ⟨-, htimedReading, -⟩ := timed_append.1 htimedEarlier
    obtain ⟨⟨actor, hactor⟩, -⟩ := htimedReading.reads (hstarts.readsClock hreads)
    cases hreading.symm.trans hactor
    exact hreading
  refine ⟨before, reading, between, stamps, rfl, hshown, hstarts.readsClock hreads, hothers, hearlier, hbefore,
    hupdated, hwaited.imp_left fun hbelow => hbelow stamps hbefore⟩

end Runs

/-- Two clients withdraw the metadata of an account. The first one reads the clock first and updates the
account last. -/
def overtaking : List (Event (Fin 2)) :=
  let withdraw : Operation := .one (.editAccount "1" (.metadata {}))
  [.start 0 (.one (.putAccount { id := "1", status := .ready })), .act 0 0, .finish 0,
    .start 0 withdraw, .start 1 withdraw, .act 0 1000, .act 1 1001, .act 1 0, .act 0 0]

/-- The clients keep to a clock that starts at 1000. -/
theorem timed_overtaking :
    Timed ⟨1000, 1⟩ (System.play .memory (.ofSettings {}) {} overtaking).1 := by
  decide +kernel

/-- The account that a call has changed and gives back. -/
def Task.edited? : Task → Option Account
  | ⟨.one (.editAccount _ _), .running (.done (.ok account))⟩ => some account
  | _ => none

/-- In the end the first client updates the account, which has a timestamp of 1001 and then one of 1000. -/
theorem overtaking_update :
    ∃ earlier update account,
      ((System.play .memory (.ofSettings {}) {} overtaking).1 : List (Moment (Fin 2))) =
        earlier ++ [update] ∧
      update.Returns 0 (.one (.editAccount "1" (.metadata {}))) (.ok account) ∧
      account.lastModifiedOn = 1000 ∧
      (update.before.account? .memory (.ofSettings {}) "1").toOption.map
        (Option.map Account.lastModifiedOn) = some (some 1001) := by
  let moments : List (Moment (Fin 2)) := (System.play .memory (.ofSettings {}) {} overtaking).1
  obtain ⟨update, result, hsplit, hreturns⟩ : ∃ update result, moments = moments.take 8 ++ [update] ∧
      update.Returns 0 (.one (.editAccount "1" (.metadata {}))) result := ⟨_, _, rfl, ⟨_, rfl⟩, rfl⟩
  have hlast : moments.getLast? = some update := by
    rw [hsplit]
    exact List.getLast?_concat
  have hedited : (moments.getLast?.bind fun moment => (moment.after.tasks 0).bind Task.edited?).map
      Account.lastModifiedOn = some 1000 := by decide +kernel
  have hbefore : (moments.getLast?.bind fun moment =>
      (moment.before.account? .memory (.ofSettings {}) "1").toOption).map
        (Option.map Account.lastModifiedOn) = some (some 1001) := by decide +kernel
  rw [hlast, Option.bind_some] at hedited hbefore
  rw [hreturns.2, Option.bind_some] at hedited
  cases result with
  | error error => cases hedited
  | ok account => exact ⟨_, update, account, hsplit, hreturns, Option.some.inj hedited, hbefore⟩

/-- The first client stamps the account with the 1000 that it has read, and has been overtaken. -/
theorem stamped_by_reading_overtaken :
    let pool := Pool.ofSettings {}
    let withdraw : Access := .editAccount "1" (.metadata {})
    ∃ earlier update account,
      ((System.play .memory pool {} overtaking).1 : List (Moment (Fin 2))) = earlier ++ [update] ∧
      update.Returns 0 (.one withdraw) (.ok account) ∧
      ∃ before reading between stamps,
        earlier = before ++ reading :: between ∧
        reading.event = .act 0 ((⟨1000, 1⟩ : Clock).through before).now ∧ reading.readsClock = true ∧
        (∀ moment ∈ between, moment.event.client ≠ 0) ∧
        reading.before.StampedBelow .memory pool withdraw ((⟨1000, 1⟩ : Clock).through before).now ∧
        update.before.stamps? .memory pool withdraw = .ok (some stamps) ∧
        update.after.stamps? .memory pool withdraw =
          .ok (some (stamps.map fun _ => ((⟨1000, 1⟩ : Clock).through before).now)) ∧
        ((∀ stamp ∈ stamps, stamp < ((⟨1000, 1⟩ : Clock).through before).now) ∨
          ∃ moment ∈ between, moment.Overtakes .memory pool 0 withdraw
            ((⟨1000, 1⟩ : Clock).through before).now) := by
  intro pool withdraw
  obtain ⟨earlier, update, account, hsplit, hreturns, -⟩ := overtaking_update
  have hnames : ({} : PoolSettings).accountTable ≠ ({} : PoolSettings).leaseTable := by decide
  have hrun : Run .memory pool {} _ _ := Run.play {} overtaking
  have htimed := timed_overtaking
  rw [hsplit] at hrun htimed
  exact ⟨earlier, update, account, hsplit, hreturns, stamped_by_reading .memory hnames hrun
    (fun _ _ => ⟨Store.readsBack_memory _, Store.readsBack_memory _⟩) htimed rfl hreturns⟩

/-- Timestamps may go back although all clients keep to one clock that never stands still. -/
theorem stamps_go_back :
    ¬ ∀ (moments : List (Moment (Fin 2))) (last : System (Fin 2)),
      Run .memory (.ofSettings {}) {} moments last → Timed ⟨1000, 1⟩ moments →
      ∀ moment ∈ moments, ∀ (client : Fin 2) (id : String) (edit : AccountEdit) (account : Account),
        moment.Returns client (.one (.editAccount id edit)) (.ok account) →
          ∃ found, moment.before.account? .memory (.ofSettings {}) id = .ok (some found) ∧
            found.lastModifiedOn < account.lastModifiedOn := by
  intro hincrease
  obtain ⟨earlier, update, account, hsplit, hreturns, hstamp, hbefore⟩ := overtaking_update
  obtain ⟨found, hfound, hlater⟩ := hincrease _ _ (Run.play {} overtaking) timed_overtaking update
    (by simp [hsplit]) 0 "1" _ account hreturns
  rw [hfound] at hbefore
  have hearlier : found.lastModifiedOn = 1001 := Option.some.inj (Option.some.inj hbefore)
  rw [hstamp, hearlier] at hlater
  exact absurd hlater (by decide)

end AccountPool
