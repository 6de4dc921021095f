import AccountPool.Proofs.Concurrent.Act

/-!
# Clients that share a store

Any number of clients call operations on one store. A client starts a call, executes it step by step and
finishes it; in between the other clients do as they like, and every reading of the clock may show any
time. `System.Sound` is the invariant: the store represents an inventory, and every call has come to where
its program leads. `System.Sound.act` says what a step of a client does, `Run.sound` that the invariant
holds throughout every run.
-/

namespace AccountPool

open Program (Result)

/-! ## Systems and their steps -/

/-- A call of an operation that was started and is not finished. -/
structure Task where
  operation : Operation
  thread : Thread (Result operation.Reply)

/-- A store and the calls that clients have under way. -/
structure System (ι : Type) where
  store : Store := {}
  tasks : ι → Option Task := fun _ => none

/-- What happens next, and to which client. -/
inductive Event (ι : Type) where
  | start (client : ι) (operation : Operation)
  | act (client : ι) (now : Int64)
  | finish (client : ι)

/-- The client to which an event happens. -/
def Event.client {ι : Type} : Event ι → ι
  | start client _ | act client _ | finish client => client

variable {ι : Type} [DecidableEq ι]

namespace System

/-- The system in which a client has another call under way, or none. -/
def assign (system : System ι) (client : ι) (task? : Option Task) : System ι :=
  { system with tasks := fun other => if other = client then task? else system.tasks other }

/-- The client has the call under way. -/
@[simp] theorem tasks_assign_self (system : System ι) (client : ι) (task? : Option Task) :
    (system.assign client task?).tasks client = task? :=
  if_pos rfl

/-- The calls of other clients stay under way. -/
theorem tasks_assign_of_ne (system : System ι) {client other : ι} (hne : other ≠ client)
    (task? : Option Task) : (system.assign client task?).tasks other = system.tasks other :=
  if_neg hne

/-- One event. A client without a call may start one, a client with one makes a step of it, and a call
that has come to its result is finished. -/
inductive Step (backend : Backend) (pool : Pool) : System ι → Event ι → System ι → Prop where
  | start {system client operation} :
      system.tasks client = none →
      Step backend pool system (.start client operation)
        (system.assign client (some ⟨operation, .running (operation.program pool)⟩))
  | act {system client operation} {thread next : Thread (Result operation.Reply)} {now after} :
      system.tasks client = some ⟨operation, thread⟩ →
      thread.step backend.perform now system.store = some (next, after) →
      Step backend pool system (.act client now)
        ({ system with store := after }.assign client (some ⟨operation, next⟩))
  | finish {system client operation} {result : Result operation.Reply} :
      system.tasks client = some ⟨operation, .running (.done result)⟩ →
      Step backend pool system (.finish client) (system.assign client none)

/-- The system after an event, if the event is possible. -/
def step? (backend : Backend) (pool : Pool) (system : System ι) : Event ι → Option (System ι)
  | .start client operation =>
      match system.tasks client with
      | none => some (system.assign client (some ⟨operation, .running (operation.program pool)⟩))
      | some _ => none
  | .act client now =>
      match system.tasks client with
      | none => none
      | some ⟨operation, thread⟩ =>
          match thread.step backend.perform now system.store with
          | none => none
          | some (next, after) =>
              some ({ system with store := after }.assign client (some ⟨operation, next⟩))
  | .finish client =>
      match system.tasks client with
      | none => none
      | some ⟨_, thread⟩ => thread.result?.map fun _ => system.assign client none

/-- The executable step makes the steps of the relation. -/
theorem step_of_step? {backend : Backend} {pool : Pool} {system next : System ι} {event : Event ι}
    (hstep : system.step? backend pool event = some next) : Step backend pool system event next := by
  unfold step? at hstep
  split at hstep
  · split at hstep
    · next hidle =>
        cases hstep
        exact .start hidle
    · cases hstep
  · split at hstep
    · cases hstep
    · next htask =>
        split at hstep
        · cases hstep
        · next hthread =>
            cases hstep
            exact .act htask hthread
  · split at hstep
    · cases hstep
    · next htask =>
        obtain ⟨result, hresult, rfl⟩ := Option.map_eq_some_iff.1 hstep
        rw [Thread.result?_eq_some.1 hresult] at htask
        exact .finish htask

/-- A client that acts makes a step of its call. -/
theorem Step.of_act {backend : Backend} {pool : Pool} {system next : System ι} {client : ι}
    {now : Int64} (hstep : Step backend pool system (.act client now) next) :
    ∃ (operation : Operation) (thread thread' : Thread (Result operation.Reply)),
      system.tasks client = some ⟨operation, thread⟩ ∧
      thread.step backend.perform now system.store = some (thread', next.store) ∧
      next.tasks client = some ⟨operation, thread'⟩ := by
  cases hstep with
  | act htask hthread => exact ⟨_, _, _, htask, hthread, tasks_assign_self _ _ _⟩

/-- A client that acts makes a step of the call that it has under way. -/
theorem Step.of_act_task {backend : Backend} {pool : Pool} {system next : System ι} {client : ι}
    {now : Int64} (hstep : Step backend pool system (.act client now) next) {operation : Operation}
    {thread : Thread (Result operation.Reply)}
    (htask : system.tasks client = some ⟨operation, thread⟩) :
    ∃ thread', thread.step backend.perform now system.store = some (thread', next.store) ∧
      next.tasks client = some ⟨operation, thread'⟩ := by
  obtain ⟨operation', thread₀, thread', htask', hthread, hnext⟩ := hstep.of_act
  cases htask.symm.trans htask'
  exact ⟨thread', hthread, hnext⟩

/-- Events of other clients leave a call where it is. -/
theorem Step.tasks_eq {backend : Backend} {pool : Pool} {system next : System ι} {event : Event ι}
    (hstep : Step backend pool system event next) {client : ι} (hclient : event.client ≠ client) :
    next.tasks client = system.tasks client := by
  cases hstep with
  | start => exact tasks_assign_of_ne _ hclient.symm _
  | act => exact tasks_assign_of_ne _ hclient.symm _
  | finish => exact tasks_assign_of_ne _ hclient.symm _

/-- The store changes only when a client acts. -/
theorem Step.store_eq {backend : Backend} {pool : Pool} {system next : System ι} {event : Event ι}
    (hstep : Step backend pool system event next) (hevent : ∀ client now, event ≠ .act client now) :
    next.store = system.store := by
  cases hstep with
  | start => rfl
  | act => exact absurd rfl (hevent _ _)
  | finish => rfl

end System

/-- An event with the system before and after it. -/
structure Moment (ι : Type) where
  before : System ι
  event : Event ι
  after : System ι

/-- A run of a system, moment by moment. -/
inductive Run (backend : Backend) (pool : Pool) : System ι → List (Moment ι) → System ι → Prop where
  | nil {system} : Run backend pool system [] system
  | cons {system event next moments last} :
      System.Step backend pool system event next → Run backend pool next moments last →
      Run backend pool system (⟨system, event, next⟩ :: moments) last

/-- The moments of a schedule, and the system after it. Events that are not possible are passed over. -/
def System.play (backend : Backend) (pool : Pool) :
    System ι → List (Event ι) → List (Moment ι) × System ι
  | system, [] => ([], system)
  | system, event :: events =>
      match system.step? backend pool event with
      | none => play backend pool system events
      | some next =>
          let (moments, last) := play backend pool next events
          (⟨system, event, next⟩ :: moments, last)

variable {backend : Backend} {pool : Pool} {settings : PoolSettings}

/-- Every schedule makes a run. -/
theorem Run.play (system : System ι) (events : List (Event ι)) :
    Run backend pool system (system.play backend pool events).1
      (system.play backend pool events).2 := by
  induction events generalizing system with
  | nil => exact .nil
  | cons event events ih =>
      rw [System.play]
      split
      · exact ih system
      · next next hstep => exact .cons (System.step_of_step? hstep) (ih next)

/-- The events of a run that a schedule makes are those of the schedule. -/
theorem System.event_mem_of_play {system : System ι} {events : List (Event ι)} {moment : Moment ι}
    (hmem : moment ∈ (system.play backend pool events).1) : moment.event ∈ events := by
  induction events generalizing system with
  | nil => cases hmem
  | cons event events ih =>
      rw [System.play] at hmem
      split at hmem
      · exact List.mem_cons_of_mem _ (ih hmem)
      · obtain rfl | hmem := List.mem_cons.1 hmem
        · exact List.mem_cons_self
        · exact List.mem_cons_of_mem _ (ih hmem)

/-- A run whose moments are split is two runs. -/
theorem Run.of_append {system last : System ι} {earlier later : List (Moment ι)}
    (hrun : Run backend pool system (earlier ++ later) last) :
    ∃ middle, Run backend pool system earlier middle ∧ Run backend pool middle later last := by
  induction earlier generalizing system with
  | nil => exact ⟨system, .nil, hrun⟩
  | cons moment earlier ih =>
      cases hrun with
      | cons hstep hrest =>
          obtain ⟨middle, hearlier, hlater⟩ := ih hrest
          exact ⟨middle, .cons hstep hearlier, hlater⟩

/-- What every moment of a run keeps up holds throughout the run. -/
theorem Run.invariant {system last : System ι} {moments : List (Moment ι)}
    (hrun : Run backend pool system moments last) (holds : System ι → Prop) (hstart : holds system)
    (hkeep : ∀ moment ∈ moments, holds moment.before → holds moment.after) :
    holds last ∧ ∀ moment ∈ moments, holds moment.before := by
  induction hrun with
  | nil => exact ⟨hstart, fun moment hmem => by cases hmem⟩
  | cons hstep hrest ih =>
      obtain ⟨hlast, hmoments⟩ := ih (hkeep _ List.mem_cons_self hstart)
        fun moment hmem => hkeep moment (List.mem_cons_of_mem _ hmem)
      refine ⟨hlast, ?_⟩
      intro moment hmem
      obtain rfl | hmem := List.mem_cons.1 hmem
      · exact hstart
      · exact hmoments moment hmem

omit [DecidableEq ι] in
/-- If something is true of some moments of a run, it is true of a first one. -/
theorem exists_first {p : Moment ι → Prop} {moments : List (Moment ι)}
    (h : ∃ moment ∈ moments, p moment) :
    ∃ earlier moment later, moments = earlier ++ moment :: later ∧ p moment ∧
      ∀ moment ∈ earlier, ¬ p moment := by
  classical
  obtain ⟨moment, hmem, hmoment⟩ := h
  have hsome : (moments.find? fun moment => decide (p moment)).isSome :=
    List.find?_isSome.2 ⟨moment, hmem, decide_eq_true hmoment⟩
  obtain ⟨first, hfirst⟩ := Option.isSome_iff_exists.1 hsome
  obtain ⟨hholds, earlier, later, hmoments, hearlier⟩ := List.find?_eq_some_iff_append.1 hfirst
  refine ⟨earlier, first, later, hmoments, of_decide_eq_true hholds, ?_⟩
  intro moment hmem hp
  simpa [hp] using hearlier moment hmem

/-! ## The invariant -/

/-- The store represents an inventory, and every call has come to where its program leads. -/
structure System.Sound (backend : Backend) (settings : PoolSettings) (system : System ι) : Prop where
  represents : ∃ inventory, Represents backend settings system.store inventory
  leads : ∀ client operation thread, system.tasks client = some ⟨operation, thread⟩ →
    (operation.program (.ofSettings settings)).Leads thread

namespace System.Sound

omit [DecidableEq ι] in
/-- Nothing is stored and no call is under way. -/
theorem initial (backend : Backend) (settings : PoolSettings) :
    System.Sound backend settings ({} : System ι) where
  represents := ⟨{}, .empty backend settings⟩
  leads client operation thread htask := by cases htask

variable {system next : System ι}

/-- Another call that has come to where its program leads may be under way. -/
theorem leads_assign (h : system.Sound backend settings) (store : Store) {client : ι}
    {task? : Option Task}
    (htask? : ∀ operation thread, task? = some ⟨operation, thread⟩ →
      (operation.program (.ofSettings settings)).Leads thread) :
    ∀ other operation thread,
      ({ system with store := store }.assign client task?).tasks other = some ⟨operation, thread⟩ →
        (operation.program (.ofSettings settings)).Leads thread := by
  intro other operation thread htask
  -- The clients other than this one have come to where they were.
  by_cases hother : other = client
  · subst hother
    rw [tasks_assign_self] at htask
    exact htask? operation thread htask
  · rw [tasks_assign_of_ne _ hother] at htask
    exact h.leads other operation thread htask

section

variable (h : system.Sound backend settings) (hbackend : backend.Provided)
  (hnames : settings.accountTable ≠ settings.leaseTable) (hread : system.store.ReadsBack backend)

include h hbackend hnames hread

/-- A step of a client leaves the store alone, or is the one in which an access takes effect and comes to
its result. Only the removal of an account may come to its result in another step. -/
theorem act {inventory : Inventory}
    (hinventory : Represents backend settings system.store inventory) {client : ι} {now : Int64}
    (hstep : Step backend (.ofSettings settings) system (.act client now) next) :
    (next.store = system.store ∧ ∀ access result,
      next.tasks client = some ⟨.one access, .running (.done result)⟩ →
        ∃ id, access = .deleteAccount id) ∨
    ∃ access time, next.tasks client =
        some ⟨.one access, .running (.done (inventory.perform time access).1)⟩ ∧
      Represents backend settings next.store (inventory.perform time access).2 := by
  obtain ⟨operation, thread, thread', htask, hthread, hnext⟩ := hstep.of_act
  have hleads := h.leads client operation thread htask
  simp only [hnext]
  cases operation with
  | many search =>
      refine .inl ⟨Represents.act_search hleads hthread, ?_⟩
      rintro access result ⟨⟩
  | one access =>
      by_cases haccess : ∃ id, access = .deleteAccount id
      -- A removal that is refused goes on, and may come to its result when it reads the account.
      · obtain ⟨id, rfl⟩ := haccess
        obtain ⟨left, rfl⟩ | ⟨left, rfl⟩ | ⟨result, rfl⟩ := Pool.leads_deleteAccount hleads
        · obtain ⟨account, haccount, hfree, rfl, hstore⟩ | ⟨-, -, hstore⟩ :=
            hinventory.act_attempt hread hthread
          · refine .inr ⟨.deleteAccount id, now, ?_⟩
            rw [Inventory.perform_deleteAccount haccount hfree, hstore]
            exact ⟨rfl, hinventory.removeAccount hbackend hnames id⟩
          · refine .inl ⟨hstore, ?_⟩
            rintro access result ⟨⟩
            exact ⟨id, rfl⟩
        · refine .inl ⟨(hinventory.act_reread hread hthread).1, ?_⟩
          rintro access result ⟨⟩
          exact ⟨id, rfl⟩
        · cases hthread
      · obtain ⟨hstore, hresult⟩ | ⟨time, rfl, hafter⟩ :=
          hinventory.act_access hbackend hnames hread (fun id hid => haccess ⟨id, hid⟩) hleads hthread
        · refine .inl ⟨hstore, ?_⟩
          rintro other result ⟨⟩
          cases hresult
        · exact .inr ⟨access, time, rfl, hafter⟩

/-- Every event keeps a system sound. -/
theorem step {event : Event ι} (hstep : Step backend (.ofSettings settings) system event next) :
    next.Sound backend settings := by
  have hsystem := hstep
  cases hstep with
  | start hidle =>
      refine ⟨h.represents, h.leads_assign system.store ?_⟩
      intro operation thread htask
      cases htask
      exact Program.leads_self _
  | act htask hthread =>
      obtain ⟨inventory, hinventory⟩ := h.represents
      refine ⟨?_, h.leads_assign _ fun operation thread hnext => ?_⟩
      · obtain ⟨hstore, -⟩ | ⟨access, time, -, hafter⟩ :=
          h.act hbackend hnames hread hinventory hsystem
        · exact ⟨inventory, hstore ▸ hinventory⟩
        · exact ⟨_, hafter⟩
      · cases hnext
        exact (h.leads _ _ _ htask).step hthread
  | finish htask =>
      refine ⟨h.represents, h.leads_assign system.store ?_⟩
      intro operation thread htask
      cases htask

end

end System.Sound

/-! ## Moments of a run -/

/-- Every store of a run reads back. -/
def ReadsBackThroughout (backend : Backend) (moments : List (Moment ι)) : Prop :=
  ∀ moment ∈ moments, moment.before.store.ReadsBack backend ∧ moment.after.store.ReadsBack backend

/-- A moment is a step of a sound system, and its stores read back. -/
structure Moment.Lawful (backend : Backend) (settings : PoolSettings) (moment : Moment ι) : Prop where
  step : System.Step backend (.ofSettings settings) moment.before moment.event moment.after
  sound : moment.before.Sound backend settings
  before : moment.before.store.ReadsBack backend
  after : moment.after.store.ReadsBack backend

/-- A run of a sound system comes to a sound system, and all its moments are lawful. -/
theorem Run.sound {system last : System ι} {moments : List (Moment ι)}
    (hrun : Run backend (.ofSettings settings) system moments last)
    (h : system.Sound backend settings) (hbackend : backend.Provided)
    (hnames : settings.accountTable ≠ settings.leaseTable)
    (hread : ReadsBackThroughout backend moments) :
    last.Sound backend settings ∧ ∀ moment ∈ moments, moment.Lawful backend settings := by
  induction hrun with
  | nil => exact ⟨h, fun moment hmem => by cases hmem⟩
  | cons hstep hrest ih =>
      obtain ⟨hbefore, hafter⟩ := hread _ List.mem_cons_self
      obtain ⟨hlast, hmoments⟩ := ih (h.step hbackend hnames hbefore hstep)
        fun moment hmem => hread moment (List.mem_cons_of_mem _ hmem)
      refine ⟨hlast, ?_⟩
      intro moment hmem
      obtain rfl | hmem := List.mem_cons.1 hmem
      · exact ⟨hstep, h, hbefore, hafter⟩
      · exact hmoments moment hmem

/-- In a run from a state that was reached from an empty store all moments are lawful. -/
theorem Run.lawful {start system last : System ι} {earlier moments : List (Moment ι)}
    (hearlier : Run backend (.ofSettings settings) start earlier system)
    (hrun : Run backend (.ofSettings settings) system moments last)
    (h : start.Sound backend settings) (hbackend : backend.Provided)
    (hnames : settings.accountTable ≠ settings.leaseTable)
    (hread : ReadsBackThroughout backend (earlier ++ moments)) :
    system.Sound backend settings ∧ ∀ moment ∈ moments, moment.Lawful backend settings := by
  have hreadEarlier : ReadsBackThroughout backend earlier :=
    fun moment hmem => hread moment (List.mem_append_left _ hmem)
  have hreadLater : ReadsBackThroughout backend moments :=
    fun moment hmem => hread moment (List.mem_append_right _ hmem)
  have hsystem := (hearlier.sound h hbackend hnames hreadEarlier).1
  exact ⟨hsystem, (hrun.sound hsystem hbackend hnames hreadLater).2⟩

/-- At this moment a call of a client comes to its result. -/
def Moment.Returns (moment : Moment ι) (client : ι) (operation : Operation)
    (result : Result operation.Reply) : Prop :=
  (∃ now, moment.event = .act client now) ∧
    moment.after.tasks client = some ⟨operation, .running (.done result)⟩

omit [DecidableEq ι] in
/-- One call at most comes to its result at a moment. -/
theorem Moment.Returns.client_eq {moment : Moment ι} {client other : ι}
    {operation operation' : Operation} {result : Result operation.Reply}
    {result' : Result operation'.Reply} (h : moment.Returns client operation result)
    (hother : moment.Returns other operation' result') : client = other := by
  obtain ⟨⟨now, hevent⟩, -⟩ := h
  obtain ⟨⟨now', hevent'⟩, -⟩ := hother
  cases hevent.symm.trans hevent'
  rfl

/-- The call of a client that comes to its result at this moment, and the result. -/
def Moment.returned? (client : ι) (moment : Moment ι) :
    Option (Σ operation : Operation, Result operation.Reply) :=
  match moment.event with
  | .act actor _ =>
      if actor = client then
        (moment.after.tasks client).bind fun task =>
          task.thread.result?.map fun result => ⟨task.operation, result⟩
      else none
  | _ => none

/-- The calls of a client that come to their results in a run, and the results. -/
def returns (client : ι) (moments : List (Moment ι)) :
    List (Σ operation : Operation, Result operation.Reply) :=
  moments.filterMap (Moment.returned? client)

/-- The call that comes to its result at a moment is the one that returns then. -/
theorem Moment.returned?_eq_some {moment : Moment ι} {client : ι} {operation : Operation}
    {result : Result operation.Reply} :
    moment.returned? client = some ⟨operation, result⟩ ↔ moment.Returns client operation result := by
  unfold returned? Returns
  cases moment.event with
  | start actor operation => simp
  | finish actor => simp
  | act actor now =>
      dsimp only
      by_cases hactor : actor = client
      · subst hactor
        rw [if_pos rfl]
        refine ⟨fun hreturned => ⟨⟨now, rfl⟩, ?_⟩, fun ⟨_, htask⟩ => ?_⟩
        · obtain ⟨⟨other, thread⟩, htask, hmap⟩ := Option.bind_eq_some_iff.1 hreturned
          dsimp only at hmap
          obtain ⟨found, hresult, hsame⟩ := Option.map_eq_some_iff.1 hmap
          obtain rfl := Thread.result?_eq_some.1 hresult
          cases hsame
          exact htask
        · rw [htask]
          rfl
      · simp [hactor]

/-- The returns of a client are those of the moments. -/
theorem mem_returns {client : ι} {moments : List (Moment ι)} {operation : Operation}
    {result : Result operation.Reply} :
    ⟨operation, result⟩ ∈ returns client moments ↔
      ∃ moment ∈ moments, moment.Returns client operation result := by
  simp only [returns, List.mem_filterMap, Moment.returned?_eq_some]

/-- At this moment a client makes a step of its call. -/
def Moment.isStepOf (client : ι) (moment : Moment ι) : Bool :=
  match moment.event with
  | .act actor _ => actor = client
  | _ => false

/-- The moments at which a client makes steps of its calls. -/
def steps (client : ι) (moments : List (Moment ι)) : List (Moment ι) :=
  moments.filter (Moment.isStepOf client)

section Cons

variable {client : ι} {system next : System ι} {event : Event ι} {moments : List (Moment ι)}

/-- An event of another client is no step of the client. -/
theorem steps_cons_of_ne (hclient : event.client ≠ client) :
    steps client (⟨system, event, next⟩ :: moments) = steps client moments := by
  have hother : Moment.isStepOf client ⟨system, event, next⟩ = false := by
    cases event with
    | act actor now => exact decide_eq_false hclient
    | _ => rfl
  rw [steps, List.filter_cons, hother]
  rfl

/-- At an event of another client no call of the client comes to its result. -/
theorem returns_cons_of_ne (hclient : event.client ≠ client) :
    returns client (⟨system, event, next⟩ :: moments) = returns client moments := by
  have hother : Moment.returned? client ⟨system, event, next⟩ = none := by
    cases event with
    | act actor now => exact if_neg hclient
    | _ => rfl
  rw [returns, List.filterMap_cons, hother]
  rfl

/-- A client that acts makes a step. -/
theorem steps_cons_act {now : Int64} :
    steps client (⟨system, .act client now, next⟩ :: moments) =
      ⟨system, .act client now, next⟩ :: steps client moments :=
  List.filter_cons_of_pos (decide_eq_true rfl)

/-- A client that acts may bring its call to its result. -/
theorem returns_cons_act {now : Int64} {operation : Operation} {thread : Thread (Result operation.Reply)}
    (htask : next.tasks client = some ⟨operation, thread⟩) :
    returns client (⟨system, .act client now, next⟩ :: moments) =
      (thread.result?.map fun result => ⟨operation, result⟩).toList ++ returns client moments := by
  have hreturned : Moment.returned? client ⟨system, .act client now, next⟩ =
      thread.result?.map fun result => ⟨operation, result⟩ := by
    simp only [Moment.returned?, if_true, htask]
    rfl
  rw [returns, List.filterMap_cons, hreturned]
  cases thread.result? with
  | none => rfl
  | some result => rfl

end Cons

namespace System

/-- What reading an account gives if nothing comes between. -/
def account? (backend : Backend) (pool : Pool) (system : System ι) (id : String) :
    Result (Option Account) :=
  Pool.lift (backend.perform system.store (.get pool.accounts (Pool.accountKey id))).1
    (Pool.decode? pool.accounts)

/-- The status of the account that is read, if there is one. -/
def status? (backend : Backend) (pool : Pool) (system : System ι) (id : String) :
    Result (Option AccountStatus) :=
  (system.account? backend pool id).map (Option.map Account.status)

variable {system : System ι} {inventory : Inventory}

omit [DecidableEq ι] in
/-- The account that is read depends on the store only. -/
theorem account?_of_store_eq {next : System ι} (hstore : next.store = system.store) (id : String) :
    next.account? backend pool id = system.account? backend pool id := by
  rw [account?, account?, hstore]

omit [DecidableEq ι] in
/-- The status that is read is that of the account that is read. -/
theorem status?_of_account? {id : String} {account : Account}
    (haccount : system.account? backend pool id = .ok (some account)) :
    system.status? backend pool id = .ok (some account.status) := by
  rw [status?, haccount]
  rfl

omit [DecidableEq ι] in
/-- The account that is read is the one of the inventory that the store represents. -/
theorem account?_eq (hinventory : Represents backend settings system.store inventory)
    (hread : system.store.ReadsBack backend) (id : String) :
    system.account? backend (.ofSettings settings) id = .ok (inventory.accounts.find? id) := by
  obtain ⟨current, hfound, hperform⟩ := hinventory.accounts.perform_get hread id
  have hanswer : (backend.perform system.store
      (.get (Pool.ofSettings settings).accounts (Pool.accountKey id))).1 = .ok current :=
    congrArg Prod.fst hperform
  rw [account?, hanswer]
  exact hfound.decode? _

omit [DecidableEq ι] in
/-- The status that is read is the one in the inventory that the store represents. -/
theorem status?_eq (hinventory : Represents backend settings system.store inventory)
    (hread : system.store.ReadsBack backend) (id : String) :
    system.status? backend (.ofSettings settings) id =
      .ok ((inventory.accounts.find? id).map Account.status) := by
  rw [status?, account?_eq hinventory hread]
  rfl

end System

end AccountPool
