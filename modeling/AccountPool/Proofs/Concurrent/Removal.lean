import AccountPool.Proofs.Concurrent.System

/-!
# The removal of an account under interference

The removal of an account is up to four calls of the store, and others may write between any two of them.
`Phase.Step` says what one of its steps can be, given what the account is then: an attempt removes an
account that is not leased or is refused, and after a refusal the account is read. `Removal` is any number
of such steps. `Run.removal` says that the steps of every removal are of this kind, whatever others do, and
`deleteAccount_truthful` draws the conclusions.
-/

namespace AccountPool

open Program (Result)

variable {ι : Type} {backend : Backend}

/-! ## Steps of a removal -/

namespace Moment

/-- The request that a client sends to the store at this moment. -/
def request? (client : ι) (moment : Moment ι) : Option Request :=
  match moment.before.tasks client with
  | some ⟨_, .running (.call request _)⟩ => some request
  | _ => none

/-- An account is there, its row is removed, and nothing else happens. -/
structure Removes (backend : Backend) (pool : Pool) (id : String) (account : Account)
    (moment : Moment ι) : Prop where
  before : moment.before.account? backend pool id = .ok (some account)
  after : moment.after.account? backend pool id = .ok none
  store : moment.after.store =
    Backend.remove moment.before.store pool.accounts (backend.row Account id)

/-- An account is found or missing, and nothing happens. -/
structure Sees (backend : Backend) (pool : Pool) (id : String) (found : Option Account)
    (moment : Moment ι) : Prop where
  before : moment.before.account? backend pool id = .ok found
  store : moment.after.store = moment.before.store

/-- An account is missing or leased, and nothing happens. -/
def Refuses (backend : Backend) (pool : Pool) (id : String) (moment : Moment ι) : Prop :=
  ∃ found, moment.Sees backend pool id found ∧ ∀ account, found = some account → account.status = .leased

/-- An account is found that is not leased, and nothing happens. -/
def SeesFree (backend : Backend) (pool : Pool) (id : String) (moment : Moment ι) : Prop :=
  ∃ account, moment.Sees backend pool id (some account) ∧ account.status ≠ .leased

end Moment

/-- How far the removal of an account has come: it is about to try, it is about to read the account after a
refusal, or it has a result. A number of attempts is left after the one that is made or was refused. -/
inductive Phase where
  | attempt (left : Nat)
  | reread (left : Nat)
  | done (result : Result Account)

namespace Phase

/-- The result of a removal that has one. -/
def result? : Phase → Option (Result Account)
  | done result => some result
  | _ => none

/-- The result of a removal is that of its last phase. -/
theorem result?_eq_some {phase : Phase} {result : Result Account} :
    phase.result? = some result ↔ phase = .done result := by
  cases phase with
  | done other => simp [result?]
  | _ => simp [result?]

variable (pool : Pool) (id : String)

/-- The program that is left in a phase. -/
def program : Phase → Program (Result Account)
  | attempt left => pool.deleteAccount id (left + 1)
  | reread left => pool.reread id left
  | done result => .done result

/-- A removal has a result exactly if its program has come to its end. -/
theorem result?_program (phase : Phase) :
    (Thread.running (phase.program pool id)).result? = phase.result? := by
  cases phase with
  | attempt left => rfl
  | reread left => rfl
  | done result => rfl

/-- The request of an attempt to remove an account. -/
def removal : Request :=
  .delete pool.accounts (Pool.accountKey id) (some Pool.removalGuard)

/-- The request to read an account. -/
def reading : Request :=
  .get pool.accounts (Pool.accountKey id)

/-- The requests that are sent from a phase on if every attempt is refused. -/
def requests : Phase → List Request
  | attempt left => (List.replicate (left + 1) [removal pool id, reading pool id]).flatten
  | reread left =>
      reading pool id :: (List.replicate left [removal pool id, reading pool id]).flatten
  | done _ => []

/-- A removal without a result sends another request. -/
theorem requests_pos {phase : Phase} (hphase : phase.result? = none) :
    0 < (phase.requests pool id).length := by
  cases phase with
  | attempt left => exact Nat.zero_lt_succ _
  | reread left => exact Nat.zero_lt_succ _
  | done result => cases hphase

/-- One step of a removal, from one phase to another. -/
inductive Step (backend : Backend) (pool : Pool) (id : String) (client : ι) :
    Phase → Moment ι → Phase → Prop where
  | removed {left moment account} :
      moment.request? client = some (removal pool id) →
      moment.Removes backend pool id account → account.status ≠ .leased →
      Step backend pool id client (.attempt left) moment (.done (.ok account))
  | refused {left moment} :
      moment.request? client = some (removal pool id) →
      moment.Refuses backend pool id →
      Step backend pool id client (.attempt left) moment (.reread left)
  | absent {left moment} :
      moment.request? client = some (reading pool id) →
      moment.Sees backend pool id none →
      Step backend pool id client (.reread left) moment (.done (.error (.accountNotFound id)))
  | leased {left moment account} :
      moment.request? client = some (reading pool id) →
      moment.Sees backend pool id (some account) → account.id = id → account.status = .leased →
      Step backend pool id client (.reread left) moment (.done (.error (.accountLeased account)))
  | again {left moment} :
      moment.request? client = some (reading pool id) →
      moment.SeesFree backend pool id →
      Step backend pool id client (.reread (left + 1)) moment (.attempt left)
  | exhausted {moment} :
      moment.request? client = some (reading pool id) →
      moment.SeesFree backend pool id →
      Step backend pool id client (.reread 0) moment
        (.done (.error (.store (.conditionFailed pool.accounts.name))))

end Phase

/-- Steps of a removal one after the other, from one phase to another. -/
inductive Removal (backend : Backend) (pool : Pool) (id : String) (client : ι) :
    Phase → List (Moment ι) → Phase → Prop where
  | nil {phase} : Removal backend pool id client phase [] phase
  | cons {phase moment next steps last} :
      Phase.Step backend pool id client phase moment next →
      Removal backend pool id client next steps last →
      Removal backend pool id client phase (moment :: steps) last

/-! ## What the steps tell -/

/-- From a phase on all attempts are refused, and each time the account is read after that and is found
not to be leased. -/
inductive Contended (backend : Backend) (pool : Pool) (id : String) : Phase → List (Moment ι) → Prop where
  | refused {left moment steps} :
      moment.Refuses backend pool id → Contended backend pool id (.reread left) steps →
      Contended backend pool id (.attempt left) (moment :: steps)
  | again {left moment steps} :
      moment.SeesFree backend pool id → Contended backend pool id (.attempt left) steps →
      Contended backend pool id (.reread (left + 1)) (moment :: steps)
  | exhausted {moment} :
      moment.SeesFree backend pool id → Contended backend pool id (.reread 0) [moment]

/-- The steps from a phase on justify an error. -/
inductive Justified (backend : Backend) (pool : Pool) (id : String) (phase : Phase)
    (steps : List (Moment ι)) : PoolError → Prop where
  | absent {moment} :
      moment ∈ steps → moment.before.account? backend pool id = .ok none →
      Justified backend pool id phase steps (.accountNotFound id)
  | leased {moment account} :
      moment ∈ steps → moment.before.account? backend pool id = .ok (some account) →
      account.id = id → account.status = .leased →
      Justified backend pool id phase steps (.accountLeased account)
  | contended :
      Contended backend pool id phase steps →
      Justified backend pool id phase steps (.store (.conditionFailed pool.accounts.name))

/-- What later steps justify is justified with the step before them. -/
theorem Justified.cons {pool : Pool} {id : String} {phase next : Phase} {moment : Moment ι}
    {steps : List (Moment ι)} {error : PoolError} (h : Justified backend pool id next steps error)
    (hcontended : Contended backend pool id next steps →
      Contended backend pool id phase (moment :: steps)) :
    Justified backend pool id phase (moment :: steps) error := by
  cases h with
  | absent hmem hmissing => exact .absent (List.mem_cons_of_mem _ hmem) hmissing
  | leased hmem hfound hid hleased => exact .leased (List.mem_cons_of_mem _ hmem) hfound hid hleased
  | contended h => exact .contended (hcontended h)

/-- What the removal of an account gives if nothing happens to the account meanwhile. -/
def quietRemoval (id : String) : Option Account → Result Account
  | none => .error (.accountNotFound id)
  | some account =>
      if account.status = .leased then .error (.accountLeased account) else .ok account

/-- Every step of a client finds an account as the step before it left it, and the first one finds it as it
was. -/
inductive Undisturbed (backend : Backend) (pool : Pool) (id : String) :
    Result (Option Account) → List (Moment ι) → Prop where
  | nil {found} : Undisturbed backend pool id found []
  | cons {found} {moment : Moment ι} {steps} :
      moment.before.account? backend pool id = found →
      Undisturbed backend pool id (moment.after.account? backend pool id) steps →
      Undisturbed backend pool id found (moment :: steps)

section Removal

variable {pool : Pool} {id : String} {client : ι} {phase next last : Phase} {moment : Moment ι}
  {steps : List (Moment ι)}

namespace Phase.Step

/-- A step sends the first of the requests that may be sent. -/
theorem sends_first (hstep : Phase.Step backend pool id client phase moment next) :
    ∃ request, moment.request? client = some request ∧
      request :: next.requests pool id <+: phase.requests pool id := by
  cases hstep with
  | removed hrequest | absent hrequest | leased hrequest | exhausted hrequest =>
      exact ⟨_, hrequest, List.cons_prefix_cons.2 ⟨rfl, List.nil_prefix⟩⟩
  | refused hrequest | again hrequest => exact ⟨_, hrequest, List.prefix_rfl⟩

/-- A step changes nothing, or it removes an account that is not leased and gives it. -/
theorem idle_or_removes (hstep : Phase.Step backend pool id client phase moment next) :
    (moment.after.store = moment.before.store ∧ ∀ account, next ≠ .done (.ok account)) ∨
      ∃ account, next = .done (.ok account) ∧ moment.Removes backend pool id account ∧
        account.status ≠ .leased := by
  cases hstep with
  | removed _ hremoves hfree => exact .inr ⟨_, rfl, hremoves, hfree⟩
  | refused _ hrefuses =>
      obtain ⟨found, hsees, -⟩ := hrefuses
      exact .inl ⟨hsees.store, by simp⟩
  | absent _ hsees | leased _ hsees => exact .inl ⟨hsees.store, by simp⟩
  | again _ hfree | exhausted _ hfree =>
      obtain ⟨account, hsees, -⟩ := hfree
      exact .inl ⟨hsees.store, by simp⟩

end Phase.Step

namespace Removal

/-- There are no steps after the result. -/
theorem of_done {result : Result Account} (h : Removal backend pool id client (.done result) steps last) :
    steps = [] ∧ last = .done result := by
  cases h with
  | nil => exact ⟨rfl, rfl⟩
  | cons hstep => cases hstep

/-- The requests are sent in order, and those of the last phase are still to be sent. -/
theorem requests_in_order (h : Removal backend pool id client phase steps last) :
    steps.map (Moment.request? client) <+: (phase.requests pool id).map some ∧
      steps.length + (last.requests pool id).length ≤ (phase.requests pool id).length := by
  induction h with
  | nil => simp
  | cons hstep _ ih =>
      obtain ⟨request, hrequest, hsent⟩ := hstep.sends_first
      have hlength := hsent.length_le
      refine ⟨?_, ?_⟩
      · rw [List.map_cons, hrequest]
        exact (List.cons_prefix_cons.2 ⟨rfl, ih.1⟩).trans (hsent.map some)
      · simp only [List.length_cons] at hlength ⊢
        omega

/-- A removal that gives an account ends with the step at which it removes it, and changes nothing
before. -/
theorem removes (h : Removal backend pool id client phase steps last) {account : Account}
    (hlast : last = .done (.ok account)) :
    phase = .done (.ok account) ∨ ∃ before moment, steps = before ++ [moment] ∧
      (∀ moment ∈ before, moment.after.store = moment.before.store) ∧
      moment.Removes backend pool id account ∧ account.status ≠ .leased := by
  induction h with
  | nil => exact .inl hlast
  | cons hstep hrest ih =>
      obtain ⟨hidle, hnext⟩ | ⟨removed, rfl, hremoves, hfree⟩ := hstep.idle_or_removes
      · obtain hdone | ⟨before, moment, rfl, hbefore, hmoment⟩ := ih hlast
        · exact absurd hdone (hnext account)
        · exact .inr ⟨_ :: before, moment, rfl, List.forall_mem_cons.2 ⟨hidle, hbefore⟩, hmoment⟩
      · obtain ⟨rfl, hsame⟩ := hrest.of_done
        cases hsame.symm.trans hlast
        exact .inr ⟨[], _, rfl, by simp, hremoves, hfree⟩

/-- A removal that gives no account changes nothing. -/
theorem idle (h : Removal backend pool id client phase steps last)
    (hlast : ∀ account, last ≠ .done (.ok account)) :
    ∀ moment ∈ steps, moment.after.store = moment.before.store := by
  induction h with
  | nil => simp
  | cons hstep hrest ih =>
      obtain ⟨hidle, -⟩ | ⟨removed, rfl, -, -⟩ := hstep.idle_or_removes
      · exact List.forall_mem_cons.2 ⟨hidle, ih hlast⟩
      · exact absurd hrest.of_done.2 (hlast removed)

/-- A removal that is not over gives an account exactly if it removes it. -/
theorem gives_iff (h : Removal backend pool id client phase steps last) (hphase : phase.result? = none)
    (account : Account) :
    last = .done (.ok account) ↔ ∃ moment ∈ steps, moment.Removes backend pool id account := by
  have hrun {other : Account} (hother : last = .done (.ok other)) :
      ∃ before moment, steps = before ++ [moment] ∧
        (∀ moment ∈ before, moment.after.store = moment.before.store) ∧
        moment.Removes backend pool id other ∧ other.status ≠ .leased := by
    obtain rfl | hremoves := h.removes hother
    · cases hphase
    · exact hremoves
  constructor
  · intro hlast
    obtain ⟨before, moment, rfl, -, hremoves, -⟩ := hrun hlast
    exact ⟨moment, by simp, hremoves⟩
  · rintro ⟨moment, hmem, hremoves⟩
    -- A moment that changes nothing is not one at which an account goes.
    have hchanged : moment.after.store ≠ moment.before.store := by
      intro hstore
      have hsame : moment.after.account? backend pool id = moment.before.account? backend pool id :=
        System.account?_of_store_eq hstore id
      rw [hremoves.before, hremoves.after] at hsame
      cases hsame
    by_cases hlast : ∃ other, last = .done (.ok other)
    · obtain ⟨other, hother⟩ := hlast
      obtain ⟨before, final, rfl, hbefore, hfinal, -⟩ := hrun hother
      obtain hmem | hmem := List.mem_append.1 hmem
      · exact absurd (hbefore moment hmem) hchanged
      · obtain rfl := List.mem_singleton.1 hmem
        cases hfinal.before.symm.trans hremoves.before
        exact hother
    · exact absurd (h.idle (fun other hother => hlast ⟨other, hother⟩) moment hmem) hchanged

/-- A removal that is not over justifies its errors. -/
theorem justified (h : Removal backend pool id client phase steps last) {error : PoolError}
    (hlast : last = .done (.error error)) :
    phase = .done (.error error) ∨ Justified backend pool id phase steps error := by
  induction h with
  | nil => exact .inl hlast
  | cons hstep hrest ih =>
      refine .inr ?_
      cases hstep with
      | removed =>
          cases hrest.of_done.2.symm.trans hlast
      | refused _ hrefuses =>
          obtain hdone | hjustified := ih hlast
          · cases hdone
          · exact hjustified.cons (.refused hrefuses)
      | absent _ hsees =>
          cases hrest.of_done.2.symm.trans hlast
          exact .absent List.mem_cons_self hsees.before
      | leased _ hsees hid hleased =>
          cases hrest.of_done.2.symm.trans hlast
          exact .leased List.mem_cons_self hsees.before hid hleased
      | again _ hfree =>
          obtain hdone | hjustified := ih hlast
          · cases hdone
          · exact hjustified.cons (.again hfree)
      | exhausted _ hfree =>
          obtain ⟨rfl, hsame⟩ := hrest.of_done
          cases hsame.symm.trans hlast
          exact .contended (.exhausted hfree)

/-- A removal that is not disturbed gives what the account that it finds first tells. -/
theorem undisturbed {left : Nat} {result : Result Account}
    (h : Removal backend pool id client (.attempt left) steps (.done result)) {found : Option Account}
    (hsteps : Undisturbed backend pool id (.ok found) steps) : result = quietRemoval id found := by
  cases h with
  | cons hfirst hrest =>
    cases hsteps with
    | cons hbefore hsteps =>
      cases hfirst with
      | removed _ hremoves hfree =>
          cases hrest.of_done.2
          cases hremoves.before.symm.trans hbefore
          exact (if_neg hfree).symm
      | refused _ hrefuses =>
          obtain ⟨refused, hsees, hleased⟩ := hrefuses
          obtain rfl : refused = found := Except.ok.inj (hsees.before.symm.trans hbefore)
          rw [System.account?_of_store_eq hsees.store, hbefore] at hsteps
          -- The account is read as the attempt found it, so it is missing or leased.
          cases hrest with
          | cons hsecond hrest =>
            cases hsteps with
            | cons hbefore hsteps =>
              cases hsecond with
              | absent _ hsees =>
                  cases hrest.of_done.2
                  cases hsees.before.symm.trans hbefore
                  rfl
              | leased _ hsees _ hstatus =>
                  cases hrest.of_done.2
                  cases hsees.before.symm.trans hbefore
                  exact (if_pos hstatus).symm
              | again _ hfree | exhausted _ hfree =>
                  obtain ⟨account, hsees, hstatus⟩ := hfree
                  cases hsees.before.symm.trans hbefore
                  exact absurd (hleased account rfl) hstatus

end Removal

end Removal

/-! ## Every removal is of this kind -/

variable [DecidableEq ι] {settings : PoolSettings}

/-- A client whose call has come to its result makes no further steps until it starts another one. -/
theorem Run.steps_eq_nil {pool : Pool} {system last : System ι} {moments : List (Moment ι)}
    (hrun : Run backend pool system moments last) {client : ι}
    (hdone : ∀ operation thread, system.tasks client = some ⟨operation, thread⟩ →
      ∃ result, thread = .running (.done result))
    (honce : ∀ moment ∈ moments, ∀ operation, moment.event ≠ .start client operation) :
    steps client moments = [] ∧ returns client moments = [] := by
  induction hrun with
  | nil => exact ⟨rfl, rfl⟩
  | @cons system event next moments last hstep hrest ih =>
      have hmoments := fun moment hmem => honce moment (List.mem_cons_of_mem _ hmem)
      by_cases hclient : event.client = client
      · cases hstep with
        | start hidle =>
            obtain rfl : _ = client := hclient
            exact absurd rfl (honce _ List.mem_cons_self _)
        | act htask hthread =>
            obtain rfl : _ = client := hclient
            obtain ⟨result, rfl⟩ := hdone _ _ htask
            cases hthread
        | @finish actor _ _ htask =>
            obtain rfl : actor = client := hclient
            refine ih (fun operation thread hother => ?_) hmoments
            rw [System.tasks_assign_self] at hother
            cases hother
      · rw [steps_cons_of_ne hclient, returns_cons_of_ne hclient]
        exact ih (by rwa [hstep.tasks_eq hclient]) hmoments

namespace Moment.Lawful

variable {moment : Moment ι} {client : ι} {now : Int64} {id : String} {left : Nat}

/-- An attempt to remove an account removes it if it is not leased, and is refused otherwise. -/
theorem attempt (h : moment.Lawful backend settings) (hbackend : backend.Provided)
    (hnames : settings.accountTable ≠ settings.leaseTable) {next : Thread (Result Account)}
    (hthread : (Thread.running ((Pool.ofSettings settings).deleteAccount id (left + 1))).step
      backend.perform now moment.before.store = some (next, moment.after.store)) :
    (∃ account, moment.Removes backend (.ofSettings settings) id account ∧ account.status ≠ .leased ∧
      next = .running (.done (.ok account))) ∨
    (moment.Refuses backend (.ofSettings settings) id ∧
      next = .running ((Pool.ofSettings settings).reread id left)) := by
  obtain ⟨inventory, hinventory⟩ := h.sound.represents
  have hfound := System.account?_eq hinventory h.before id
  obtain ⟨account, haccount, hfree, hnext, hstore⟩ | ⟨hleased, hnext, hstore⟩ :=
    hinventory.act_attempt h.before hthread
  · have hgone := System.account?_eq (hstore ▸ hinventory.removeAccount hbackend hnames id) h.after id
    rw [SortedMap.find?_erase_self] at hgone
    rw [haccount] at hfound
    exact .inl ⟨account, ⟨hfound, hgone, hstore⟩, of_decide_eq_false hfree, hnext⟩
  · refine .inr ⟨⟨_, ⟨hfound, hstore⟩, ?_⟩, hnext⟩
    intro account haccount
    exact of_decide_eq_true (hleased account haccount)

/-- Reading the account after a refusal ends the removal if the account is missing or leased. -/
theorem reread (h : moment.Lawful backend settings) {next : Thread (Result Account)}
    (hthread : (Thread.running ((Pool.ofSettings settings).reread id left)).step
      backend.perform now moment.before.store = some (next, moment.after.store)) :
    (moment.Sees backend (.ofSettings settings) id none ∧
      next = .running (.done (.error (.accountNotFound id)))) ∨
    (∃ account, moment.Sees backend (.ofSettings settings) id (some account) ∧ account.id = id ∧
      account.status = .leased ∧ next = .running (.done (.error (.accountLeased account)))) ∨
    (moment.SeesFree backend (.ofSettings settings) id ∧
      next = .running ((Pool.ofSettings settings).deleteAccount id left)) := by
  obtain ⟨inventory, hinventory⟩ := h.sound.represents
  have hfound := System.account?_eq hinventory h.before id
  obtain ⟨hstore, rfl⟩ := hinventory.act_reread h.before hthread
  cases haccount : inventory.accounts.find? id with
  | none => exact .inl ⟨⟨haccount ▸ hfound, hstore⟩, rfl⟩
  | some account =>
      have hsees : moment.Sees backend (.ofSettings settings) id (some account) :=
        ⟨haccount ▸ hfound, hstore⟩
      cases hleased : account.isLeased with
      | true =>
          refine .inr (.inl ⟨account, hsees, hinventory.accounts.label_eq haccount, ?_, ?_⟩)
          · exact of_decide_eq_true hleased
          · simp only [hleased, if_true]
      | false =>
          refine .inr (.inr ⟨⟨account, hsees, of_decide_eq_false hleased⟩, ?_⟩)
          simp [hleased]

/-- A client that is removing an account makes a step of the removal. -/
theorem phase_step (h : moment.Lawful backend settings) (hbackend : backend.Provided)
    (hnames : settings.accountTable ≠ settings.leaseTable) (hevent : moment.event = .act client now)
    {phase : Phase} (htask : moment.before.tasks client =
      some ⟨.one (.deleteAccount id), .running (phase.program (.ofSettings settings) id)⟩) :
    ∃ next, Phase.Step backend (.ofSettings settings) id client phase moment next ∧
      moment.after.tasks client =
        some ⟨.one (.deleteAccount id), .running (next.program (.ofSettings settings) id)⟩ := by
  have hstep := h.step
  rw [hevent] at hstep
  obtain ⟨thread, hthread, hnext⟩ := hstep.of_act_task htask
  cases phase with
  | attempt left =>
      have hrequest : moment.request? client = some (Phase.removal (.ofSettings settings) id) := by
        rw [request?, htask]
        rfl
      obtain ⟨account, hremoves, hfree, rfl⟩ | ⟨hrefuses, rfl⟩ := h.attempt hbackend hnames hthread
      · exact ⟨.done (.ok account), .removed hrequest hremoves hfree, hnext⟩
      · exact ⟨.reread left, .refused hrequest hrefuses, hnext⟩
  | reread left =>
      have hrequest : moment.request? client = some (Phase.reading (.ofSettings settings) id) := by
        rw [request?, htask]
        rfl
      obtain ⟨hsees, rfl⟩ | ⟨account, hsees, hid, hleased, rfl⟩ | ⟨hfree, rfl⟩ := h.reread hthread
      · exact ⟨.done (.error (.accountNotFound id)), .absent hrequest hsees, hnext⟩
      · exact ⟨.done (.error (.accountLeased account)), .leased hrequest hsees hid hleased, hnext⟩
      · cases left with
        | zero => exact ⟨.done _, .exhausted hrequest hfree, hnext⟩
        | succ left => exact ⟨.attempt left, .again hrequest hfree, hnext⟩
  | done result => cases hthread

end Moment.Lawful

/-- The steps of a removal in a run of lawful moments are as they can be, and the call comes to the result
that they give. -/
theorem Run.removal {system last : System ι} {moments : List (Moment ι)}
    (hrun : Run backend (.ofSettings settings) system moments last) (hbackend : backend.Provided)
    (hnames : settings.accountTable ≠ settings.leaseTable)
    (hlawful : ∀ moment ∈ moments, moment.Lawful backend settings) {client : ι} {id : String}
    (phase : Phase) (hphase : phase.result? = none) (htask : system.tasks client =
      some ⟨.one (.deleteAccount id), .running (phase.program (.ofSettings settings) id)⟩)
    (honce : ∀ moment ∈ moments, ∀ operation, moment.event ≠ .start client operation) :
    ∃ final, Removal backend (.ofSettings settings) id client phase (steps client moments) final ∧
      returns client moments =
        final.result?.toList.map fun result => ⟨.one (.deleteAccount id), result⟩ := by
  -- Events of other clients keep the phase, an event of this client is a step from one to the next.
  induction hrun generalizing phase with
  | nil =>
      refine ⟨phase, .nil, ?_⟩
      rw [hphase]
      rfl
  | @cons system event next moments last hstep hrest ih =>
      have honce' := fun moment hmem => honce moment (List.mem_cons_of_mem _ hmem)
      have hmoment := hlawful _ List.mem_cons_self
      have ih := ih fun moment hmem => hlawful moment (List.mem_cons_of_mem _ hmem)
      by_cases hclient : event.client = client
      · cases event with
        | start actor operation =>
            obtain rfl : actor = client := hclient
            exact absurd rfl (honce _ List.mem_cons_self operation)
        | finish actor =>
            obtain rfl : actor = client := hclient
            cases hstep with
            | finish hdone =>
                cases phase with
                | attempt left => cases hdone.symm.trans htask
                | reread left => cases hdone.symm.trans htask
                | done result => cases hphase
        | act actor now =>
            obtain rfl : actor = client := hclient
            obtain ⟨after, hphaseStep, hnext⟩ := hmoment.phase_step hbackend hnames rfl htask
            rw [steps_cons_act, returns_cons_act hnext, Phase.result?_program]
            cases hafter : after.result? with
            | none =>
                obtain ⟨final, hremoval, hreturns⟩ := ih after hafter hnext honce'
                exact ⟨final, .cons hphaseStep hremoval, hreturns⟩
            | some result =>
                obtain rfl := Phase.result?_eq_some.1 hafter
                have hdone (operation : Operation) (thread : Thread (Result operation.Reply))
                    (hother : next.tasks actor = some ⟨operation, thread⟩) :
                    ∃ result, thread = .running (.done result) := by
                  cases hnext.symm.trans hother
                  exact ⟨result, rfl⟩
                obtain ⟨hsteps, hreturns⟩ := hrest.steps_eq_nil hdone honce'
                rw [hsteps, hreturns]
                exact ⟨.done result, .cons hphaseStep .nil, rfl⟩
      · rw [steps_cons_of_ne hclient, returns_cons_of_ne hclient]
        exact ih phase hphase ((hstep.tasks_eq hclient).trans htask) honce'

/-- If the other clients leave an account alone, a client finds it as it left it. -/
theorem Run.undisturbed {pool : Pool} {system last : System ι} {moments : List (Moment ι)}
    (hrun : Run backend pool system moments last) {client : ι} {id : String}
    (hquiet : ∀ moment ∈ moments, moment.isStepOf client = false →
      moment.after.account? backend pool id = moment.before.account? backend pool id) :
    Undisturbed backend pool id (system.account? backend pool id) (steps client moments) := by
  induction hrun with
  | nil => exact .nil
  | @cons system event next moments last hstep hrest ih =>
      have ih := ih fun moment hmem => hquiet moment (List.mem_cons_of_mem _ hmem)
      cases hown : Moment.isStepOf client ⟨system, event, next⟩ with
      | true =>
          rw [steps, List.filter_cons_of_pos hown]
          exact .cons rfl ih
      | false =>
          rw [steps, List.filter_cons_of_neg (by simp [hown]), ← hquiet _ List.mem_cons_self hown]
          exact ih

/-- The removal of an account is safe and tells the truth, whatever other clients do between its steps. It
makes at most two attempts, and has a result after four steps at the latest. It removes one account at
most, which is not leased then and is the one that it gives. Its errors are justified by what it found, and
then it changed nothing. If the others leave the account alone, the result is what the account at the start
tells. -/
theorem deleteAccount_truthful {earlier moments : List (Moment ι)} {system last : System ι} {client : ι}
    {id : String} (hbackend : backend.Provided) (hnames : settings.accountTable ≠ settings.leaseTable)
    (hearlier : Run backend (.ofSettings settings) {} earlier system)
    (hrun : Run backend (.ofSettings settings) system moments last)
    (hread : ReadsBackThroughout backend (earlier ++ moments))
    (hstarted : system.tasks client =
      some ⟨.one (.deleteAccount id), .running ((Pool.ofSettings settings).deleteAccount id)⟩)
    (honce : ∀ moment ∈ moments, ∀ operation, moment.event ≠ .start client operation) :
    let pool := Pool.ofSettings settings
    let own := steps client moments
    let Gives (result : Result Account) : Prop :=
      returns client moments = [⟨.one (.deleteAccount id), result⟩]
    (own.map (Moment.request? client) <+:
        [some (.delete pool.accounts (Pool.accountKey id) (some Pool.removalGuard)),
          some (.get pool.accounts (Pool.accountKey id)),
          some (.delete pool.accounts (Pool.accountKey id) (some Pool.removalGuard)),
          some (.get pool.accounts (Pool.accountKey id))] ∧
      ((∃ result, Gives result) ∨ returns client moments = [] ∧ own.length < 4)) ∧
    ((∀ moment ∈ own, moment.after.store = moment.before.store) ∨
      ∃ before moment account, own = before ++ [moment] ∧
        (∀ moment ∈ before, moment.after.store = moment.before.store) ∧
        moment.Removes backend pool id account ∧ account.status ≠ .leased) ∧
    (∀ account, Gives (.ok account) ↔ ∃ moment ∈ own, moment.Removes backend pool id account) ∧
    (∀ error, Gives (.error error) → Justified backend pool id (.attempt 1) own error ∧
      ∀ moment ∈ own, moment.after.store = moment.before.store) ∧
    ((∀ moment ∈ moments, moment.isStepOf client = false →
        moment.after.account? backend pool id = moment.before.account? backend pool id) →
      ∃ found, system.account? backend pool id = .ok found ∧
        ∀ result, Gives result → result = quietRemoval id found) := by
  intro pool own Gives
  obtain ⟨hsystem, hlawful⟩ :=
    hearlier.lawful hrun (.initial backend settings) hbackend hnames hread
  obtain ⟨final, hremoval, hreturns⟩ :=
    hrun.removal hbackend hnames hlawful (.attempt 1) rfl hstarted honce
  have hgives (result : Result Account) : Gives result ↔ final = .done result := by
    simp only [Gives, hreturns, ← Phase.result?_eq_some]
    cases final.result? with
    | none => simp
    | some other => simp
  obtain ⟨hrequests, hsteps⟩ := hremoval.requests_in_order
  refine ⟨⟨hrequests, ?_⟩, ?_, ?_, ?_, ?_⟩
  · cases hresult : final.result? with
    | some result => exact .inl ⟨result, (hgives result).2 (Phase.result?_eq_some.1 hresult)⟩
    | none =>
        rw [hresult] at hreturns
        have hpending : 0 < (final.requests pool id).length := Phase.requests_pos pool id hresult
        have hlength : own.length + (final.requests pool id).length ≤ 4 := hsteps
        exact .inr ⟨hreturns, by omega⟩
  · by_cases hfinal : ∃ account, final = .done (.ok account)
    · obtain ⟨account, haccount⟩ := hfinal
      obtain hdone | ⟨before, moment, hown, hbefore, hlast⟩ := hremoval.removes haccount
      · cases hdone
      · exact .inr ⟨before, moment, account, hown, hbefore, hlast⟩
    · exact .inl (hremoval.idle fun account haccount => hfinal ⟨account, haccount⟩)
  · intro account
    rw [hgives]
    exact hremoval.gives_iff rfl account
  · intro error herror
    rw [hgives] at herror
    obtain hdone | hjustified := hremoval.justified herror
    · cases hdone
    · refine ⟨hjustified, hremoval.idle ?_⟩
      intro account haccount
      cases herror.symm.trans haccount
  · intro hquiet
    obtain ⟨inventory, hinventory⟩ := hsystem.represents
    have hreads := (hearlier.invariant (fun system => system.store.ReadsBack backend)
      (Store.readsBack_empty backend)
      fun moment hmem _ => (hread moment (List.mem_append_left _ hmem)).2).1
    have hfound := System.account?_eq hinventory hreads id
    have hsteps := hrun.undisturbed hquiet
    rw [hfound] at hsteps
    refine ⟨_, hfound, ?_⟩
    intro result hresult
    rw [hgives] at hresult
    exact (hresult ▸ hremoval).undisturbed hsteps

/-- The removal of an account that is leased when it is tried first, and ready when it is tried again. -/
theorem deleteAccount_truthful_released :
    let pool := Pool.ofSettings {}
    let system : System (Fin 2) := (System.play .memory pool {}
      [.start 1 (.one (.putAccount { id := "1", status := .leased })), .act 1 0, .finish 1,
        .start 0 (.one (.deleteAccount "1"))]).2
    let moments := (system.play .memory pool
      [.act 0 1, .start 1 (.one (.editAccount "1" (.status .leased .ready))), .act 1 2, .act 1 3,
        .act 0 4, .act 0 5]).1
    ∃ account, returns 0 moments = [⟨.one (.deleteAccount "1"), .ok account⟩] ∧
      ∃ moment ∈ steps 0 moments, moment.Removes .memory pool "1" account := by
  intro pool system moments
  have hstarted : system.tasks 0 =
      some ⟨.one (.deleteAccount "1"), .running (pool.deleteAccount "1")⟩ := rfl
  have honce : ∀ moment ∈ moments, ∀ operation, moment.event ≠ .start 0 operation := by
    intro moment hmem operation hevent
    have hlisted := System.event_mem_of_play hmem
    rw [hevent] at hlisted
    simp at hlisted
  have hreturned : (returns 0 moments).length = 1 := by decide +kernel
  -- The last row of the store goes in one of the steps, so the result is not an error.
  have hchanged : (steps 0 moments).any (fun moment =>
      moment.before.store.tables.isEmpty != moment.after.store.tables.isEmpty) = true := by
    decide +kernel
  have hnames : ({} : PoolSettings).accountTable ≠ ({} : PoolSettings).leaseTable := by decide
  obtain ⟨⟨-, hend⟩, -, hremoved, herror, -⟩ := deleteAccount_truthful .memory hnames (Run.play _ _)
    (Run.play _ _) (fun _ _ => ⟨Store.readsBack_memory _, Store.readsBack_memory _⟩) hstarted honce
  obtain ⟨result, hresult⟩ | ⟨hnone, -⟩ := hend
  · cases result with
    | ok account => exact ⟨account, hresult, (hremoved account).1 hresult⟩
    | error error =>
        obtain ⟨moment, hmem, hmoment⟩ := List.any_eq_true.1 hchanged
        rw [(herror error hresult).2 moment hmem] at hmoment
        simp at hmoment
  · rw [hnone] at hreturned
    cases hreturned

end AccountPool
