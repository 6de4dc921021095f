import AccountPool.Proofs.Concurrent.Thread

/-!
# What one step of an operation does to the entities

While an operation is being executed, other operations may change the store between its steps. Whatever
they did, a step of the operation either leaves the store alone or is the one step in which its access
takes effect: `Represents.act_access` says so of all accesses but the removal of an account, whose steps
are given by `Represents.act_attempt` and `Represents.act_reread`.
-/

namespace AccountPool

open Program (Result)

/-- A thread that is about to call the store goes on with the answer. -/
theorem Thread.step_call {σ α : Type} {engine : Engine σ} {state after : σ} {request : Request}
    {answer : request.Answer} (hcall : engine state request = (answer, after)) (now : Int64)
    (resume : request.Answer → Program α) :
    (Thread.running (.call request resume)).step engine now state =
      some (.running (resume answer), after) := by
  simp only [step, hcall]

namespace Represents

variable {backend : Backend} {settings : PoolSettings} {store after : Store} {inventory : Inventory}
  {now : Int64}

/-- A step of a search leaves the store alone. -/
theorem act_search {search : Search} {thread next : Thread (Result search.Reply)}
    (hleads : (search.program (.ofSettings settings)).Leads thread)
    (hstep : thread.step backend.perform now store = some (next, after)) : after = store :=
  (search.readOnly backend _).step hleads hstep

/-- A step of an access to the store gives its result and does to the rows what the access does to the
entities. -/
theorem act_call (h : Represents backend settings store inventory) (hbackend : backend.Provided)
    (hnames : settings.accountTable ≠ settings.leaseTable) (hread : store.ReadsBack backend)
    {access : Access} {time : Int64}
    {settle : (access.request (.ofSettings settings) time).Answer → Result access.Reply}
    {next : Thread (Result access.Reply)}
    (hstep : (Thread.running (.call (access.request (.ofSettings settings) time)
      fun answer => .done (settle answer))).step backend.perform now store = some (next, after))
    (hsettle : ∀ answer result, access.Tells (.ofSettings settings) time answer result →
      settle answer = result) :
    next = .running (.done (inventory.perform time access).1) ∧
      Represents backend settings after (inventory.perform time access).2 := by
  obtain ⟨answer, after', hperform, hafter, htells⟩ := h.step hbackend hnames hread time access
  rw [Thread.step_call hperform now] at hstep
  cases hstep
  rw [hsettle answer _ htells]
  exact ⟨rfl, hafter⟩

/-- A step of an access other than the removal of an account leaves the store alone and goes on, or is
the step in which the access takes effect at some time and comes to its result. -/
theorem act_access (h : Represents backend settings store inventory) (hbackend : backend.Provided)
    (hnames : settings.accountTable ≠ settings.leaseTable) (hread : store.ReadsBack backend)
    {access : Access} (haccess : ∀ id, access ≠ .deleteAccount id)
    {thread next : Thread (Result access.Reply)}
    (hleads : (access.program (.ofSettings settings)).Leads thread)
    (hstep : thread.step backend.perform now store = some (next, after)) :
    (after = store ∧ next.result? = none) ∨
      ∃ time, next = .running (.done (inventory.perform time access).1) ∧
        Represents backend settings after (inventory.perform time access).2 := by
  cases access with
  | editAccount id edit =>
      rw [Access.program, AccountEdit.program_eq] at hleads
      obtain rfl | ⟨time, rfl | ⟨answer, rfl⟩⟩ := hleads
      · cases hstep
        exact .inl ⟨rfl, rfl⟩
      · exact .inr ⟨time, h.act_call hbackend hnames hread hstep fun _ _ htells => htells⟩
      · cases hstep
  | moveLease accountId principalId previous status =>
      obtain rfl | ⟨time, rfl | ⟨answer, rfl⟩⟩ := hleads
      · cases hstep
        exact .inl ⟨rfl, rfl⟩
      · exact .inr ⟨time, h.act_call hbackend hnames hread hstep fun _ _ htells => htells⟩
      · cases hstep
  | deleteAccount id => exact absurd rfl (haccess id)
  | _ =>
      obtain rfl | ⟨answer, rfl⟩ := hleads
      · exact .inr ⟨now, h.act_call hbackend hnames hread hstep fun _ _ htells => htells⟩
      · cases hstep

end Represents

/-! ## The removal of an account -/

/-- What is left of the removal of an account after an attempt was refused: the account is read, and it is
tried again if it is neither absent nor leased. -/
def Pool.reread (pool : Pool) (id : String) (attempts : Nat) : Program (Result Account) :=
  .call (.get pool.accounts (accountKey id)) fun answer =>
    match (lift answer (decode? pool.accounts) : Result (Option Account)) with
    | .error error => .done (.error error)
    | .ok none => .done (.error (.accountNotFound id))
    | .ok (some account) =>
        if account.isLeased then .done (.error (.accountLeased account))
        else pool.deleteAccount id attempts

/-- The removal of an account tries, rereads or has come to its result. -/
theorem Pool.leads_deleteAccount {pool : Pool} {id : String} {attempts : Nat}
    {thread : Thread (Result Account)} (hleads : (pool.deleteAccount id attempts).Leads thread) :
    (∃ left, thread = .running (pool.deleteAccount id (left + 1))) ∨
      (∃ left, thread = .running (pool.reread id left)) ∨
      ∃ result, thread = .running (.done result) := by
  induction attempts with
  | zero => exact .inr (.inr ⟨_, hleads⟩)
  | succ attempts ih =>
      obtain rfl | ⟨answer, hanswer⟩ := hleads
      · exact .inl ⟨attempts, rfl⟩
      · cases answer with
        | ok removed =>
            cases removed with
            | some removed => exact .inr (.inr ⟨_, hanswer⟩)
            | none => exact .inr (.inr ⟨_, hanswer⟩)
        | error error =>
            cases error with
            | conditionFailed table =>
                have hreread : (pool.reread id attempts).Leads thread := hanswer
                obtain rfl | ⟨read, hread⟩ := hreread
                · exact .inr (.inl ⟨attempts, rfl⟩)
                · dsimp only at hread
                  split at hread
                  · exact .inr (.inr ⟨_, hread⟩)
                  · exact .inr (.inr ⟨_, hread⟩)
                  · split at hread
                    · exact .inr (.inr ⟨_, hread⟩)
                    · exact ih hread
            | _ => exact .inr (.inr ⟨_, hanswer⟩)

namespace Represents

variable {backend : Backend} {settings : PoolSettings} {store after : Store} {inventory : Inventory}
  {now : Int64} {id : String} {left : Nat} {next : Thread (Result Account)}

/-- An attempt to remove an account removes its row and gives it if it is not leased. Otherwise it leaves
the store alone, and the account is read again. -/
theorem act_attempt (h : Represents backend settings store inventory) (hread : store.ReadsBack backend)
    (hstep : (Thread.running ((Pool.ofSettings settings).deleteAccount id (left + 1))).step
      backend.perform now store = some (next, after)) :
    (∃ account, inventory.accounts.find? id = some account ∧ account.isLeased = false ∧
      next = .running (.done (.ok account)) ∧
      after = Backend.remove store (Pool.ofSettings settings).accounts (backend.row Account id)) ∨
    ((∀ account, inventory.accounts.find? id = some account → account.isLeased = true) ∧
      next = .running ((Pool.ofSettings settings).reread id left) ∧ after = store) := by
  obtain ⟨account, haccount, hfree⟩ | hleased := inventory.removable_or_not id
  · obtain ⟨record, hcarries, hperform⟩ := h.perform_deleteAccount hread haccount hfree
    cases (Thread.step_call hperform now _).symm.trans hstep
    refine .inl ⟨account, haccount, hfree, ?_, rfl⟩
    simp only [hcarries.decode]
  · have hperform := h.perform_deleteAccount_refused hread hleased
    cases (Thread.step_call hperform now _).symm.trans hstep
    exact .inr ⟨hleased, rfl, rfl⟩

/-- Reading an account again leaves the store alone. The removal ends if the account is absent or leased,
and is tried again otherwise. -/
theorem act_reread (h : Represents backend settings store inventory) (hread : store.ReadsBack backend)
    (hstep : (Thread.running ((Pool.ofSettings settings).reread id left)).step backend.perform now
      store = some (next, after)) :
    after = store ∧
      next = match inventory.accounts.find? id with
        | none => .running (.done (.error (.accountNotFound id)))
        | some account =>
            if account.isLeased then .running (.done (.error (.accountLeased account)))
            else .running ((Pool.ofSettings settings).deleteAccount id left) := by
  obtain ⟨current, hfound, hperform⟩ := h.accounts.perform_get hread id
  have hdecode := hfound.decode? (Pool.ofSettings settings).accounts
  cases (Thread.step_call hperform now _).symm.trans hstep
  refine ⟨rfl, ?_⟩
  simp only [Pool.lift, hdecode]
  cases inventory.accounts.find? id with
  | none => rfl
  | some account =>
      cases hleased : account.isLeased with
      | true => simp only [hleased, if_true]
      | false => simp [hleased]

end Represents

end AccountPool
