import AccountPool.Proofs.Pool.Operations
import AccountPool.Proofs.Store.Drain

/-!
# Programs step by step

A thread is a program that is being executed. `Thread.step` executes it up to its next call, so that other
threads may call the same store in between; at most one call is made in a step.
`Program.Leads` says where the execution of a program may have come to, whatever the store answered.
-/

namespace AccountPool

open Program (Result)

/-- How far the execution of a program has come. -/
inductive Thread (α : Type) where
  | running (program : Program α)
  /-- A table is being scanned, and some records are kept. -/
  | scanning (table : Table) (keep : Record → Bool)
      (resume : Except StoreError (List Record) → Program α) (scan : Scan) (kept : List Record)

namespace Thread

variable {σ α : Type}

/-- The result of a program that has come to its end. -/
def result? : Thread α → Option α
  | running (.done result) => some result
  | _ => none

/-- A thread has a result exactly if its program has come to its end. -/
theorem result?_eq_some {thread : Thread α} {result : α} :
    thread.result? = some result ↔ thread = .running (.done result) := by
  cases thread with
  | running program => cases program <;> simp [result?]
  | scanning => simp [result?]

/-- The next thing to do is to read the clock. -/
def readsClock : Thread α → Bool
  | running (.clock _) => true
  | _ => false

/-- One step at a given time, unless the program has come to its end. -/
def step (engine : Engine σ) (now : Int64) : Thread α → σ → Option (Thread α × σ)
  | running (.done _), _ => none
  | running (.call request resume), state =>
      let (answer, state) := engine state request
      some (running (resume answer), state)
  | running (.clock resume), state => some (running (resume now), state)
  | running (.scan table pageSize keep resume), state =>
      some (scanning table keep resume (.begin pageSize) [], state)
  | scanning table keep resume scan kept, state =>
      match scan.step (.ofEngine engine table) state with
      | (some (.record record), scan, state) =>
          some (scanning table keep resume scan (if keep record then kept ++ [record] else kept), state)
      | (some (.failure error), _, state) => some (running (resume (.error error)), state)
      | (some .finished, _, state) => some (running (resume (.ok kept)), state)
      | (none, scan, state) => some (scanning table keep resume scan kept, state)

end Thread

/-! ## Where a program may have come to -/

namespace Program

variable {σ α : Type}

/-- The execution of a program may come to a thread, whatever the store answers and the clock shows. -/
def Leads : Program α → Thread α → Prop
  | done result, thread => thread = .running (.done result)
  | call request resume, thread =>
      thread = .running (.call request resume) ∨ ∃ answer, (resume answer).Leads thread
  | clock resume, thread => thread = .running (.clock resume) ∨ ∃ now, (resume now).Leads thread
  | scan table pageSize keep resume, thread =>
      thread = .running (.scan table pageSize keep resume) ∨
        (∃ scan kept, thread = .scanning table keep resume scan kept) ∨
        ∃ answer, (resume answer).Leads thread

/-- A program that was not executed yet has come nowhere. -/
theorem leads_self (program : Program α) : program.Leads (.running program) := by
  cases program with
  | done result => rfl
  | call request resume => exact .inl rfl
  | clock resume => exact .inl rfl
  | scan table pageSize keep resume => exact .inl rfl

/-- A step leads on. -/
theorem Leads.step {engine : Engine σ} {program : Program α} {thread next : Thread α}
    {now : Int64} {state after : σ} (h : program.Leads thread)
    (hstep : thread.step engine now state = some (next, after)) : program.Leads next := by
  -- The thread is at the beginning of the program, or in what follows an answer, which is smaller.
  induction program with
  | done result =>
      obtain rfl := h
      cases hstep
  | call request resume ih =>
      obtain rfl | ⟨answer, hanswer⟩ := h
      · cases hstep
        exact .inr ⟨_, leads_self _⟩
      · exact .inr ⟨answer, ih answer hanswer⟩
  | clock resume ih =>
      obtain rfl | ⟨time, htime⟩ := h
      · cases hstep
        exact .inr ⟨_, leads_self _⟩
      · exact .inr ⟨time, ih time htime⟩
  | scan table pageSize keep resume ih =>
      obtain rfl | ⟨scan, kept, rfl⟩ | ⟨answer, hanswer⟩ := h
      · cases hstep
        exact .inr (.inl ⟨_, _, rfl⟩)
      · rw [Thread.step] at hstep
        split at hstep
        · cases hstep
          exact .inr (.inl ⟨_, _, rfl⟩)
        · cases hstep
          exact .inr (.inr ⟨_, leads_self _⟩)
        · cases hstep
          exact .inr (.inr ⟨_, leads_self _⟩)
        · cases hstep
          exact .inr (.inl ⟨_, _, rfl⟩)
      · exact .inr (.inr ⟨answer, ih answer hanswer⟩)

/-! ## Programs that only read -/

/-- A program makes no writes: its calls leave every store as it is. -/
def ReadOnly (engine : Engine σ) : Program α → Prop
  | done _ => True
  | call request resume =>
      (∀ state, (engine state request).2 = state) ∧ ∀ answer, (resume answer).ReadOnly engine
  | clock resume => ∀ now, (resume now).ReadOnly engine
  | scan table _ _ resume =>
      (∀ state limit start, (engine state (.page table limit start)).2 = state) ∧
        ∀ answer, (resume answer).ReadOnly engine

/-- A program that only reads may be continued by another one. -/
theorem ReadOnly.bind {engine : Engine σ} {β : Type} {program : Program α} {next : α → Program β}
    (h : program.ReadOnly engine) (hnext : ∀ result, (next result).ReadOnly engine) :
    (program.bind next).ReadOnly engine := by
  induction program with
  | done result => exact hnext result
  | call request resume ih => exact ⟨h.1, fun answer => ih answer (h.2 answer)⟩
  | clock resume ih => exact fun now => ih now (h now)
  | scan table pageSize keep resume ih => exact ⟨h.1, fun answer => ih answer (h.2 answer)⟩

/-- A step of a program that only reads leaves the store as it is. -/
theorem ReadOnly.step {engine : Engine σ} {program : Program α} (h : program.ReadOnly engine)
    {thread next : Thread α} (hleads : program.Leads thread) {now : Int64} {state after : σ}
    (hstep : thread.step engine now state = some (next, after)) : after = state := by
  induction program with
  | done result =>
      obtain rfl := hleads
      cases hstep
  | call request resume ih =>
      obtain rfl | ⟨answer, hanswer⟩ := hleads
      · cases hstep
        exact h.1 state
      · exact ih answer (h.2 answer) hanswer
  | clock resume ih =>
      obtain rfl | ⟨time, htime⟩ := hleads
      · cases hstep
        rfl
      · exact ih time (h time) htime
  | scan table pageSize keep resume ih =>
      obtain rfl | ⟨scan, kept, rfl⟩ | ⟨answer, hanswer⟩ := hleads
      · cases hstep
        rfl
      · have hstate := Scan.step_state h.1 scan state
        rw [Thread.step] at hstep
        split at hstep <;> next hscan =>
          cases hstep
          rw [hscan] at hstate
          exact hstate
      · exact ih answer (h.2 answer) hanswer

end Program

/-- Searches only read. -/
theorem Search.readOnly (backend : Backend) (pool : Pool) (search : Search) :
    (search.program pool).ReadOnly backend.perform := by
  have hscan {α : Type} [Entity α] (table : Table) (keep : Record → Bool) :
      (Pool.scanWhere (α := α) pool table keep).ReadOnly backend.perform :=
    ⟨fun _ _ _ => rfl, fun _ => trivial⟩
  have hfind {α : Type} [Entity α] (table : Table) (name text : String) :
      (Pool.findBy (α := α) pool table name text).ReadOnly backend.perform := by
    unfold Pool.findBy
    split
    · exact ⟨fun _ => rfl, fun _ => trivial⟩
    · exact hscan table _
  cases search with
  | listAccounts | accountsNotReady | listLeases => exact hscan _ _
  | accountsByStatus | accountsByRole | leasesByAccount | leasesByPrincipal | leasesByStatus =>
      exact hfind _ _ _
  | firstReadyAccount => exact (hfind _ _ _).bind fun _ => trivial

end AccountPool
