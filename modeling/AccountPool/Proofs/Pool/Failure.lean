import AccountPool.Proofs.Pool.Operations
import AccountPool.Proofs.Store.Keeper

/-!
# Operations that fail

An operation that fails has written nothing, whatever the tables hold and whoever keeps them; the one
exception is a change or a removal that was granted and gave a record that is no entity.
`Program.Spares` says of a program that it comes to some results only if none of its calls has written, and
`Operation.spares` that every operation comes to its failures in this way.
-/

namespace AccountPool

open Program (Result)

/-- A call has changed rows: it succeeded, and there was something to do. -/
def Request.Wrote (request : Request) (answer : request.Answer) : Prop :=
  ∃ reply, answer = .ok reply ∧ request.changesRows reply = true

/-- A look-up never writes. -/
theorem Request.not_wrote_of_read {request : Request} (hread : request.writes = false)
    (answer : request.Answer) : ¬ request.Wrote answer := by
  rintro ⟨reply, -, hchanges⟩
  cases request with
  | get | query | page => cases hchanges
  | put | update | delete => cases hread

/-- A call that fails has not written. -/
theorem Request.not_wrote_error (request : Request) (error : StoreError) :
    ¬ request.Wrote (.error error) := by
  rintro ⟨reply, hreply, -⟩
  cases hreply

/-- A removal of nothing has not written. -/
theorem Request.not_wrote_delete_none (table : Table) (key : Key) (condition : Option Condition) :
    ¬ (Request.delete table key condition).Wrote (.ok none) := by
  rintro ⟨reply, hreply, hchanges⟩
  obtain rfl : none = reply := Except.ok.inj hreply
  cases hchanges

/-! ## Programs -/

namespace Program

variable {α β : Type}

/-- Whatever a program comes to, the result is not of a kind. -/
def Avoids (kind : α → Prop) : Program α → Prop
  | done result => ¬ kind result
  | call _ resume => ∀ answer, (resume answer).Avoids kind
  | clock resume => ∀ now, (resume now).Avoids kind
  | scan _ _ _ resume => ∀ answer, (resume answer).Avoids kind

/-- A program comes to results of a kind only if none of its calls has written. -/
def Spares (kind : α → Prop) : Program α → Prop
  | done _ => True
  | call request resume => ∀ answer,
      (resume answer).Spares kind ∧ (request.Wrote answer → (resume answer).Avoids kind)
  | clock resume => ∀ now, (resume now).Spares kind
  | scan _ _ _ resume => ∀ answer, (resume answer).Spares kind

variable {kind : α → Prop} {kind' : β → Prop}

/-- A program that is continued only with a result spares what its continuation may come to. -/
theorem Spares.bind {program : Program α} (h : program.Spares kind) {next : α → Program β}
    (hnext : ∀ result, (next result).Spares kind')
    (havoids : ∀ result, ¬ kind result → (next result).Avoids kind') :
    (program.bind next).Spares kind' := by
  have hafter (program : Program α) (h : program.Avoids kind) :
      (program.bind next).Avoids kind' := by
    induction program with
    | done result => exact havoids result h
    | call request resume ih => exact fun answer => ih answer (h answer)
    | clock resume ih => exact fun now => ih now (h now)
    | scan table pageSize keep resume ih => exact fun answer => ih answer (h answer)
  induction program with
  | done result => exact hnext result
  | call request resume ih =>
      exact fun answer => ⟨ih answer (h answer).1, fun hwrote => hafter _ ((h answer).2 hwrote)⟩
  | clock resume ih => exact fun now => ih now (h now)
  | scan table pageSize keep resume ih => exact fun answer => ih answer (h answer)

end Program

/-! ## Rows after a program -/

namespace Keeper.Careful

variable {keeper : Keeper} (h : keeper.Careful)

include h

/-- A call that has not written leaves all rows as they are. -/
theorem rows_of_not_wrote {state : keeper.State} {request : Request}
    (hkept : ¬ request.Wrote (keeper.perform state request).1) :
    keeper.rows (keeper.perform state request).2 = keeper.rows state := by
  cases hwrites : request.writes with
  | false => exact h.rows_of_read state request hwrites
  | true =>
      cases hanswer : (keeper.perform state request).1 with
      | error error => exact h.rows_of_error state request error hanswer
      | ok reply =>
          rw [hanswer] at hkept
          cases request with
          | get | query | page => cases hwrites
          | put | update => exact absurd ⟨reply, rfl, rfl⟩ hkept
          | delete table key condition =>
              cases reply with
              | none => exact h.rows_of_absent state table key condition hanswer
              | some record => exact absurd ⟨some record, rfl, rfl⟩ hkept

/-- A step of a scan leaves all rows as they are. -/
theorem rows_step (table : Table) (scan : Scan) (state : keeper.State) :
    keeper.rows (scan.step (.ofEngine keeper.perform table) state).2.2 = keeper.rows state := by
  have hfetch := h.rows_of_read state (.page table scan.pageSize scan.start) rfl
  rw [Scan.step]
  split
  · rfl
  · split
    · rfl
    · split
      · next page after hanswer =>
          obtain rfl : _ = after := congrArg Prod.snd hanswer
          exact hfetch
      · next error after hanswer =>
          obtain rfl : _ = after := congrArg Prod.snd hanswer
          exact hfetch

/-- A scan leaves all rows as they are. -/
theorem rows_drain (table : Table) (keep : Record → Bool) (fuel : Nat) (scan : Scan)
    (state : keeper.State) (kept : List Record) :
    keeper.rows (scan.drain (.ofEngine keeper.perform table) keep fuel state kept).2 =
      keeper.rows state := by
  induction fuel generalizing scan state kept with
  | zero => rfl
  | succ fuel ih =>
      have hstep := h.rows_step table scan state
      rw [Scan.drain]
      split <;> next hscan =>
        rw [hscan] at hstep
        first | exact (ih _ _ _).trans hstep | exact hstep

/-- A program that comes to a result of a kind that it spares leaves all rows as they are. -/
theorem rows_run {α : Type} {kind : α → Prop} {program : Program α} (hspares : program.Spares kind)
    (fuel : keeper.State → Nat) {state : keeper.State} {time : Clock} {result : α}
    (hrun : (program.run keeper.perform fuel state time).1 = some result) (hkind : kind result) :
    keeper.rows (program.run keeper.perform fuel state time).2.1 = keeper.rows state := by
  have havoids (program : Program α) (h : program.Avoids kind) (state : keeper.State) (time : Clock) :
      (program.run keeper.perform fuel state time).1 ≠ some result := by
    induction program generalizing state time with
    | done other =>
        intro hresult
        obtain rfl : other = result := Option.some.inj hresult
        exact h hkind
    | call request resume ih => exact ih _ (h _) _ _
    | clock resume ih => exact ih _ (h _) _ _
    | scan table pageSize keep resume ih =>
        rw [Program.run]
        split
        · exact ih _ (h _) _ _
        · simp
  induction program generalizing state time with
  | done other => rfl
  | call request resume ih =>
      obtain ⟨hrest, hwrote⟩ := hspares (keeper.perform state request).1
      -- Had the call written, then the program would not come to the result.
      have hkept : ¬ request.Wrote (keeper.perform state request).1 :=
        fun hwrites => havoids _ (hwrote hwrites) _ _ hrun
      exact (ih _ hrest hrun).trans (h.rows_of_not_wrote hkept)
  | clock resume ih => exact ih _ (hspares _) hrun
  | scan table pageSize keep resume ih =>
      have hdrain := h.rows_drain table keep (fuel state) (.begin pageSize) state []
      rw [Program.run] at hrun ⊢
      split at hrun <;> next hscan =>
        rw [hscan] at hdrain
        first | exact (ih _ (hspares _) hrun).trans hdrain | exact hdrain

end Keeper.Careful

/-! ## Operations -/

/-- The result is a failure, and not that a record is no entity. -/
def Program.Result.Fails {α : Type} (result : Result α) : Prop :=
  ∃ error, result = .error error ∧ ∀ table mismatch, error ≠ .undecodable table mismatch

/-- The operation looks one entity up or searches for several. -/
def Operation.reads : Operation → Bool
  | one (.getAccount _) | one (.getLease ..) | many _ => true
  | one _ => false

namespace Pool

variable {α : Type} [Entity α]

/-- Decoding a record fails in one way only. -/
theorem decode_not_fails (table : Table) (record : Record) :
    ¬ (decode (α := α) table record).Fails := by
  rintro ⟨error, herror, hother⟩
  unfold decode at herror
  cases hentity : record.toEntity (α := α) with
  | ok entity =>
      rw [hentity] at herror
      cases herror
  | error mismatch =>
      rw [hentity] at herror
      cases herror
      exact hother table.name mismatch rfl

/-- Decoding what a store replies fails in one way only. -/
theorem lift_decode?_not_fails (table : Table) (reply : Option Record) :
    ¬ (lift (.ok reply) (decode? (α := α) table)).Fails := by
  rintro ⟨error, herror, hother⟩
  cases reply with
  | none => cases herror
  | some record =>
      have hdecode := decode_not_fails (α := α) table record
      cases hentity : decode (α := α) table record with
      | ok entity =>
          simp only [lift, decode?, hentity] at herror
          cases herror
      | error failure =>
          simp only [lift, decode?, hentity] at herror
          obtain rfl : failure = error := Except.error.inj herror
          exact hdecode ⟨failure, hentity, hother⟩

/-- A program that makes one call spares the results that the call does not lead to when it has written. -/
theorem spares_call {β : Type} {kind : β → Prop} {request : Request} {settle : request.Answer → β}
    (hsettle : ∀ answer, request.Wrote answer → ¬ kind (settle answer)) :
    (Program.call request fun answer => .done (settle answer)).Spares kind :=
  fun answer => ⟨trivial, hsettle answer⟩

/-- A look-up spares all results. -/
theorem spares_get {β : Type} {kind : β → Prop} {request : Request} (hread : request.writes = false)
    (settle : request.Answer → β) :
    (Program.call request fun answer => .done (settle answer)).Spares kind :=
  spares_call fun answer hwrote => absurd hwrote (Request.not_wrote_of_read hread answer)

variable (pool : Pool)

/-- A search by scan spares all results. -/
theorem spares_scanWhere {kind : Result (List α) → Prop} (table : Table) (keep : Record → Bool) :
    (scanWhere (α := α) pool table keep).Spares kind :=
  fun _ => trivial

/-- A search by an attribute spares all results. -/
theorem spares_findBy {kind : Result (List α) → Prop} (table : Table) (name text : String) :
    (findBy (α := α) pool table name text).Spares kind := by
  unfold findBy
  split
  · exact spares_get rfl _
  · exact spares_scanWhere pool table _

/-- The removal of an account fails only if it has not removed anything: what it reads after a refusal is
not written, and it may be granted at a later attempt but does not fail then. -/
theorem spares_deleteAccount (id : String) (attempts : Nat) :
    (pool.deleteAccount id attempts).Spares Result.Fails := by
  induction attempts with
  | zero => trivial
  | succ attempts ih =>
      intro answer
      match answer with
      | .ok (some removed) => exact ⟨trivial, fun _ => decode_not_fails _ removed⟩
      | .ok none =>
          exact ⟨trivial, fun hwrote => absurd hwrote (Request.not_wrote_delete_none _ _ _)⟩
      | .error (.conditionFailed name) =>
          refine ⟨?_, fun hwrote => absurd hwrote (Request.not_wrote_error _ _)⟩
          have hget : (pool.getAccount id).Spares fun _ => True := spares_get rfl _
          refine hget.bind (fun result => ?_) fun result hresult => absurd trivial hresult
          match result with
          | .error error => trivial
          | .ok none => trivial
          | .ok (some account) =>
              show (if account.isLeased then _ else _ : Program (Result Account)).Spares _
              split
              · trivial
              · exact ih
      | .error (.missingKeyAttribute ..) | .error (.notIndexed ..) | .error (.invalidAttributeName _)
      | .error (.unreadable _) | .error (.engine _) | .error (.file ..) | .error .poisoned =>
          exact ⟨trivial, fun hwrote => absurd hwrote (Request.not_wrote_error _ _)⟩

end Pool

/-- A change of an account that wrote does not fail. -/
theorem AccountEdit.settle_not_fails {pool : Pool} {id : String} {edit : AccountEdit} {table : Table}
    {key : Key} {assignments : Assignments} {condition : Option Condition}
    {answer : (Request.update table key assignments condition).Answer}
    (hwrote : (Request.update table key assignments condition).Wrote answer) :
    ¬ (edit.settle pool id answer).Fails := by
  obtain ⟨record, rfl, -⟩ := hwrote
  cases edit <;> exact Pool.decode_not_fails _ record

/-- Searches spare all results. -/
theorem Search.spares (pool : Pool) (search : Search) {kind : Result search.Reply → Prop} :
    (search.program pool).Spares kind := by
  cases search with
  | listAccounts | accountsNotReady | listLeases => exact Pool.spares_scanWhere pool _ _
  | accountsByStatus | accountsByRole | leasesByAccount | leasesByPrincipal | leasesByStatus =>
      exact Pool.spares_findBy pool _ _ _
  | firstReadyAccount =>
      have hready : (pool.accountsByStatus .ready).Spares fun _ => True := Pool.spares_findBy pool _ _ _
      exact hready.bind (fun _ => trivial) fun result hresult => absurd trivial hresult

namespace Operation

/-- An operation that only reads spares all results. -/
theorem spares_of_reads (pool : Pool) {operation : Operation} (hreads : operation.reads = true)
    {kind : Result operation.Reply → Prop} : (operation.program pool).Spares kind := by
  cases operation with
  | many search => exact search.spares pool
  | one access =>
      cases access with
      | getAccount | getLease => exact Pool.spares_get rfl _
      | putAccount | editAccount | deleteAccount | putLease | moveLease | deleteLease => cases hreads

/-- Every operation fails only if none of its calls has written. -/
theorem spares (pool : Pool) (operation : Operation) :
    (operation.program pool).Spares Result.Fails := by
  cases operation with
  | many search => exact search.spares pool
  | one access =>
      cases access with
      | getAccount | getLease => exact Pool.spares_get rfl _
      | putAccount account =>
          refine Pool.spares_call ?_
          rintro _ ⟨reply, rfl, -⟩
          exact Pool.lift_decode?_not_fails _ reply
      | putLease lease =>
          refine Pool.spares_call ?_
          rintro _ ⟨reply, rfl, -⟩
          exact Pool.lift_decode?_not_fails _ reply
      | deleteLease accountId principalId =>
          refine Pool.spares_call ?_
          rintro _ ⟨reply, rfl, -⟩
          exact Pool.lift_decode?_not_fails _ reply
      | editAccount id edit =>
          rw [Operation.program, Access.program, AccountEdit.program_eq]
          exact fun now => Pool.spares_call fun answer hwrote => AccountEdit.settle_not_fails hwrote
      | moveLease accountId principalId previous next =>
          intro now
          refine Pool.spares_call ?_
          rintro _ ⟨record, rfl, -⟩
          exact Pool.decode_not_fails _ record
      | deleteAccount id => exact Pool.spares_deleteAccount pool id 2

end Operation

/-- Whoever keeps the records, and whatever the tables hold, an operation that fails in any way but by
finding that a record is no entity has left every row of every table as it was; so has an operation that
only reads, even if it finds that. -/
theorem Keeper.Provided.rows_of_failed {keeper : Keeper} (h : keeper.Provided) (pool : Pool)
    (operation : Operation) (fuel : keeper.State → Nat) (state : keeper.State) (time : Clock)
    {error : PoolError}
    (hrun : ((operation.program pool).run keeper.perform fuel state time).1 = some (.error error))
    (herror : (∀ table mismatch, error ≠ .undecodable table mismatch) ∨ operation.reads = true) :
    ∀ table, keeper.rows ((operation.program pool).run keeper.perform fuel state time).2.1 table =
      keeper.rows state table := by
  intro table
  obtain hother | hreads := herror
  · have hfails : Result.Fails (α := operation.Reply) (.error error) := ⟨error, rfl, hother⟩
    exact congrFun (h.careful.rows_run (operation.spares pool) fuel hrun hfails) table
  · have hspares : (operation.program pool).Spares fun _ => True :=
      Operation.spares_of_reads pool hreads
    exact congrFun (h.careful.rows_run hspares fuel hrun trivial) table

/-- A record that is no account is refused a change of status, and stays. -/
theorem Keeper.Provided.rows_of_rejected :
    let store : Store := ({} : Store).filed "Accounts"
      (SortedMap.insert {} ⟨"1", none⟩ (Record.empty.insert Account.statusName .null))
    let operation : Operation := .one (.editAccount "1" (.status .ready .leased))
    let run := (operation.program (.ofSettings {})).run Keeper.memory.perform (fun _ => 9) store ⟨5, 1⟩
    ∀ table, Keeper.memory.rows run.2.1 table = store.rows table := by
  intro store operation run
  have hrun : ((operation.program (.ofSettings {})).run Keeper.memory.perform (fun _ => 9) store
      ⟨5, 1⟩).1 = some (.error (.rejected (Pool.accountStatusChange "1" .ready .leased).rejection)) := by
    rfl
  exact Keeper.Provided.memory.rows_of_failed (.ofSettings {}) operation (fun _ => 9) store ⟨5, 1⟩ hrun
    (.inl fun _ _ hsame => by cases hsame)

end AccountPool
