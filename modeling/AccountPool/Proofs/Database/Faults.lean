import AccountPool.Proofs.Pool.Failure
import AccountPool.Proofs.Store.Alike

/-!
# Operations on database files

A database that may be changed answers like a store. One that must not be changed answers so until it is
asked for a change, and then reports a fault. Operations of the pool are over at the first fault, and after
the first write that succeeds: `Operation.stops`. Hence on a database of either kind an operation gives what
it gives on a store, unless it fails with a fault: `Program.Stops.run`.
-/

namespace AccountPool

open Program (Result)

/-! ## Programs that stop -/

namespace Program

variable {α β : Type}

/-- A program that is over when a call reports a fault, with the failure for it, and when a write
succeeds. -/
def Stops (failed : EngineFault → α) : Program α → Prop
  | done _ => True
  | call request resume =>
      (∀ fault, resume (.error (.engine fault)) = .done (failed fault)) ∧
        (request.writes = true → ∀ reply : request.Reply,
          ∃ result, resume (.ok reply) = .done result) ∧
        ∀ answer, (resume answer).Stops failed
  | clock resume => ∀ now, (resume now).Stops failed
  | scan _ _ _ resume => ∀ answer, (resume answer).Stops failed

variable {failed : EngineFault → α}

/-- A program that makes one call. -/
theorem stops_call {request : Request} {settle : request.Answer → α}
    (hfailed : ∀ fault, settle (.error (.engine fault)) = failed fault) :
    (Program.call request fun answer => .done (settle answer)).Stops failed :=
  ⟨fun fault => congrArg Program.done (hfailed fault), fun _ _ => ⟨_, rfl⟩, fun _ => trivial⟩

/-- A program that only reads is continued with another one, which is over with a failure. -/
theorem stops_read {failed' : EngineFault → β} {request : Request} {settle : request.Answer → α}
    (hread : request.writes = false) (hfailed : ∀ fault, settle (.error (.engine fault)) = failed fault)
    {next : α → Program β} (hnext : ∀ result, (next result).Stops failed')
    (hdone : ∀ fault, next (failed fault) = .done (failed' fault)) :
    ((Program.call request fun answer => .done (settle answer)).bind next).Stops failed' := by
  refine ⟨fun fault => ?_, fun hwrites => ?_, fun answer => hnext (settle answer)⟩
  · show next (settle (.error (.engine fault))) = _
    rw [hfailed, hdone]
  · rw [hread] at hwrites
    cases hwrites

end Program

namespace Operation

/-- The failure of an operation because of a fault. -/
def failed (operation : Operation) (fault : EngineFault) : Result operation.Reply :=
  .error (.store (.engine fault))

/-- The removal of an account is over at the first fault, and when it is granted. -/
theorem stops_deleteAccount (pool : Pool) (id : String) (attempts : Nat) :
    (pool.deleteAccount id attempts).Stops fun fault => .error (.store (.engine fault)) := by
  induction attempts with
  | zero => trivial
  | succ attempts ih =>
      refine ⟨fun fault => rfl, fun _ reply => ?_, fun answer => ?_⟩
      · cases reply with
        | none => exact ⟨_, rfl⟩
        | some record => exact ⟨_, rfl⟩
      match answer with
      | .ok (some removed) => trivial
      | .ok none => trivial
      | .error (.conditionFailed name) =>
          refine Program.stops_read rfl (fun fault => rfl) (fun result => ?_) fun fault => rfl
          match result with
          | .error error => trivial
          | .ok none => trivial
          | .ok (some account) =>
              show (if account.isLeased then _ else _ : Program (Result Account)).Stops _
              split
              · trivial
              · exact ih
      | .error (.missingKeyAttribute ..) | .error (.notIndexed ..) | .error (.invalidAttributeName _)
      | .error (.unreadable _) | .error (.engine _) | .error (.file ..) | .error .poisoned => trivial

/-- A search by an attribute is over at the first fault. -/
theorem stops_findBy {α : Type} [Entity α] (pool : Pool) (table : Table) (name text : String) :
    (Pool.findBy (α := α) pool table name text).Stops fun fault => .error (.store (.engine fault)) := by
  unfold Pool.findBy
  split
  · exact Program.stops_call fun fault => rfl
  · exact fun answer => trivial

/-- Every operation is over at the first fault, and after the first write that succeeds. -/
theorem stops (pool : Pool) (operation : Operation) :
    (operation.program pool).Stops operation.failed := by
  cases operation with
  | one access =>
      cases access with
      | getAccount | putAccount | getLease | putLease | deleteLease =>
          exact Program.stops_call fun fault => rfl
      | editAccount id edit =>
          rw [Operation.program, Access.program, AccountEdit.program_eq]
          refine fun now => Program.stops_call fun fault => ?_
          cases edit <;> rfl
      | moveLease => exact fun now => Program.stops_call fun fault => rfl
      | deleteAccount id => exact stops_deleteAccount pool id 2
  | many search =>
      cases search with
      | listAccounts | accountsNotReady | listLeases => exact fun answer => trivial
      | accountsByStatus | accountsByRole | leasesByAccount | leasesByPrincipal | leasesByStatus =>
          exact stops_findBy pool _ _ _
      | firstReadyAccount =>
          show (Program.bind (Pool.findBy pool _ _ _) _).Stops _
          unfold Pool.findBy
          split
          · exact Program.stops_read rfl (fun fault => rfl) (fun result => trivial) fun fault => rfl
          · exact fun answer => trivial

end Operation

/-! ## Answers of databases -/

/-- An engine of which only pages may be asked. -/
def Engine.pages {σ : Type} (engine : Engine σ) : Engine σ := fun state request =>
  match request with
  | .page table limit start => engine state (.page table limit start)
  | _ => (.error .poisoned, state)

/-- A database changes only when a write succeeds. -/
theorem Backend.perform_store_or (backend : Backend) (store : Store) (request : Request) :
    (backend.perform store request).2 = store ∨
      request.writes = true ∧ ∃ reply, (backend.perform store request).1 = .ok reply := by
  cases hwrites : request.writes with
  | false =>
      cases request with
      | get | query | page => exact .inl rfl
      | put | update | delete => cases hwrites
  | true =>
      cases hanswer : (backend.perform store request).1 with
      | ok reply => exact .inr ⟨rfl, reply, rfl⟩
      | error error => exact .inl (Backend.perform_store_of_error hanswer)

/-- What is given without a change is given in any case, if an index is there for it. -/
theorem DatabaseContent.consult_eq {content : DatabaseContent} {request : Request}
    (hindexed : content.isIndexedFor request = true)
    (hkept : ∀ reply, (Backend.database.perform content.store request).1 = .ok reply →
      request.changesRows reply = false) :
    content.consult request = ((Backend.database.perform content.store request).1, content) := by
  unfold consult
  rw [if_pos hindexed]
  generalize Backend.database.perform content.store request = performed at hkept
  obtain ⟨_ | reply, next⟩ := performed
  · rfl
  · simp only [hkept reply rfl, Bool.false_eq_true, if_false]

/-- A change is refused, and so is a new index; all else is given. -/
theorem DatabaseContent.consult_cases (content : DatabaseContent) (request : Request) :
    content.consult request = (.error (.engine .readOnly), content) ∨
      content.consult request = ((Backend.database.perform content.store request).1, content) := by
  by_cases hindexed : content.isIndexedFor request = true
  · by_cases hkept : ∀ reply, (Backend.database.perform content.store request).1 = .ok reply →
        request.changesRows reply = false
    · exact .inr (consult_eq hindexed hkept)
    · obtain ⟨reply, hreply⟩ := Classical.not_forall.1 hkept
      obtain ⟨hreply, hchanges⟩ := Classical.not_imp.1 hreply
      refine .inl ?_
      unfold consult
      rw [if_pos hindexed]
      generalize Backend.database.perform content.store request = performed at hreply
      obtain ⟨answer, next⟩ := performed
      obtain rfl : answer = .ok reply := hreply
      simp only [Bool.not_eq_false] at hchanges
      simp only [hchanges, if_true]
  · refine .inl ?_
    unfold consult
    rw [if_neg hindexed]

namespace Database

variable {database : Database}

/-- A database that must not be changed answers in the way of its content. -/
theorem perform_eq_consult (hreadOnly : database.readOnly = true) (request : Request) :
    database.perform request = ((database.content.consult request).1, database) := by
  refine Prod.ext ?_ (perform_of_readOnly hreadOnly request)
  unfold perform
  rw [hreadOnly]
  rfl

/-- Pages of a database that must not be changed are those of its store. -/
theorem alike_pages (hreadOnly : database.readOnly = true) :
    perform.pages.Alike Backend.database.perform.pages fun state store =>
      state = database ∧ store = database.content.store := by
  have hpage (table : Table) (limit : Nat) (start : Option Key) :
      database.perform (.page table limit start) =
        ((Backend.database.perform database.content.store (.page table limit start)).1, database) := by
    rw [perform_eq_consult hreadOnly, DatabaseContent.consult_eq rfl fun _ _ => rfl]
  constructor
  · rintro _ _ ⟨rfl, rfl⟩ request
    cases request with
    | page table limit start => exact congrArg Prod.fst (hpage table limit start)
    | _ => rfl
  · rintro _ _ ⟨rfl, rfl⟩ request
    cases request with
    | page table limit start => exact ⟨congrArg Prod.snd (hpage table limit start), rfl⟩
    | _ => exact ⟨rfl, rfl⟩

/-- Databases that may be changed answer like their stores. -/
theorem alike_writable (file : Option DatabaseFile) :
    perform.Alike Backend.database.perform fun database store =>
      database.readOnly = false ∧ database.file = file ∧ database.content.store = store where
  answer := by
    rintro database _ ⟨hwritable, -, rfl⟩ request
    rw [perform_of_writable hwritable]
  next := by
    rintro database _ ⟨hwritable, rfl, rfl⟩ request
    rw [perform_of_writable hwritable]
    exact ⟨hwritable, rfl, rfl⟩

end Database

/-! ## Programs on databases -/

namespace Program

variable {α : Type} {failed : EngineFault → α} {program : Program α}

/-- A program that stops gives on a database that must not be changed what it gives on its store, unless it
fails with a fault. -/
theorem Stops.run_readOnly (h : program.Stops failed) {database : Database}
    (hreadOnly : database.readOnly = true) (time : Clock) :
    (∃ fault, (program.run Database.perform (fun database => Scan.steps database.size) database time).1 =
        some (failed fault)) ∨
      ∃ result next last,
        program.run Database.perform (fun database => Scan.steps database.size) database time =
          (result, database, last) ∧
        program.run Backend.database.perform (fun store => Scan.steps store.size)
          database.content.store time = (result, next, last) := by
  induction program generalizing time with
  | done result => exact .inr ⟨_, _, _, rfl, rfl⟩
  | clock resume ih => exact ih _ (h _) _
  | scan table pageSize keep resume ih =>
      obtain ⟨answer, _, _, ⟨rfl, rfl⟩, hdrain, hdrain'⟩ := (Database.alike_pages hreadOnly).drain
        ⟨rfl, rfl⟩ table keep (Scan.steps database.size) (.begin pageSize) []
      change (Scan.begin pageSize).drain (.ofEngine Database.perform table) _ _ _ _ = _ at hdrain
      change (Scan.begin pageSize).drain (.ofEngine Backend.database.perform table) _ (Scan.steps
        (Store.size _)) _ _ = _ at hdrain'
      simp only [Program.run, hdrain, hdrain']
      cases answer with
      | none => exact .inr ⟨_, _, _, rfl, rfl⟩
      | some answer => exact ih answer (h answer) time
  | call request resume ih =>
      obtain ⟨hfault, hwrite, hrest⟩ := h
      have hanswer := DatabaseContent.consult_cases database.content request
      rw [Program.run, Program.run, Database.perform_eq_consult hreadOnly]
      obtain hrefused | hgiven := hanswer
      · rw [hrefused]
        refine .inl ⟨.readOnly, ?_⟩
        dsimp only
        rw [hfault]
        rfl
      · rw [hgiven]
        dsimp only
        obtain hkept | ⟨hwrites, reply, hreply⟩ :=
          Backend.database.perform_store_or database.content.store request
        · rw [hkept]
          exact ih _ (hrest _) time
        · -- A write that succeeds is the end, whatever has become of the store.
          obtain ⟨result, hresult⟩ := hwrite hwrites reply
          rw [hreply, hresult]
          exact .inr ⟨_, _, _, rfl, rfl⟩

/-- A program that stops gives on a database what it gives on its store, and leaves it with what becomes of
the store if it may be changed; one that must not be changed may also make it fail with a fault. -/
theorem Stops.run (h : program.Stops failed) (database : Database) (time : Clock) :
    (database.readOnly = true ∧ ∃ fault,
        (program.run Database.perform (fun database => Scan.steps database.size) database time).1 =
          some (failed fault)) ∨
      ∃ result after next last,
        program.run Database.perform (fun database => Scan.steps database.size) database time =
          (result, after, last) ∧
        program.run Backend.database.perform (fun store => Scan.steps store.size)
          database.content.store time = (result, next, last) ∧
        after.readOnly = database.readOnly ∧ after.file = database.file ∧
        (database.readOnly = false → after.content.store = next) := by
  cases hreadOnly : database.readOnly with
  | true =>
      obtain hfault | ⟨result, next, last, hrun, hrun'⟩ := h.run_readOnly hreadOnly time
      · exact .inl ⟨rfl, hfault⟩
      · exact .inr ⟨result, database, next, last, hrun, hrun', hreadOnly, rfl, nofun⟩
  | false =>
      obtain ⟨result, after, next, last, ⟨hafter, hfile, hnext⟩, hrun, hrun'⟩ :=
        (Database.alike_writable database.file).run (fun database => Scan.steps database.size)
          (fun store => Scan.steps store.size) (fun _ _ hrelated => congrArg _ (congrArg _ hrelated.2.2))
          program ⟨hreadOnly, rfl, rfl⟩ time
      exact .inr ⟨result, after, next, last, hrun, hrun', hafter, hfile, fun _ => hnext⟩

end Program

end AccountPool
