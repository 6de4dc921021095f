import AccountPool.Proofs.Pool.Guarded
import AccountPool.Proofs.Store.Independence

/-!
# Rejections tell what was asked for and nothing else

A transition is rejected if there is no record, if the record lacks the attribute, or if it has another
value than the expected one. The rejection is made of the arguments of the call alone, whoever keeps the
records: `Keeper.Provided.rejections_alike` compares two calls with the same arguments on two stores that
have nothing to do with each other.
-/

namespace AccountPool

open Program (Result)

/-! ## Conditional updates that are refused -/

/-- A conditional update is refused exactly if what a look-up gives at that moment, a record or none, fails
the condition. -/
def Keeper.RefusesByLookup (keeper : Keeper) : Prop :=
  ∀ state table key assignments (condition : Condition),
    (∃ name, (keeper.perform state (.update table key assignments (some condition))).1 =
        .error (.conditionFailed name)) ↔
      ∃ current, (keeper.perform state (.get table key)).1 = .ok current ∧
        condition.evaluate current = false

namespace Backend

variable {backend : Backend}

/-- A record that cannot be read is reported as such. -/
theorem read_ne_conditionFailed (store : Store) (table : Table) (row : Key) (name : String) :
    backend.read store table row ≠ .error (.conditionFailed name) := by
  unfold read
  split
  · nofun
  · next record _ => cases backend.reread record <;> nofun

/-- A backend checks the condition of an update against the record that it looks up. -/
theorem refusesByLookup (backend : Backend) : (Keeper.ofBackend backend).RefusesByLookup := by
  intro store table key assignments condition
  show (∃ name, (backend.perform store (.update table key assignments (some condition))).1 = _) ↔
    ∃ current, backend.read store table (backend.address key) = .ok current ∧ _
  cases hread : backend.read store table (backend.address key) with
  | error error =>
      rw [perform_update_of_read_error hread]
      refine iff_of_false ?_ (by simp)
      rintro ⟨name, herror⟩
      obtain rfl : error = .conditionFailed name := Except.error.inj herror
      exact read_ne_conditionFailed store table _ name hread
  | ok current =>
      rw [perform_update_of_read hread]
      have hallows : Condition.allows (some condition) current = condition.evaluate current := rfl
      cases hevaluate : condition.evaluate current <;> simp [hallows, hevaluate]

end Backend

/-- A memory with its listed tables looks up and refuses as it would without the list. -/
theorem Tables.refusesByLookup : Keeper.memory.RefusesByLookup := by
  intro store table key assignments condition
  have hanswer (request : Request) :
      (Tables.perform store request).1 = (Backend.memory.perform store request).1 :=
    Tables.alike.answer store store (Tables.sameRows_self store) request
  show (∃ name, (Tables.perform store (.update table key assignments (some condition))).1 = _) ↔
    ∃ current, (Tables.perform store (.get table key)).1 = _ ∧ _
  rw [hanswer, hanswer]
  exact Backend.memory.refusesByLookup store table key assignments condition

namespace Texts

/-- A text that cannot be read is reported as such. -/
theorem readText_ne_conditionFailed (format : TextFormat) (held : Option String) (name : String) :
    readText format held ≠ .error (.conditionFailed name) := by
  unfold readText
  split
  · nofun
  · next text => cases format.read text <;> nofun

variable {format : TextFormat} {texts : Texts} {table : Table} {key : Key}

/-- The answer to an update of a record that can be read. -/
theorem fst_update_of_read {current : Option Record}
    (hread : readText format (filing.held texts table.name (Backend.columns key)) = .ok current)
    (assignments : Assignments) (condition : Option Condition) :
    (update format texts table key assignments condition).1 =
      if Condition.allows condition current then
        .ok ((current.getD (table.keyRecord key)).assign assignments)
      else .error (.conditionFailed table.name) := by
  have hcheck := run_checkText format texts table key condition
  rw [checkText, hread] at hcheck
  unfold update
  by_cases hallows : Condition.allows condition current = true
  · simp only [bind, Except.bind, hallows, if_true] at hcheck
    rw [if_pos hallows]
    exact congrArg Prod.fst (atomically_bind_ok hcheck)
  · simp only [bind, Except.bind, hallows] at hcheck
    rw [if_neg hallows]
    exact congrArg Prod.fst (atomically_bind_error hcheck)

/-- An update of a record that cannot be read is answered by the reason. -/
theorem fst_update_of_read_error {error : StoreError}
    (hread : readText format (filing.held texts table.name (Backend.columns key)) = .error error)
    (assignments : Assignments) (condition : Option Condition) :
    (update format texts table key assignments condition).1 = .error error := by
  have hcheck := run_checkText format texts table key condition
  rw [checkText, hread] at hcheck
  exact congrArg Prod.fst (atomically_bind_error hcheck)

/-- A record is looked up by reading the text of its row. -/
theorem fst_perform_get (format : TextFormat) (texts : Texts) (table : Table) (key : Key) :
    (perform format texts (.get table key)).1 =
      readText format (filing.held texts table.name (Backend.columns key)) :=
  rfl

/-- A database of texts checks the condition of an update against the record that it looks up. -/
theorem refusesByLookup (format : TextFormat) : (Keeper.database format).RefusesByLookup := by
  intro (texts : Texts) table key assignments condition
  show (∃ name, (update format texts table key assignments (some condition)).1 = _) ↔
    ∃ current, (perform format texts (.get table key)).1 = .ok current ∧ _
  rw [fst_perform_get]
  cases hread : readText format (filing.held texts table.name (Backend.columns key)) with
  | error error =>
      rw [fst_update_of_read_error hread]
      refine iff_of_false ?_ (by simp)
      rintro ⟨name, herror⟩
      obtain rfl : error = .conditionFailed name := Except.error.inj herror
      exact readText_ne_conditionFailed format _ name hread
  | ok current =>
      rw [fst_update_of_read hread]
      have hallows : Condition.allows (some condition) current = condition.evaluate current := rfl
      cases hevaluate : condition.evaluate current <;> simp [hallows, hevaluate]

end Texts

namespace Database

variable {database : Database} {request : Request}

/-- The answer to a request that needs no index, from a file that must not be changed: what would change rows is
refused after everything else was looked at. -/
theorem fst_perform_of_readOnly (hreadOnly : database.readOnly = true) (hindex : request.index? = none) :
    (database.perform request).1 =
      match (Backend.database.perform database.content.store request).1 with
      | .ok reply => if request.changesRows reply then .error (.engine .readOnly) else .ok reply
      | .error error => .error error := by
  have hindexed : database.content.isIndexedFor request = true := by
    rw [DatabaseContent.isIndexedFor, hindex]
    rfl
  simp only [perform, hreadOnly, if_true, DatabaseContent.consult, hindexed]
  split <;> next hperform => rw [hperform]

/-- A record can be looked up in a file whether or not the file may be changed. -/
theorem fst_perform_get (database : Database) (table : Table) (key : Key) :
    (database.perform (.get table key)).1 =
      (Backend.database.perform database.content.store (.get table key)).1 := by
  cases hreadOnly : database.readOnly with
  | false => rw [perform_of_writable hreadOnly]
  | true =>
      rw [fst_perform_of_readOnly hreadOnly rfl]
      split <;> next hget => exact hget.symm

/-- A conditional update of a file is refused whether or not the file may be changed. -/
theorem perform_eq_conditionFailed_iff (database : Database) (table : Table) (key : Key)
    (assignments : Assignments) (condition : Option Condition) (name : String) :
    (database.perform (.update table key assignments condition)).1 = .error (.conditionFailed name) ↔
      (Backend.database.perform database.content.store (.update table key assignments condition)).1 =
        .error (.conditionFailed name) := by
  cases hreadOnly : database.readOnly with
  | false => rw [perform_of_writable hreadOnly]
  | true =>
      rw [fst_perform_of_readOnly hreadOnly rfl]
      split
      · next hupdate =>
          rw [hupdate]
          exact iff_of_false nofun nofun
      · next hupdate => rw [hupdate]

/-- A database file checks the condition of an update against the record that it looks up. -/
theorem refusesByLookup : Keeper.file.RefusesByLookup := by
  intro database table key assignments condition
  have hstore := Backend.database.refusesByLookup database.content.store table key assignments condition
  refine (exists_congr (perform_eq_conditionFailed_iff database table key assignments condition)).trans
    (hstore.trans (exists_congr fun current => and_congr_left fun _ => ?_))
  exact Eq.congr_left (fst_perform_get database table key).symm

end Database

/-- Whoever keeps the records, a conditional update is refused by what can be looked up. -/
theorem Keeper.Provided.refusesByLookup {keeper : Keeper} (h : keeper.Provided) :
    keeper.RefusesByLookup := by
  cases h with
  | memory => exact Tables.refusesByLookup
  | database format => exact Texts.refusesByLookup format
  | backend backend => exact backend.refusesByLookup
  | file => exact Database.refusesByLookup

/-! ## Rejections -/

/-- A record that is no entity is not rejected. -/
theorem Pool.decode_ne_rejected {α : Type} [Entity α] (table : Table) (record : Record)
    (rejection : Rejection) : decode (α := α) table record ≠ .error (.rejected rejection) := by
  unfold decode
  cases record.toEntity (α := α) <;> nofun

namespace GuardedUpdate

/-- What a transition says when it is refused, made of its arguments. The metadata is replaced by no
transition. -/
def rejection? : GuardedUpdate → Option Rejection
  | account id (.status previous next) => some (Pool.accountStatusChange id previous next).rejection
  | account id (.policyHash previous next) => some (Pool.policyHashChange id previous next).rejection
  | account _ (.metadata _) => none
  | lease accountId principalId previous next =>
      some (Pool.leaseStatusChange accountId principalId previous next).rejection

/-- An update is rejected exactly if it is a transition whose condition has failed. -/
theorem settle_eq_rejected_iff {pool : Pool} {update : GuardedUpdate} {answer : Except StoreError Record}
    {rejection : Rejection} : update.settle pool answer = .error (.rejected rejection) ↔
      update.rejection? = some rejection ∧ ∃ name, answer = .error (.conditionFailed name) := by
  match answer with
  | .ok record => exact iff_of_false (Pool.decode_ne_rejected _ record rejection) (by simp)
  | .error (.conditionFailed name) =>
      have hrefusal : update.refusal = .rejected rejection ↔ update.rejection? = some rejection := by
        cases update with
        | account id edit =>
            cases edit with
            | status | policyHash =>
                exact ⟨fun h => congrArg some (PoolError.rejected.inj h),
                  fun h => congrArg PoolError.rejected (Option.some.inj h)⟩
            | metadata => exact iff_of_false nofun nofun
        | lease =>
            exact ⟨fun h => congrArg some (PoolError.rejected.inj h),
              fun h => congrArg PoolError.rejected (Option.some.inj h)⟩
      rw [← hrefusal]
      exact ⟨fun h => ⟨Except.error.inj h, name, rfl⟩, fun h => congrArg Except.error h.1⟩
  | .error (.missingKeyAttribute ..) | .error (.notIndexed ..) | .error (.invalidAttributeName _)
  | .error (.unreadable _) | .error (.engine _) | .error (.file ..) | .error .poisoned =>
      refine iff_of_false nofun ?_
      rintro ⟨-, name, herror⟩
      cases herror

/-- The call that an update makes at a time. -/
abbrev request (pool : Pool) (update : GuardedUpdate) (now : Int64) : Request :=
  .update (update.table pool) update.key
    (update.assigned :: update.stamps.map fun stamp => (stamp, .int64 now)) (some update.guard)

/-- The program of an update is its call and what is made of the answer. -/
theorem run_program {σ : Type} (engine : Engine σ) (pool : Pool) (update : GuardedUpdate)
    (fuel : σ → Nat) (state : σ) (time : Clock) :
    (update.program pool).run engine fuel state time =
      (some (update.settle pool (engine state (update.request pool time.now)).1),
        (engine state (update.request pool time.now)).2, time.tick) := by
  rw [program_eq]
  rfl

/-- The guard fails for a record that is not as expected and where there is no record. -/
theorem evaluate_guard_eq_false (update : GuardedUpdate) (current : Option Record) :
    update.guard.evaluate current = false ↔ ∀ record, current = some record → ¬ update.Expects record := by
  cases current with
  | none => exact iff_of_true update.evaluate_guard_none nofun
  | some record =>
      rw [← Bool.not_eq_true, evaluate_guard_some]
      exact ⟨fun hrefused _ hrecord => Option.some.inj hrecord ▸ hrefused, fun hrefused => hrefused record rfl⟩

end GuardedUpdate

namespace Keeper

variable {keeper keeper' : Keeper}

/-- Nothing has changed: every table has the rows that it had, and all that requests and scans show is what it
was. -/
def Unchanged (keeper : Keeper) (before after : keeper.State) : Prop :=
  keeper.rows after = keeper.rows before ∧
    ∀ fuel uses, keeper.perform.shown fuel after uses = keeper.perform.shown fuel before uses

/-- An update is rejected exactly if it is a transition and a look-up at that moment gives no record or one that
is not as expected. -/
theorem Provided.rejected_iff (h : keeper.Provided) (pool : Pool) (update : GuardedUpdate)
    (fuel : keeper.State → Nat) (state : keeper.State) (time : Clock) (rejection : Rejection) :
    ((update.program pool).run keeper.perform fuel state time).1 = some (.error (.rejected rejection)) ↔
      update.rejection? = some rejection ∧
        ∃ current, (keeper.perform state (.get (update.table pool) update.key)).1 = .ok current ∧
          ∀ record, current = some record → ¬ update.Expects record := by
  rw [GuardedUpdate.run_program, Option.some.injEq, GuardedUpdate.settle_eq_rejected_iff]
  have hrefused := h.refusesByLookup state (update.table pool) update.key
    (update.assigned :: update.stamps.map fun stamp => (stamp, .int64 time.now)) update.guard
  simp only [GuardedUpdate.evaluate_guard_eq_false] at hrefused
  exact and_congr_right fun _ => hrefused

/-- An update that is rejected changes nothing. -/
theorem Provided.unchanged_of_rejected (h : keeper.Provided) (pool : Pool) (update : GuardedUpdate)
    (fuel : keeper.State → Nat) (state : keeper.State) (time : Clock) {rejection : Rejection}
    (hrun : ((update.program pool).run keeper.perform fuel state time).1 =
      some (.error (.rejected rejection))) :
    keeper.Unchanged state ((update.program pool).run keeper.perform fuel state time).2.1 := by
  rw [GuardedUpdate.run_program] at hrun ⊢
  obtain ⟨-, name, herror⟩ := GuardedUpdate.settle_eq_rejected_iff.1 (Option.some.inj hrun)
  exact ⟨h.careful.rows_of_error state _ _ herror, (h.shown_of_failed state rfl herror).1⟩

/-- Two calls of a transition with the same arguments, on stores of any kinds and contents, with any table names
and clocks: if both are rejected, then in the same words and with the same fields, and neither store is changed.
A call is rejected exactly if there is no record or one that is not as expected, so the rejection does not tell
which. -/
theorem Provided.rejections_alike (h : keeper.Provided) (h' : keeper'.Provided)
    (settings settings' : PoolSettings) (update : GuardedUpdate) (fuel : keeper.State → Nat)
    (fuel' : keeper'.State → Nat) (state : keeper.State) (state' : keeper'.State) (time time' : Clock) :
    let pool := Pool.ofSettings settings
    let run := (update.program pool).run keeper.perform fuel state time
    let run' := (update.program (.ofSettings settings')).run keeper'.perform fuel' state' time'
    (∀ rejection rejection', run.1 = some (.error (.rejected rejection)) →
      run'.1 = some (.error (.rejected rejection')) →
        rejection = rejection' ∧
        (PoolError.rejected rejection).message = (PoolError.rejected rejection').message ∧
        keeper.Unchanged state run.2.1 ∧ keeper'.Unchanged state' run'.2.1) ∧
    ∀ rejection, run.1 = some (.error (.rejected rejection)) ↔
      update.rejection? = some rejection ∧
        ∃ current, (keeper.perform state (.get (update.table pool) update.key)).1 = .ok current ∧
          ∀ record, current = some record → ¬ update.Expects record := by
  intro pool run run'
  refine ⟨fun rejection rejection' hrun hrun' => ?_, h.rejected_iff pool update fuel state time⟩
  -- Both rejections are the one that is made of the arguments.
  obtain ⟨hmade, -⟩ := (h.rejected_iff pool update fuel state time rejection).1 hrun
  obtain ⟨hmade', -⟩ := (h'.rejected_iff _ update fuel' state' time' rejection').1 hrun'
  obtain rfl : rejection = rejection' := Option.some.inj (hmade.symm.trans hmade')
  exact ⟨rfl, rfl, h.unchanged_of_rejected pool update fuel state time hrun,
    h'.unchanged_of_rejected _ update fuel' state' time' hrun'⟩

/-- An account that is missing in memory and one in a database whose status is null are refused in the same
words. -/
theorem Provided.rejections_alike_null :
    let update := GuardedUpdate.account "1" (.status .ready .leased)
    let body := "\x7b\"AccountStatus\":null,\"Id\":\"1\"\x7d"
    let texts : Texts := ({} : Texts).filed "A" (SortedMap.insert {} ⟨"1", some ""⟩ body)
    let run := (update.program (.ofSettings {})).run Keeper.memory.perform (fun _ => 0) ({} : Store) ⟨5, 1⟩
    let run' := (update.program (.ofSettings { accountTable := "A" })).run (Keeper.database .json).perform
      (fun _ => 0) texts ⟨8, 2⟩
    let rejection : Rejection := ⟨"account", "status", "account 1", "Status", some "Ready", "Leased"⟩
    run.1 = some (.error (.rejected rejection)) ∧ run'.1 = some (.error (.rejected rejection)) ∧
      Keeper.memory.Unchanged ({} : Store) run.2.1 ∧
      (Keeper.database .json).Unchanged texts run'.2.1 := by
  intro update body texts run run' rejection
  have hrun : run.1 = some (.error (.rejected rejection)) := rfl
  obtain ⟨record, hread, hrefused⟩ : ∃ record, Record.read body = .ok record ∧
      update.guard.evaluate (some record) = false := by
    have hany : (Record.read body).toOption.any (fun record => !update.guard.evaluate (some record)) = true := by
      decide +kernel
    cases hread : Record.read body with
    | error fault =>
        rw [hread] at hany
        cases hany
    | ok record =>
        rw [hread] at hany
        exact ⟨record, rfl, (Bool.not_eq_true' _).mp hany⟩
  have hheld : Texts.filing.held texts "A" (Backend.columns ⟨"1", none⟩) = some body := rfl
  have hget : (Texts.perform .json texts (.get (update.table (.ofSettings { accountTable := "A" })) update.key)).1 =
      .ok (some record) := by
    rw [Texts.fst_perform_get]
    show Texts.readText .json (Texts.filing.held texts "A" (Backend.columns ⟨"1", none⟩)) = _
    rw [hheld]
    show (some <$> Record.read body).mapError _ = _
    rw [hread]
    rfl
  have hrun' : run'.1 = some (.error (.rejected rejection)) :=
    (Provided.rejected_iff (.database .json) _ update (fun _ => 0) texts ⟨8, 2⟩ rejection).2
      ⟨rfl, some record, hget, (update.evaluate_guard_eq_false _).1 hrefused⟩
  obtain ⟨hboth, -⟩ := Provided.rejections_alike .memory (.database .json) {} { accountTable := "A" } update
    (fun _ => 0) (fun _ => 0) ({} : Store) texts ⟨5, 1⟩ ⟨8, 2⟩
  obtain ⟨-, -, hunchanged, hunchanged'⟩ := hboth rejection rejection hrun hrun'
  exact ⟨hrun, hrun', hunchanged, hunchanged'⟩

end Keeper

end AccountPool
