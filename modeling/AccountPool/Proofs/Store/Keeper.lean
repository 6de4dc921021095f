import AccountPool.Database.Connection
import AccountPool.Proofs.Pool.Files
import AccountPool.Proofs.Store.Tables
import AccountPool.Proofs.Store.Target
import AccountPool.Proofs.Store.Texts

/-!
# Writes that fail

A keeper is a way to keep records: a memory with its listed tables, a database with its transactions on
texts, a backend, or an open database file. `Keeper.Provided.careful` says what all of them have in common:
the rows change only by a write that succeeds. That nobody notices a write that failed,
`Keeper.Provided.shown_of_failed`, says more, for a failed write may leave more behind than rows.
-/

namespace AccountPool

/-- A way to keep records: it answers requests, and between two of them every table has rows. -/
structure Keeper where
  State : Type
  /-- What is kept in a row. -/
  Row : Type
  perform : Engine State
  rows : State → String → SortedMap Key Row

/-- The request may change the rows of its table. -/
def Request.writes : Request → Bool
  | put .. | update .. | delete .. => true
  | get .. | query .. | page .. => false

namespace Keeper

/-- A memory with a list of tables. -/
def memory : Keeper :=
  ⟨Store, Record, Tables.perform, Store.rows⟩

/-- A database that keeps texts of records. -/
def database (format : TextFormat) : Keeper :=
  ⟨Texts, String, Texts.perform format, Texts.rows⟩

/-- A backend. -/
def ofBackend (backend : Backend) : Keeper :=
  ⟨Store, Record, backend.perform, Store.rows⟩

/-- A database file that is open. -/
def file : Keeper :=
  ⟨Database, Record, Database.perform, fun database => database.content.store.rows⟩

/-- The keepers that a pool is used with. -/
inductive Provided : Keeper → Prop where
  | memory : Provided .memory
  | database (format : TextFormat) : Provided (.database format)
  | backend (backend : Backend) : Provided (.ofBackend backend)
  | file : Provided .file

/-- Only a write that succeeds changes rows, and a removal of nothing changes none. -/
structure Careful (keeper : Keeper) : Prop where
  rows_of_read : ∀ state request, request.writes = false →
    keeper.rows (keeper.perform state request).2 = keeper.rows state
  rows_of_error : ∀ state request error, (keeper.perform state request).1 = .error error →
    keeper.rows (keeper.perform state request).2 = keeper.rows state
  rows_of_absent : ∀ state table key condition,
    (keeper.perform state (.delete table key condition)).1 = .ok none →
      keeper.rows (keeper.perform state (.delete table key condition)).2 = keeper.rows state

end Keeper

/-! ## Backends -/

namespace Backend

variable {backend : Backend} {store : Store}

/-- A removal of nothing changes nothing. -/
theorem rows_delete_none {table : Table} {key : Key} {condition : Option Condition}
    (hnone : (backend.perform store (.delete table key condition)).1 = .ok none) :
    (backend.perform store (.delete table key condition)).2.rows = store.rows := by
  simp only [perform, delete] at hnone ⊢
  cases hguarded : backend.guarded store table (backend.address key) condition with
  | error error =>
      rw [hguarded] at hnone
      cases hnone
  | ok current =>
      rw [hguarded] at hnone
      obtain rfl : current = none := Except.ok.inj hnone
      have hfind := find?_of_guarded_none hguarded
      funext name
      refine SortedMap.ext_find? fun other => ?_
      show ((remove store table (backend.address key)).rows name).find? other = _
      rw [find?_remove]
      split
      · next hrow => rw [hrow.1, hrow.2, hfind]
      · rfl

/-- A backend changes rows only by a write that succeeds. -/
theorem careful (backend : Backend) : (Keeper.ofBackend backend).Careful where
  rows_of_read store request hread := by
    cases request with
    | get | query | page => rfl
    | put | update | delete => cases hread
  rows_of_error store request error herror :=
    congrArg Store.rows (perform_store_of_error herror)
  rows_of_absent store table key condition hnone := rows_delete_none hnone

end Backend

/-! ## Tables in memory -/

namespace Tables

variable {store : Store}

/-- A store has the rows that it has. -/
theorem sameRows_self (store : Store) : SameRows store store :=
  fun _ => rfl

/-- A write that fails may list a table but changes no rows. -/
theorem sameRows_of_error {request : Request} {error : StoreError}
    (herror : (perform store request).1 = .error error) : SameRows (perform store request).2 store := by
  obtain ⟨answer, after, after', hafter, hperform, hperform'⟩ :=
    perform_alike (sameRows_self store) request
  rw [hperform] at herror ⊢
  obtain rfl : answer = .error error := herror
  have hstore := Backend.perform_store_of_error (congrArg Prod.fst hperform')
  rw [hperform'] at hstore
  obtain rfl : after' = store := hstore
  exact hafter

/-- Tables in memory change rows only by a write that succeeds. -/
theorem careful : Keeper.memory.Careful where
  rows_of_read store request hread := by
    cases request with
    | get | query | page => rfl
    | put | update | delete => cases hread
  rows_of_error store request error herror := funext (sameRows_of_error herror)
  rows_of_absent store table key condition hnone := by
    obtain ⟨answer, after, after', hafter, hperform, hperform'⟩ :=
      perform_alike (sameRows_self store) (.delete table key condition)
    have hanswer : (perform store (.delete table key condition)).1 = .ok none := hnone
    rw [hperform] at hanswer
    obtain rfl : answer = .ok none := hanswer
    have hrows := Backend.rows_delete_none (congrArg Prod.fst hperform')
    rw [hperform'] at hrows
    show (perform store (.delete table key condition)).2.rows = store.rows
    rw [hperform]
    exact (funext hafter).trans hrows

end Tables

/-! ## Texts in a database -/

namespace Texts

variable {format : TextFormat} {texts : Texts}

/-- Checking a condition changes nothing. -/
theorem exists_run_checkRecord (format : TextFormat) (texts : Texts) (table : Table) (key : Key)
    (condition : Option Condition) :
    ∃ result, (checkRecord format table key condition).run.run texts = (result, texts) := by
  rw [checkRecord, run_bind]
  have hread : (readRecord format table key).run.run texts =
      (readText format ((texts.rows table.name).find? (Backend.columns key)), texts) := rfl
  rw [hread]
  cases readText format ((texts.rows table.name).find? (Backend.columns key)) with
  | error error => exact ⟨_, rfl⟩
  | ok current =>
      dsimp only
      split
      · exact ⟨_, rfl⟩
      · exact ⟨_, rfl⟩

/-- A write that fails changes nothing. -/
theorem perform_of_error {request : Request} (hwrites : request.writes = true) {error : StoreError}
    (herror : (perform format texts request).1 = .error error) :
    (perform format texts request).2 = texts := by
  cases request with
  | get | query | page => cases hwrites
  | put table record condition =>
      simp only [perform, put] at herror ⊢
      cases hkey : table.keyOf record with
      | error error => rfl
      | ok key =>
          simp only [hkey] at herror
          exact atomically_of_error herror
  | update | delete => exact atomically_of_error herror

/-- A look-up may make an index but changes no rows. -/
theorem rows_query (format : TextFormat) (texts : Texts) (table : Table) (name : String)
    (value : Json.Value) : (query format texts table name value).2.rows = texts.rows := by
  have hindex {next : Texts} (hnext : index format texts name = .ok next) : next.rows = texts.rows := by
    unfold index at hnext
    split at hnext
    · cases hnext
      rfl
    · cases hall : texts.all.forM fun text => discard (format.extract text name) with
      | error fault =>
          rw [hall] at hnext
          cases hnext
      | ok _ =>
          rw [hall] at hnext
          cases hnext
          rfl
  unfold query
  split
  · rfl
  · split
    · split <;> rfl
    · split
      · rfl
      · split
        · rfl
        · next hnext =>
            split
            · exact hindex hnext
            · exact hindex hnext

/-- A database changes rows only by a write that succeeds. -/
theorem careful (format : TextFormat) : (Keeper.database format).Careful where
  rows_of_read texts request hread := by
    cases request with
    | get | page => rfl
    | query table name value => exact rows_query format texts table name value
    | put | update | delete => cases hread
  rows_of_error texts request error herror := by
    cases hwrites : request.writes with
    | true => exact congrArg Texts.rows (perform_of_error hwrites herror)
    | false =>
        cases request with
        | get | page => rfl
        | query table name value => exact rows_query format texts table name value
        | put | update | delete => cases hwrites
  rows_of_absent texts table key condition hnone := by
    obtain ⟨result, hresult⟩ := exists_run_checkRecord format texts table key condition
    simp only [Keeper.database, perform, delete] at hnone ⊢
    cases result with
    | error error => rw [atomically_bind_error hresult]
    | ok current =>
        rw [atomically_bind_ok hresult] at hnone ⊢
        cases current with
        | none => rfl
        | some record => cases hnone

end Texts

/-! ## Database files -/

namespace Database

/-- A request that needs no index leaves the indexes alone. -/
theorem indexedFor_of_writes (content : DatabaseContent) {request : Request}
    (hwrites : request.writes = true) : content.indexedFor request = content := by
  have hindex : request.index? = none := by
    cases request with
    | get | query | page => cases hwrites
    | put | update | delete => rfl
  unfold DatabaseContent.indexedFor DatabaseContent.isIndexedFor
  rw [hindex]
  rfl

variable {database : Database} {request : Request}

/-- A request to a file that must not be changed changes nothing. -/
theorem perform_of_readOnly (hreadOnly : database.readOnly = true) (request : Request) :
    (database.perform request).2 = database := by
  obtain ⟨content, file, readOnly⟩ := database
  obtain rfl : readOnly = true := hreadOnly
  have hconsult : (content.consult request).2 = content := by
    unfold DatabaseContent.consult
    split
    · split <;> rfl
    · rfl
  simp only [perform, if_true, hconsult]

/-- A request to a file that may be changed is answered by the backend. -/
theorem perform_of_writable (hwritable : database.readOnly = false) (request : Request) :
    database.perform request =
      ((Backend.database.perform database.content.store request).1,
        { database with content := { database.content.indexedFor request with
          store := (Backend.database.perform database.content.store request).2 } }) := by
  simp only [perform, hwritable, Bool.false_eq_true, if_false]
  rfl

/-- A write that fails changes nothing. -/
theorem perform_of_error (hwrites : request.writes = true) {error : StoreError}
    (herror : (database.perform request).1 = .error error) : (database.perform request).2 = database := by
  cases hreadOnly : database.readOnly with
  | true => exact perform_of_readOnly hreadOnly request
  | false =>
      rw [perform_of_writable hreadOnly] at herror ⊢
      rw [Backend.perform_store_of_error herror, indexedFor_of_writes _ hwrites]

/-- A file changes rows only by a write that succeeds. -/
theorem careful : Keeper.file.Careful := by
  have hrows {database : Database} {request : Request}
      (h : (Backend.database.perform database.content.store request).2.rows =
        database.content.store.rows ∨ database.readOnly = true) :
      (database.perform request).2.content.store.rows = database.content.store.rows := by
    cases hreadOnly : database.readOnly with
    | true => rw [perform_of_readOnly hreadOnly]
    | false =>
        rw [perform_of_writable hreadOnly]
        exact h.resolve_right fun hsome => by
          rw [hreadOnly] at hsome
          cases hsome
  constructor
  · intro database request hread
    exact hrows (.inl ((Backend.careful _).rows_of_read _ request hread))
  · intro database request error herror
    cases hreadOnly : database.readOnly with
    | true => exact hrows (.inr hreadOnly)
    | false =>
        refine hrows (.inl ((Backend.careful _).rows_of_error _ request error ?_))
        rw [← herror]
        exact (congrArg Prod.fst (perform_of_writable hreadOnly request)).symm
  · intro database table key condition hnone
    cases hreadOnly : database.readOnly with
    | true => exact hrows (.inr hreadOnly)
    | false =>
        refine hrows (.inl ((Backend.careful _).rows_of_absent _ table key condition ?_))
        rw [← hnone]
        exact (congrArg Prod.fst (perform_of_writable hreadOnly _)).symm

end Database

/-! ## Failed writes are not noticed -/

namespace Keeper

variable {keeper : Keeper}

/-- Whoever keeps the records, only a write that succeeds changes rows. -/
theorem Provided.careful (h : keeper.Provided) : keeper.Careful := by
  cases h with
  | memory => exact Tables.careful
  | database format => exact Texts.careful format
  | backend backend => exact backend.careful
  | file => exact Database.careful

/-- States that cannot be told apart: after a write that failed and before it. -/
theorem Provided.exists_alike (h : keeper.Provided) :
    ∃ related, keeper.perform.Alike keeper.perform related ∧
      ∀ state request error, request.writes = true → (keeper.perform state request).1 = .error error →
        related (keeper.perform state request).2 state := by
  cases h with
  | memory =>
      -- Both are like one state of the memory that does not list tables.
      refine ⟨_, Tables.alike.trans Tables.alike.symm, ?_⟩
      intro store request error _ herror
      exact ⟨store, Tables.sameRows_of_error herror, Tables.sameRows_self store⟩
  | database format =>
      exact ⟨Eq, Engine.alike_self _, fun _ _ _ hwrites herror => Texts.perform_of_error hwrites herror⟩
  | backend backend =>
      exact ⟨Eq, Engine.alike_self _, fun _ _ _ _ herror => Backend.perform_store_of_error herror⟩
  | file =>
      exact ⟨Eq, Engine.alike_self _,
        fun _ _ _ hwrites herror => Database.perform_of_error hwrites herror⟩

/-- A write that failed is not noticed afterwards: all requests and scans, on whatever table, show what they
would have shown without the call, and every program that chooses its calls after the answers gives the
same. -/
theorem Provided.shown_of_failed (h : keeper.Provided) (state : keeper.State) {request : Request}
    (hwrites : request.writes = true) {error : StoreError}
    (herror : (keeper.perform state request).1 = .error error) :
    (∀ fuel uses, keeper.perform.shown fuel (keeper.perform state request).2 uses =
      keeper.perform.shown fuel state uses) ∧
    ∀ {α : Type} (program : Program α) (fuel : Nat) (time : Clock),
      let after := program.run keeper.perform (fun _ => fuel) (keeper.perform state request).2 time
      let before := program.run keeper.perform (fun _ => fuel) state time
      after.1 = before.1 ∧ after.2.2 = before.2.2 := by
  obtain ⟨related, halike, hfailed⟩ := h.exists_alike
  have hrelated := hfailed state request error hwrites herror
  refine ⟨fun fuel uses => halike.shown hrelated fuel uses, ?_⟩
  intro α program fuel time
  obtain ⟨result, after, after', time', -, hrun, hrun'⟩ :=
    halike.run (fun _ => fuel) (fun _ => fuel) (fun _ _ _ => rfl) program hrelated time
  simp only [hrun, hrun', and_self]

/-- A refused put leaves a table without rows behind in memory, and nobody notices. -/
theorem Provided.shown_of_failed_put :
    let table := Pool.accountTable "Accounts"
    let request : Request := .put table (Record.empty.insert Account.idName (.string "1")) (some [.present])
    let after : Store := (Keeper.memory.perform ({} : Store) request).2
    let uses : List Use := [.request (.get table ⟨"1", none⟩), .scan table 2]
    after.tables.entries.map Prod.fst = ["Accounts"] ∧
      Keeper.memory.perform.shown 5 after uses = Keeper.memory.perform.shown 5 ({} : Store) uses := by
  intro table request after uses
  have hnone : (Keeper.memory.perform ({} : Store) request).1.toOption.isNone = true := by decide +kernel
  have hrefused : ∃ error, (Keeper.memory.perform ({} : Store) request).1 = .error error := by
    cases hanswer : (Keeper.memory.perform ({} : Store) request).1 with
    | error error => exact ⟨error, rfl⟩
    | ok reply =>
        rw [hanswer] at hnone
        cases hnone
  obtain ⟨error, hrefused⟩ := hrefused
  have hlisted : (show Store from (Keeper.memory.perform ({} : Store) request).2).tables.entries.map Prod.fst =
      ["Accounts"] := by decide +kernel
  exact ⟨hlisted, (Provided.memory.shown_of_failed ({} : Store) rfl hrefused).1 5 uses⟩

end Keeper

end AccountPool
