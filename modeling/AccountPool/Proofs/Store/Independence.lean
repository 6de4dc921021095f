import AccountPool.Proofs.Store.Keeper

/-!
# Writes to different rows

A write reads one row, and all that it does is to keep this row, to fill or to empty it. `Engine.Rowwise`
says so of an engine, with the answer and the change as functions of what the row holds; backends and
databases of texts are such engines. So two writes to different rows can be made in either order,
`Engine.Rowwise.independent`, and whoever keeps the records nobody can tell afterwards in which order they
were made, `Keeper.Addresses.shown_of_apart`.
-/

namespace AccountPool

/-! ## One row of a table -/

namespace SortedMap

variable {κ ν : Type} [Ord κ] [Std.LawfulEqOrd κ] [Std.TransOrd κ]

/-- The map with something under a key, or with nothing. -/
def set (map : SortedMap κ ν) (key : κ) : Option ν → SortedMap κ ν
  | some value => map.insert key value
  | none => map.erase key

/-- A key that was set holds the new content, and every other one is as before. -/
theorem find?_set [DecidableEq κ] (map : SortedMap κ ν) (key other : κ) (content : Option ν) :
    (map.set key content).find? other = if other = key then content else map.find? other := by
  cases content with
  | some value => exact find?_insert map key other value
  | none => exact find?_erase map key other

/-- Different keys can be set in either order. -/
theorem set_comm [DecidableEq κ] (map : SortedMap κ ν) {key other : κ} (hne : key ≠ other)
    (content content' : Option ν) :
    (map.set key content).set other content' = (map.set other content').set key content := by
  refine ext_find? fun sought => ?_
  simp only [find?_set]
  by_cases hother : sought = other
  · subst hother
    rw [if_pos rfl, if_neg hne.symm, if_pos rfl]
  · rw [if_neg hother, if_neg hother]

end SortedMap

/-- What a write does to its row. -/
inductive RowChange (ρ : Type) where
  | keep
  /-- The row holds something from now on, or nothing. -/
  | set (content : Option ρ)

/-- States with rows of tables in which the rows of one table can be replaced. -/
structure Filing (σ ρ : Type) where
  rows : σ → String → SortedMap Key ρ
  /-- The state with other rows under a table name. -/
  file : σ → String → SortedMap Key ρ → σ
  rows_file : ∀ state name filed other,
    rows (file state name filed) other = if other = name then filed else rows state other
  file_file : ∀ state name filed filed', file (file state name filed) name filed' = file state name filed'
  file_comm : ∀ state {name other}, name ≠ other → ∀ filed filed',
    file (file state name filed) other filed' = file (file state other filed') name filed

namespace Filing

variable {σ ρ : Type} (filing : Filing σ ρ)

/-- What a row holds. -/
def held (state : σ) (name : String) (row : Key) : Option ρ :=
  (filing.rows state name).find? row

/-- The state after a row was changed. A row that is kept leaves the whole state as it is. -/
def change (state : σ) (name : String) (row : Key) : RowChange ρ → σ
  | .keep => state
  | .set content => filing.file state name ((filing.rows state name).set row content)

/-- A change leaves the other rows alone. -/
theorem held_change {name other : String} {row row' : Key} (hapart : name = other → row ≠ row')
    (state : σ) (change : RowChange ρ) :
    filing.held (filing.change state name row change) other row' = filing.held state other row' := by
  cases change with
  | keep => rfl
  | set content =>
      rw [held, Filing.change, rows_file]
      split
      · next hname =>
          rw [SortedMap.find?_set, if_neg (hapart hname.symm).symm, hname]
          rfl
      · rfl

/-- Different rows can be changed in either order. -/
theorem change_comm {name other : String} {row row' : Key} (hapart : name = other → row ≠ row')
    (state : σ) (change change' : RowChange ρ) :
    filing.change (filing.change state name row change) other row' change' =
      filing.change (filing.change state other row' change') name row change := by
  cases change with
  | keep => rfl
  | set content =>
      cases change' with
      | keep => rfl
      | set content' =>
          simp only [Filing.change]
          by_cases hname : name = other
          · subst hname
            simp only [rows_file, if_true, file_file, SortedMap.set_comm _ (hapart rfl)]
          · rw [rows_file, rows_file, if_neg hname, if_neg (Ne.symm hname), filing.file_comm _ hname]

end Filing

/-- The rows of a store. -/
def Store.filing : Filing Store Record where
  rows := rows
  file := withRows
  rows_file store name filed other := by
    split
    · next hname => rw [hname, rows_withRows_self]
    · next hname => exact rows_withRows_of_ne store hname filed
  file_file store name filed filed' := by
    have htables : ∀ other, (withRows (withRows store name filed) name filed').tables.find? other =
        (withRows store name filed').tables.find? other := by
      intro other
      simp only [withRows]
      by_cases hname : other = name <;>
        split <;> split <;> simp [SortedMap.find?_insert, SortedMap.find?_erase, hname]
    exact congrArg Store.mk (SortedMap.ext_find? htables)
  file_comm store name other hne filed filed' := by
    have htables : ∀ sought, (withRows (withRows store name filed) other filed').tables.find? sought =
        (withRows (withRows store other filed') name filed).tables.find? sought := by
      intro sought
      simp only [withRows]
      by_cases hname : sought = name
      · subst hname
        split <;> split <;> simp [SortedMap.find?_insert, SortedMap.find?_erase, hne]
      · split <;> split <;> simp [SortedMap.find?_insert, SortedMap.find?_erase, hname]
    exact congrArg Store.mk (SortedMap.ext_find? htables)

/-- The rows of a database of texts. -/
def Texts.filing : Filing Texts String where
  rows := rows
  file := filed
  rows_file := rows_filed
  file_file texts name filed filed' := by
    have htables : (texts.tables.insert name filed).insert name filed' = texts.tables.insert name filed' := by
      refine SortedMap.ext_find? fun other => ?_
      simp only [SortedMap.find?_insert]
      split <;> rfl
    exact congrArg (Texts.mk · texts.indexes) htables
  file_comm texts name other hne filed filed' :=
    congrArg (Texts.mk · texts.indexes) (texts.tables.set_comm hne (some filed) (some filed'))

/-! ## Engines that work on rows -/

/-- Two requests are about different rows, if both are about a row at all: their tables have different
names, or their keys address different rows. -/
def Request.Apart (address : Key → Key) (first second : Request) : Prop :=
  first.table.name = second.table.name → ∀ key other, first.target? = some key →
    second.target? = some other → address key ≠ address other

/-- Two requests can be made in either order: each of them gets the same answer, and the states in which
they end are related. -/
structure Engine.Independent {σ : Type} (engine : Engine σ) (related : σ → σ → Prop) (state : σ)
    (first second : Request) : Prop where
  answer_first : (engine (engine state second).2 first).1 = (engine state first).1
  answer_second : (engine (engine state first).2 second).1 = (engine state second).1
  after : related (engine (engine state first).2 second).2 (engine (engine state second).2 first).2

/-- What an engine makes of a write depends on what the row holds that the key of the write addresses, and
it changes nothing but this row. A write that has no key always fails in the same way. -/
structure Engine.Rowwise {σ ρ : Type} (engine : Engine σ) (filing : Filing σ ρ) (address : Key → Key) :
    Prop where
  exists_settle : ∀ {request : Request} {key : Key}, request.writes = true → request.target? = some key →
    ∃ settle : Option ρ → request.Answer × RowChange ρ, ∀ state,
      engine state request =
        ((settle (filing.held state request.table.name (address key))).1,
          filing.change state request.table.name (address key)
            (settle (filing.held state request.table.name (address key))).2)
  exists_answer : ∀ {request : Request}, request.writes = true → request.target? = none →
    ∃ answer, ∀ state, engine state request = (answer, state)

namespace Engine.Rowwise

variable {σ ρ : Type} {engine : Engine σ} {filing : Filing σ ρ} {address : Key → Key}
  (h : engine.Rowwise filing address)

include h

/-- Writes to different rows can be made in either order. -/
theorem independent {first second : Request} (hfirst : first.writes = true)
    (hsecond : second.writes = true) (hapart : first.Apart address second) (state : σ) :
    engine.Independent Eq state first second := by
  cases hkey : first.target? with
  | none =>
      obtain ⟨answer, hanswer⟩ := h.exists_answer hfirst hkey
      constructor <;> simp only [hanswer]
  | some key =>
      cases hother : second.target? with
      | none =>
          obtain ⟨answer, hanswer⟩ := h.exists_answer hsecond hother
          constructor <;> simp only [hanswer]
      | some other =>
          obtain ⟨settle, hsettle⟩ := h.exists_settle hfirst hkey
          obtain ⟨settle', hsettle'⟩ := h.exists_settle hsecond hother
          have hrows : first.table.name = second.table.name → address key ≠ address other :=
            fun hname => hapart hname key other hkey hother
          have hrows' : second.table.name = first.table.name → address other ≠ address key :=
            fun hname => (hrows hname.symm).symm
          -- Neither write changes what the other one reads.
          have hheld := filing.held_change hrows state
          have hheld' := filing.held_change hrows' state
          constructor
          · simp only [hsettle, hsettle', hheld']
          · simp only [hsettle, hsettle', hheld]
          · simp only [hsettle, hsettle', hheld, hheld']
            exact filing.change_comm hrows state _ _

end Engine.Rowwise

/-- What is independent for an engine is so for an engine that is like it. -/
theorem Engine.Independent.of_alike {σ τ : Type} {engine : Engine σ} {other : Engine τ}
    {related : σ → τ → Prop} (halike : Engine.Alike engine other related) {state : σ} {state' : τ}
    (hrelated : related state state') {first second : Request}
    (h : other.Independent Eq state' first second) :
    engine.Independent (fun state last => ∃ middle, related state middle ∧ related last middle) state first
      second := by
  have hfirst := halike.next state state' hrelated first
  have hsecond := halike.next state state' hrelated second
  refine ⟨?_, ?_, _, halike.next _ _ hfirst second, ?_⟩
  · rw [halike.answer _ _ hsecond, h.answer_first, halike.answer _ _ hrelated]
  · rw [halike.answer _ _ hfirst, h.answer_second, halike.answer _ _ hrelated]
  · rw [h.after]
    exact halike.next _ _ hsecond first

/-! ## Backends -/

namespace Backend

/-- The record of a row as it is read. -/
def readHeld (backend : Backend) : Option Record → Except StoreError (Option Record)
  | none => .ok none
  | some record => (some <$> backend.reread record).mapError .unreadable

/-- The record of a row that a condition is checked against. -/
def checkHeld (backend : Backend) (name : String) (condition : Option Condition) (held : Option Record) :
    Except StoreError (Option Record) := do
  let current ← backend.readHeld held
  if Condition.allows condition current then pure current else throw (.conditionFailed name)

/-- A condition is checked against what the row holds. -/
theorem guarded_eq_checkHeld (backend : Backend) (store : Store) (table : Table) (row : Key)
    (condition : Option Condition) :
    backend.guarded store table row condition =
      backend.checkHeld table.name condition (Store.filing.held store table.name row) := by
  unfold guarded read checkHeld
  show _ = backend.readHeld ((store.rows table.name).find? row) >>= _
  cases (store.rows table.name).find? row <;> rfl

/-- A write that checks a condition and then changes the row is about the row. -/
theorem settle_eq_change {ρ : Type} (backend : Backend) (table : Table) (row : Key) (condition : Option Condition)
    (reply : Option Record → ρ) (content : Option Record → Option Record)
    {write : Store → Except StoreError (ρ × Store)}
    (hwrite : ∀ store, write store = do
      let current ← backend.guarded store table row condition
      pure (reply current, Store.filing.change store table.name row (.set (content current)))) :
    ∃ settle : Option Record → Except StoreError ρ × RowChange Record, ∀ store : Store,
      Backend.settle store (write store) =
        ((settle (Store.filing.held store table.name row)).1,
          Store.filing.change store table.name row (settle (Store.filing.held store table.name row)).2) := by
  refine ⟨fun held => match backend.checkHeld table.name condition held with
    | .ok current => (.ok (reply current), .set (content current))
    | .error error => (.error error, .keep), fun store => ?_⟩
  rw [hwrite, guarded_eq_checkHeld]
  dsimp only
  cases backend.checkHeld table.name condition (Store.filing.held store table.name row) <;> rfl

/-- The writes of a backend are about single rows. -/
theorem rowwise (backend : Backend) : backend.perform.Rowwise Store.filing backend.address where
  exists_answer {request} hwrites hnone := by
    cases request with
    | get | query | page => cases hwrites
    | update | delete => cases hnone
    | put table record condition =>
        cases hkey : table.keyOf record with
        | ok key =>
            rw [Request.target?, hkey] at hnone
            cases hnone
        | error error =>
            refine ⟨.error error, fun store => ?_⟩
            simp only [perform, put, hkey]
            rfl
  exists_settle {request key} hwrites hkey := by
    cases request with
    | get | query | page => cases hwrites
    | put table record condition =>
        rw [Request.target?] at hkey
        cases hrecord : table.keyOf record with
        | error error =>
            rw [hrecord] at hkey
            cases hkey
        | ok found =>
            rw [hrecord] at hkey
            cases hkey
            refine backend.settle_eq_change table _ condition (fun current => current) (fun _ => some record)
              fun store => ?_
            simp only [put, hrecord]
            rfl
    | update table key assignments condition =>
        cases hkey
        exact backend.settle_eq_change table _ condition
          (fun current => (current.getD (table.keyRecord key)).assign assignments)
          (fun current => some ((current.getD (table.keyRecord key)).assign assignments)) fun _ => rfl
    | delete table key condition =>
        cases hkey
        exact backend.settle_eq_change table _ condition (fun current => current) (fun _ => none) fun _ => rfl

end Backend

/-! ## Texts in a database -/

namespace Texts

variable (format : TextFormat)

/-- The record that a condition is checked against, from the text of the row. -/
def checkText (name : String) (condition : Option Condition) (held : Option String) :
    Except StoreError (Option Record) := do
  let current ← readText format held
  if Condition.allows condition current then pure current else throw (.conditionFailed name)

/-- A condition is checked against the text of the row, and nothing changes. -/
theorem run_checkText (texts : Texts) (table : Table) (key : Key) (condition : Option Condition) :
    (checkRecord format table key condition).run.run texts =
      (checkText format table.name condition (filing.held texts table.name (Backend.columns key)),
        texts) := by
  have hread : (readRecord format table key).run.run texts =
      (readText format (filing.held texts table.name (Backend.columns key)), texts) := rfl
  rw [checkRecord, run_bind, hread, checkText]
  cases readText format (filing.held texts table.name (Backend.columns key)) with
  | error error => rfl
  | ok current =>
      simp only [bind, Except.bind]
      split <;> rfl

variable {format}

/-- A transaction that checks a condition and then changes the row is about the row. -/
theorem atomically_eq_change {ρ : Type} (table : Table) (key : Key) (condition : Option Condition)
    {rest : Option Record → Statements ρ} (reply : Option Record → ρ)
    (effect : Option Record → RowChange String)
    (hrest : ∀ current texts, (rest current).run.run texts =
      (.ok (reply current), filing.change texts table.name (Backend.columns key) (effect current))) :
    ∃ settle : Option String → Except StoreError ρ × RowChange String, ∀ texts : Texts,
      texts.atomically (checkRecord format table key condition >>= rest) =
        ((settle (filing.held texts table.name (Backend.columns key))).1,
          filing.change texts table.name (Backend.columns key)
            (settle (filing.held texts table.name (Backend.columns key))).2) := by
  refine ⟨fun held => match checkText format table.name condition held with
    | .ok current => (.ok (reply current), effect current)
    | .error error => (.error error, .keep), fun texts => ?_⟩
  have hcheck := run_checkText format texts table key condition
  cases hheld : checkText format table.name condition
      (filing.held texts table.name (Backend.columns key)) with
  | error error =>
      rw [hheld] at hcheck
      simp only [hheld, atomically_bind_error hcheck]
      rfl
  | ok current =>
      rw [hheld] at hcheck
      have hrun : texts.atomically (checkRecord format table key condition >>= rest) =
          (.ok (reply current),
            filing.change texts table.name (Backend.columns key) (effect current)) := by
        rw [atomically_bind_ok hcheck, atomically, hrest]
      simp only [hheld, hrun]

/-- The writes of a database of texts are about single rows. -/
theorem rowwise (format : TextFormat) :
    (perform format).Rowwise filing Backend.columns where
  exists_answer {request} hwrites hnone := by
    cases request with
    | get | query | page => cases hwrites
    | update | delete => cases hnone
    | put table record condition =>
        cases hkey : table.keyOf record with
        | ok key =>
            rw [Request.target?, hkey] at hnone
            cases hnone
        | error error =>
            refine ⟨.error error, fun texts => ?_⟩
            simp only [perform, put, hkey]
  exists_settle {request key} hwrites hkey := by
    cases request with
    | get | query | page => cases hwrites
    | put table record condition =>
        rw [Request.target?] at hkey
        cases hrecord : table.keyOf record with
        | error error =>
            rw [hrecord] at hkey
            cases hkey
        | ok found =>
            rw [hrecord] at hkey
            cases hkey
            simp only [perform, put, hrecord]
            exact atomically_eq_change table key condition (fun current => current)
              (fun _ => .set (some (format.print record))) fun _ _ => rfl
    | update table key assignments condition =>
        cases hkey
        exact atomically_eq_change table key condition
          (fun current => (current.getD (table.keyRecord key)).assign assignments)
          (fun current => .set (some (format.print
            ((current.getD (table.keyRecord key)).assign assignments)))) fun _ _ => rfl
    | delete table key condition =>
        cases hkey
        refine atomically_eq_change table key condition (fun current => current)
          (fun current => if current.isSome then .set none else .keep) fun current texts => ?_
        cases current <;> rfl

end Texts

/-! ## Database files -/

namespace Database

/-- The database with other rows. -/
def withStore (database : Database) (store : Store) : Database :=
  { database with content := { database.content with store } }

/-- A write to a file that may be changed changes the rows as the backend does, and nothing else. -/
theorem perform_withStore {database : Database} (hwritable : database.readOnly = false) (store : Store)
    {request : Request} (hwrites : request.writes = true) :
    (database.withStore store).perform request =
      ((Backend.database.perform store request).1,
        database.withStore (Backend.database.perform store request).2) := by
  have hsame : (database.withStore store).readOnly = false := hwritable
  rw [perform_of_writable hsame, indexedFor_of_writes _ hwrites]
  rfl

/-- Writes to different rows of a file that is open can be made in either order. -/
theorem independent {first second : Request} (hfirst : first.writes = true)
    (hsecond : second.writes = true) (hapart : first.Apart Backend.columns second)
    (database : Database) : Engine.Independent perform Eq database first second := by
  cases hreadOnly : database.readOnly with
  | true => constructor <;> simp only [perform_of_readOnly hreadOnly]
  | false =>
      obtain ⟨hanswer, hanswer', hafter⟩ :=
        (Backend.rowwise .database).independent hfirst hsecond hapart database.content.store
      have hperform := perform_withStore hreadOnly database.content.store hfirst
      have hperform' := perform_withStore hreadOnly database.content.store hsecond
      have hself : database.withStore database.content.store = database := rfl
      rw [hself] at hperform hperform'
      constructor
      · rw [hperform, hperform', perform_withStore hreadOnly _ hfirst]
        exact hanswer
      · rw [hperform, hperform', perform_withStore hreadOnly _ hsecond]
        exact hanswer'
      · rw [hperform, hperform', perform_withStore hreadOnly _ hfirst,
          perform_withStore hreadOnly _ hsecond]
        exact congrArg database.withStore hafter

end Database

/-! ## Keepers -/

namespace Keeper

/-- How a keeper tells rows apart: a memory by whole keys, and a database by the two texts that stand for
a key. -/
inductive Addresses : Keeper → (Key → Key) → Prop where
  | memory : Addresses .memory fun key => key
  | database (format : TextFormat) : Addresses (.database format) Backend.columns
  | backend (backend : Backend) : Addresses (.ofBackend backend) backend.address
  | file : Addresses .file Backend.columns

variable {keeper : Keeper} {address : Key → Key}

/-- Whoever keeps the records, writes to different rows can be made in either order, and the states in
which they end cannot be told apart. -/
theorem Addresses.exists_independent (h : keeper.Addresses address) {first second : Request}
    (hfirst : first.writes = true) (hsecond : second.writes = true)
    (hapart : first.Apart address second) :
    ∃ related, keeper.perform.Alike keeper.perform related ∧
      ∀ state, keeper.perform.Independent related state first second := by
  cases h with
  | memory =>
      refine ⟨_, Tables.alike.trans Tables.alike.symm, fun store => ?_⟩
      exact ((Backend.rowwise .memory).independent hfirst hsecond hapart store).of_alike Tables.alike
        (Tables.sameRows_self store)
  | database format =>
      exact ⟨Eq, Engine.alike_self _, (Texts.rowwise format).independent hfirst hsecond hapart⟩
  | backend backend =>
      exact ⟨Eq, Engine.alike_self _, backend.rowwise.independent hfirst hsecond hapart⟩
  | file => exact ⟨Eq, Engine.alike_self _, Database.independent hfirst hsecond hapart⟩

/-- Two writes to different rows, whether or not they are granted, get the same answers in either order, and
afterwards all requests and scans, on whatever table, show the same, and every program that chooses its
calls after the answers gives the same. -/
theorem Addresses.shown_of_apart (h : keeper.Addresses address) (state : keeper.State)
    {first second : Request} (hfirst : first.writes = true) (hsecond : second.writes = true)
    (hapart : first.Apart address second) :
    (keeper.perform (keeper.perform state second).2 first).1 = (keeper.perform state first).1 ∧
    (keeper.perform (keeper.perform state first).2 second).1 = (keeper.perform state second).1 ∧
    (∀ fuel uses,
      keeper.perform.shown fuel (keeper.perform (keeper.perform state first).2 second).2 uses =
        keeper.perform.shown fuel (keeper.perform (keeper.perform state second).2 first).2 uses) ∧
    ∀ {α : Type} (program : Program α) (fuel : Nat) (time : Clock),
      let one := program.run keeper.perform (fun _ => fuel)
        (keeper.perform (keeper.perform state first).2 second).2 time
      let other := program.run keeper.perform (fun _ => fuel)
        (keeper.perform (keeper.perform state second).2 first).2 time
      one.1 = other.1 ∧ one.2.2 = other.2.2 := by
  obtain ⟨related, halike, hindependent⟩ := h.exists_independent hfirst hsecond hapart
  obtain ⟨hanswer, hanswer', hafter⟩ := hindependent state
  refine ⟨hanswer, hanswer', fun fuel uses => halike.shown hafter fuel uses, ?_⟩
  intro α program fuel time
  obtain ⟨result, after, after', time', -, hrun, hrun'⟩ :=
    halike.run (fun _ => fuel) (fun _ => fuel) (fun _ _ _ => rfl) program hafter time
  simp only [hrun, hrun', and_self]

/-- A put into a table that is not listed and a refused removal from it can be made in either order, though
the removal then finds the table listed or not. -/
theorem Addresses.shown_of_apart_refused :
    let table := Pool.accountTable "Accounts"
    let first : Request := .put table (Record.empty.insert Account.idName (.string "1")) none
    let second : Request := .delete table ⟨"2", none⟩ (some [.present])
    let empty : Keeper.memory.State := ({} : Store)
    first.Apart (fun key => key) second ∧
      (Keeper.memory.perform (Keeper.memory.perform empty first).2 second).1 =
        (Keeper.memory.perform empty second).1 ∧
      ∀ fuel uses, Keeper.memory.perform.shown fuel
          (Keeper.memory.perform (Keeper.memory.perform empty first).2 second).2 uses =
        Keeper.memory.perform.shown fuel
          (Keeper.memory.perform (Keeper.memory.perform empty second).2 first).2 uses := by
  intro table first second empty
  have hapart : first.Apart (fun key => key) second := by
    intro _ key other hkey hother
    have hfirst : first.target? = some ⟨"1", none⟩ := by decide +kernel
    rw [hfirst] at hkey
    cases hkey
    cases hother
    decide
  obtain ⟨-, hanswer, hshown, -⟩ := Addresses.memory.shown_of_apart empty rfl rfl hapart
  exact ⟨hapart, hanswer, hshown⟩

end Keeper

end AccountPool
