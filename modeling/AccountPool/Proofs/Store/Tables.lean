import AccountPool.Proofs.Store.Alike
import AccountPool.Proofs.Store.Rows

/-!
# Tables that are listed when they are written to

A memory keeps a list of tables. A put or an update lists its table before the condition is checked, so a
refused call may leave a table without rows behind, and a table that lost all its rows stays listed, while
a look-up and a delete treat a table that is not listed on their own. `Tables.perform` does all this step
by step. It is like `Backend.memory`, `Tables.alike`, so it never shows which tables are listed.
-/

namespace AccountPool

open Json (Value)

/-- A row answers a look-up: the partition value of its key does, or an attribute of its record. -/
def Table.matches (table : Table) (row : Key × Record) (name : String) (value : Value) : Bool :=
  if name = table.partition then value.string? == some row.1.partition
  else row.2.holds name value

namespace Store

/-- The store with other rows under a table name, which is listed from then on. -/
def filed (store : Store) (name : String) (rows : Rows) : Store :=
  ⟨store.tables.insert name rows⟩

/-- The store with a table listed. -/
def opened (store : Store) (name : String) : Store :=
  store.filed name (store.rows name)

/-- Rows of all tables after some were filed. -/
theorem rows_filed (store : Store) (name : String) (rows : Rows) (other : String) :
    (store.filed name rows).rows other = if other = name then rows else store.rows other := by
  unfold filed Store.rows
  rw [SortedMap.find?_insert]
  split <;> rfl

/-- Listing a table changes no rows. -/
theorem rows_opened (store : Store) (name other : String) :
    (store.opened name).rows other = store.rows other := by
  rw [opened, rows_filed]
  split
  · next hname => rw [hname]
  · rfl

/-- A table that is not listed has no rows. -/
theorem rows_of_not_listed {store : Store} {name : String} (hnone : store.tables.find? name = none) :
    store.rows name = {} := by
  rw [rows, hnone]
  rfl

/-- The rows of a table that is listed. -/
theorem rows_of_listed {store : Store} {name : String} {rows : Rows}
    (hsome : store.tables.find? name = some rows) : store.rows name = rows := by
  rw [Store.rows, hsome]
  rfl

end Store

namespace Tables

/-- Read a record. -/
def get (store : Store) (table : Table) (key : Key) : Except StoreError (Option Record) :=
  .ok ((store.tables.find? table.name).bind fun rows => rows.find? key)

/-- File a record; the table is listed first. -/
def put (store : Store) (table : Table) (record : Record) (condition : Option Condition) :
    Except StoreError (Option Record) × Store :=
  match table.keyOf record with
  | .error error => (.error error, store)
  | .ok key =>
      let store := store.opened table.name
      let rows := store.rows table.name
      if Condition.allows condition (rows.find? key) then
        (.ok (rows.find? key), store.filed table.name (rows.insert key record))
      else (.error (.conditionFailed table.name), store)

/-- Set attributes of a record; the table is listed first. -/
def update (store : Store) (table : Table) (key : Key) (assignments : Assignments)
    (condition : Option Condition) : Except StoreError Record × Store :=
  let store := store.opened table.name
  let rows := store.rows table.name
  let current := rows.find? key
  if Condition.allows condition current then
    let next := (current.getD (table.keyRecord key)).assign assignments
    (.ok next, store.filed table.name (rows.insert key next))
  else (.error (.conditionFailed table.name), store)

/-- Remove a record; a table that is not listed has none and is not listed now. -/
def delete (store : Store) (table : Table) (key : Key) (condition : Option Condition) :
    Except StoreError (Option Record) × Store :=
  match store.tables.find? table.name with
  | none =>
      if Condition.allows condition none then (.ok none, store)
      else (.error (.conditionFailed table.name), store)
  | some rows =>
      if Condition.allows condition (rows.find? key) then
        (.ok (rows.find? key), store.filed table.name (rows.erase key))
      else (.error (.conditionFailed table.name), store)

/-- Look records up by an attribute. -/
def query (store : Store) (table : Table) (name : String) (value : Value) :
    Except StoreError (List Record) :=
  if table.isQueryable name then
    match store.tables.find? table.name with
    | none => .ok []
    | some rows =>
        .ok ((rows.entries.filter fun row => table.matches row name value).map Prod.snd)
  else .error (.notIndexed table.name name)

/-- Show a part of a table. -/
def page (store : Store) (table : Table) (limit : Nat) (start : Option Key) : Page :=
  match store.tables.find? table.name with
  | none => ⟨[], none⟩
  | some rows =>
      let limit := max limit 1
      let shown := (rows.after start).take limit
      ⟨shown.map Prod.snd,
        if shown.length = limit then shown.getLast?.map Prod.fst else none⟩

/-- The tables of a memory as an engine. -/
def perform : Engine Store := fun store request =>
  match request with
  | .get table key => (get store table key, store)
  | .put table record condition => put store table record condition
  | .update table key assignments condition => update store table key assignments condition
  | .delete table key condition => delete store table key condition
  | .query table name value => (query store table name value, store)
  | .page table limit start => (.ok (page store table limit start), store)

/-! ## Which tables are listed is not shown -/

/-- Two stores have the same rows in all tables. -/
def SameRows (first second : Store) : Prop :=
  ∀ name, first.rows name = second.rows name

variable {first second : Store} {table : Table} {key : Key}

/-- A table can be listed on one side only. -/
theorem SameRows.opened (h : SameRows first second) (name : String) :
    SameRows (first.opened name) second :=
  fun other => (first.rows_opened name other).trans (h other)

/-- The same record is filed on both sides. -/
theorem SameRows.write (h : SameRows first second) (table : Table) (key : Key) (record : Record) :
    SameRows (first.filed table.name ((first.rows table.name).insert key record))
      (Backend.write second table key record) := by
  intro name
  rw [Store.rows_filed, Backend.rows_write, h table.name, h name]

/-- The same row is removed on both sides. -/
theorem SameRows.remove (h : SameRows first second) (table : Table) (key : Key) :
    SameRows (first.filed table.name ((first.rows table.name).erase key))
      (Backend.remove second table key) := by
  intro name
  rw [Store.rows_filed, Backend.rows_remove, h table.name, h name]

/-- Nothing is removed from a table without rows. -/
theorem SameRows.remove_of_empty (h : SameRows first second) (hempty : second.rows table.name = {}) :
    SameRows first (Backend.remove second table key) := by
  intro name
  rw [Backend.rows_remove, hempty]
  split
  · next hname =>
      rw [hname, h, hempty]
      rfl
  · exact h name

section Answers

variable (h : SameRows first second)

include h

/-- What is read is in the rows. -/
theorem get_eq : get first table key = .ok ((second.rows table.name).find? key) := by
  rw [← h, get, Store.rows]
  cases first.tables.find? table.name with
  | none => rfl
  | some rows => rfl

/-- A look-up shows the rows that match, whether or not the table is listed. -/
theorem query_eq (name : String) (value : Value) :
    query first table name value = Backend.memory.query second table name value := by
  rw [Backend.query_eq second.readsBack_memory, ← h, query]
  cases table.isQueryable name with
  | false => rfl
  | true =>
      have hmatch (rows : Rows) :
          (rows.entries.filter fun row => table.matches row name value).map Prod.snd =
            if name = table.partition then
              (rows.entries.filter fun row => value.string? == some row.1.partition).map Prod.snd
            else ((rows.entries.filter fun _ => true).map Prod.snd).filter fun record =>
              record.holds name value := by
        unfold Table.matches
        split
        · rfl
        · have hall : (rows.entries.filter fun _ => true) = rows.entries :=
            List.filter_eq_self.2 fun _ _ => rfl
          rw [hall, List.filter_map]
          rfl
      cases hlisted : first.tables.find? table.name with
      | none =>
          have hrows := Store.rows_of_not_listed hlisted
          simp only [if_true, hrows]
          split <;> rfl
      | some rows =>
          have hrows := Store.rows_of_listed hlisted
          simp only [if_true, hrows, hmatch]
          split <;> rfl

/-- A page shows the same rows, whether or not the table is listed. -/
theorem page_eq (limit : Nat) (start : Option Key) :
    .ok (page first table limit start) = Backend.memory.page second table limit start := by
  rw [Backend.page_eq second.readsBack_memory, Backend.pageRows, ← h, page]
  have hstart : start.map Backend.memory.address = start := Option.map_id'
  cases hlisted : first.tables.find? table.name with
  | none =>
      have hnone : ({} : Rows).after start = [] := by
        cases start <;> rfl
      rw [Store.rows_of_not_listed hlisted, hstart, hnone, List.take_nil]
      show Except.ok (Page.mk [] none) = _
      split <;> rfl
  | some rows =>
      rw [Store.rows_of_listed hlisted, hstart]
      rfl

end Answers

/-- Every request is answered as by `Backend.memory`, and has the same effect on the rows. -/
theorem perform_alike (h : SameRows first second) (request : Request) :
    ∃ answer after after', SameRows after after' ∧ perform first request = (answer, after) ∧
      Backend.memory.perform second request = (answer, after') := by
  have hread := second.readsBack_memory
  cases request with
  | get table key =>
      refine ⟨_, _, _, h, rfl, ?_⟩
      show (Backend.memory.read second table key, second) = _
      rw [Backend.read_eq hread, get_eq h]
  | put table record condition =>
      cases hkey : table.keyOf record with
      | error error =>
          refine ⟨.error error, first, second, h, ?_, ?_⟩
          · simp only [perform, put, hkey]
          · simp only [Backend.perform, Backend.put, hkey]
            rfl
      | ok key =>
          have hperform := Backend.perform_put hread hkey rfl condition
          by_cases hallows : Condition.allows condition ((second.rows table.name).find? key)
          · refine ⟨_, _, _, (h.opened table.name).write table key record, ?_,
              hperform.trans (if_pos hallows)⟩
            simp only [perform, put, hkey, Store.rows_opened, h table.name, if_pos hallows]
            rfl
          · refine ⟨_, _, _, h.opened table.name, ?_, hperform.trans (if_neg hallows)⟩
            simp only [perform, put, hkey, Store.rows_opened, h table.name, if_neg hallows]
  | update table key assignments condition =>
      have hperform : Backend.memory.perform second (.update table key assignments condition) = _ :=
        Backend.perform_update hread rfl assignments condition
      by_cases hallows : Condition.allows condition ((second.rows table.name).find? key)
      · refine ⟨_, _, _, (h.opened table.name).write table key _, ?_,
          hperform.trans (if_pos hallows)⟩
        simp only [perform, update, Store.rows_opened, h table.name, if_pos hallows]
        rfl
      · refine ⟨_, _, _, h.opened table.name, ?_, hperform.trans (if_neg hallows)⟩
        simp only [perform, update, Store.rows_opened, h table.name, if_neg hallows]
  | delete table key condition =>
      cases hlisted : first.tables.find? table.name with
      | none =>
          -- A table that is not listed answers as one without rows does.
          have hempty : second.rows table.name = {} :=
            (h table.name).symm.trans (Store.rows_of_not_listed hlisted)
          have hnone : (second.rows table.name).find? (Backend.memory.address key) = none := by
            rw [hempty]
            rfl
          have hperform := Backend.perform_delete hread hnone condition
          by_cases hallows : Condition.allows condition none
          · refine ⟨_, _, _, h.remove_of_empty hempty, ?_, hperform.trans (if_pos hallows)⟩
            simp only [perform, delete, hlisted, if_pos hallows]
          · refine ⟨_, _, _, h, ?_, hperform.trans (if_neg hallows)⟩
            simp only [perform, delete, hlisted, if_neg hallows]
      | some rows =>
          obtain rfl : second.rows table.name = rows :=
            (h table.name).symm.trans (Store.rows_of_listed hlisted)
          have hperform : Backend.memory.perform second (.delete table key condition) = _ :=
            Backend.perform_delete hread rfl condition
          by_cases hallows : Condition.allows condition ((second.rows table.name).find? key)
          · refine ⟨_, _, _, h.remove table key, ?_, hperform.trans (if_pos hallows)⟩
            simp only [perform, delete, hlisted, if_pos hallows, h table.name]
            rfl
          · refine ⟨_, _, _, h, ?_, hperform.trans (if_neg hallows)⟩
            simp only [perform, delete, hlisted, if_neg hallows]
  | query table name value =>
      refine ⟨_, _, _, h, rfl, ?_⟩
      rw [query_eq h]
      rfl
  | page table limit start =>
      refine ⟨_, _, _, h, rfl, ?_⟩
      rw [page_eq h]
      rfl

/-- The tables of a memory are like the memory that does not list tables. -/
theorem alike : Engine.Alike perform Backend.memory.perform SameRows where
  answer first second h request := by
    obtain ⟨answer, after, after', -, hperform, hperform'⟩ := perform_alike h request
    rw [hperform, hperform']
  next first second h request := by
    obtain ⟨answer, after, after', hafter, hperform, hperform'⟩ := perform_alike h request
    rw [hperform, hperform']
    exact hafter

end Tables

end AccountPool
