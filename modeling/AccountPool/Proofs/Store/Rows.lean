import AccountPool.Store.Backend

/-!
# Rows before and after a write

How the database keeps keys, and what the writes of a backend do to the rows of its tables.
`Backend.find?_write` and `Backend.find?_remove` give every row after a write, so no later proof opens
`Store.withRows`. A store `ReadsBack` if each of its records is read as it was filed; for such a store
`guarded_eq` says what a condition is checked against.
-/

namespace AccountPool

open Json (Value)

/-! ## Tables -/

namespace Store

/-- Rows filed under a table name are found there. -/
theorem rows_withRows_self (store : Store) (table : String) (rows : Rows) :
    (store.withRows table rows).rows table = rows := by
  unfold withRows Store.rows
  split
  · next hempty =>
      rw [SortedMap.find?_erase_self, SortedMap.eq_empty_of_isEmpty hempty]
      rfl
  · rw [SortedMap.find?_insert_self]
    rfl

/-- Rows filed under a table name leave the other tables alone. -/
theorem rows_withRows_of_ne (store : Store) {table other : String} (hne : other ≠ table)
    (rows : Rows) : (store.withRows table rows).rows other = store.rows other := by
  unfold withRows Store.rows
  split
  · rw [SortedMap.find?_erase_of_ne _ hne]
  · rw [SortedMap.find?_insert_of_ne _ hne]

/-- A store without tables has no rows. -/
theorem rows_empty (table : String) : ({} : Store).rows table = {} :=
  rfl

end Store

namespace Backend

/-! ## Keys as two texts -/

/-- A key addresses the row that bears it in memory. -/
@[simp] theorem address_memory (key : Key) : memory.address key = key :=
  rfl

/-- A key addresses the row that bears its columns in a database. -/
@[simp] theorem address_databaseWith (reread : Record → Except Json.Fault Record)
    (candidate : Option Value → Value → Bool) (key : Key) :
    (databaseWith reread candidate).address key = columns key :=
  rfl

/-- Keys that agree on having a sort value are ordered as their columns are. -/
theorem compare_columns {first second : Key} (hsort : first.sort.isSome = second.sort.isSome) :
    compare (columns first) (columns second) = compare first second := by
  obtain ⟨partition, sort⟩ := first
  obtain ⟨partition', sort'⟩ := second
  cases sort with
  | none =>
      cases sort' with
      | none => simp [Key.compare_def, columns]
      | some sort' => simp at hsort
  | some sort =>
      cases sort' with
      | none => simp at hsort
      | some sort' => rfl

/-- Keys that agree on having a sort value and have the same columns are the same. -/
theorem columns_injective {first second : Key} (hsort : first.sort.isSome = second.sort.isSome)
    (hsame : columns first = columns second) : first = second := by
  -- Keys with the same columns compare as equal, and only the same keys do.
  have horder := compare_columns hsort
  have hself : compare (columns second) (columns second) = .eq := Std.ReflCmp.compare_self
  rw [hsame, hself] at horder
  exact Std.LawfulEqOrd.eq_of_compare horder.symm

/-- The key that is shown for a row of a table is the key that was filed there. -/
theorem shown_columns {reread : Record → Except Json.Fault Record}
    {candidate : Option Value → Value → Bool} {table : Table} {key : Key}
    (hsort : key.sort.isSome = table.sort.isSome) :
    (databaseWith reread candidate).shown table (columns key) = key := by
  obtain ⟨partition, sort⟩ := key
  cases sort with
  | none => simp_all [databaseWith, columns]
  | some sort => simp_all [databaseWith, columns]

/-! ## Rows after a write -/

/-- The rows of every table after a record was filed. -/
theorem rows_write (store : Store) (table : Table) (row : Key) (record : Record) (name : String) :
    (write store table row record).rows name =
      if name = table.name then (store.rows table.name).insert row record else store.rows name := by
  unfold write
  split
  · next hname => rw [hname, Store.rows_withRows_self]
  · next hname => rw [Store.rows_withRows_of_ne _ hname]

/-- The rows of every table after a row was removed. -/
theorem rows_remove (store : Store) (table : Table) (row : Key) (name : String) :
    (remove store table row).rows name =
      if name = table.name then (store.rows table.name).erase row else store.rows name := by
  unfold remove
  split
  · next hname => rw [hname, Store.rows_withRows_self]
  · next hname => rw [Store.rows_withRows_of_ne _ hname]

/-- Filing a record leaves the other tables alone. -/
theorem rows_write_of_ne (store : Store) {table : Table} {name : String} (hne : name ≠ table.name)
    (row : Key) (record : Record) : (write store table row record).rows name = store.rows name := by
  rw [rows_write, if_neg hne]

/-- Removing a row leaves the other tables alone. -/
theorem rows_remove_of_ne (store : Store) {table : Table} {name : String} (hne : name ≠ table.name)
    (row : Key) : (remove store table row).rows name = store.rows name := by
  rw [rows_remove, if_neg hne]

/-- A filed record is found in its row, and every other row is as before. -/
theorem find?_write (store : Store) (table : Table) (row : Key) (record : Record) (name : String)
    (other : Key) :
    ((write store table row record).rows name).find? other =
      if name = table.name ∧ other = row then some record else (store.rows name).find? other := by
  rw [rows_write]
  by_cases hname : name = table.name
  · subst hname
    simp [SortedMap.find?_insert]
  · simp [hname]

/-- A removed row is empty, and every other row is as before. -/
theorem find?_remove (store : Store) (table : Table) (row : Key) (name : String) (other : Key) :
    ((remove store table row).rows name).find? other =
      if name = table.name ∧ other = row then none else (store.rows name).find? other := by
  rw [rows_remove]
  by_cases hname : name = table.name
  · subst hname
    simp [SortedMap.find?_erase]
  · simp [hname]

end Backend

/-! ## Stores that read back what was filed -/

/-- Every record of the store is read as it was filed. -/
def Store.ReadsBack (store : Store) (backend : Backend) : Prop :=
  ∀ table row record, (store.rows table).find? row = some record →
    backend.reread record = .ok record

/-- Nothing is filed in an empty store. -/
theorem Store.readsBack_empty (backend : Backend) : ({} : Store).ReadsBack backend := by
  intro table row record hfind
  rw [rows_empty] at hfind
  cases hfind

/-- In memory every record is read as it was filed. -/
theorem Store.readsBack_memory (store : Store) : store.ReadsBack .memory :=
  fun _ _ _ _ => rfl

/-- A store still reads back after a record that is read as it was filed. -/
theorem Store.ReadsBack.write {backend : Backend} {store : Store} (h : store.ReadsBack backend)
    (table : Table) (row : Key) {record : Record} (hrecord : backend.reread record = .ok record) :
    (Backend.write store table row record).ReadsBack backend := by
  intro name other found hfind
  rw [Backend.find?_write] at hfind
  split at hfind
  · cases hfind
    exact hrecord
  · exact h name other found hfind

namespace Backend

variable {backend : Backend} {store : Store} {table : Table}

/-- A store that reads back gives the record that was filed in a row. -/
theorem read_eq (hread : store.ReadsBack backend) (row : Key) :
    backend.read store table row = .ok ((store.rows table.name).find? row) := by
  unfold read
  cases hfind : (store.rows table.name).find? row with
  | none => rfl
  | some record =>
      simp only [hread _ _ _ hfind]
      rfl

/-- A record that was filed in a row and can be read is read from the row. -/
theorem read_of_find? {row : Key} {held record : Record}
    (hfind : (store.rows table.name).find? row = some held) (hread : backend.reread held = .ok record) :
    backend.read store table row = .ok (some record) := by
  simp only [read, hfind, hread]
  rfl

/-- A record that is read is read from the one that was filed in the row. -/
theorem exists_of_read {row : Key} {record : Record}
    (hread : backend.read store table row = .ok (some record)) :
    ∃ held, (store.rows table.name).find? row = some held ∧ backend.reread held = .ok record := by
  unfold read at hread
  cases hfind : (store.rows table.name).find? row with
  | none =>
      rw [hfind] at hread
      cases hread
  | some held =>
      simp only [hfind] at hread
      cases hheld : backend.reread held with
      | error fault =>
          rw [hheld] at hread
          cases hread
      | ok found =>
          rw [hheld] at hread
          cases hread
          exact ⟨held, rfl, hheld⟩

/-- A condition is checked against the record that was filed in a row. -/
theorem guarded_eq (hread : store.ReadsBack backend) (row : Key) (condition : Option Condition) :
    backend.guarded store table row condition =
      if Condition.allows condition ((store.rows table.name).find? row) then
        .ok ((store.rows table.name).find? row)
      else .error (.conditionFailed table.name) := by
  unfold guarded
  rw [read_eq hread]
  rfl

/-- A condition holds for the record that is read from its row. -/
theorem read_of_guarded {row : Key} {condition : Option Condition} {current : Option Record}
    (hguarded : backend.guarded store table row condition = .ok current) :
    backend.read store table row = .ok current := by
  unfold guarded at hguarded
  cases hread : backend.read store table row with
  | error error =>
      rw [hread] at hguarded
      cases hguarded
  | ok found =>
      rw [hread] at hguarded
      revert hguarded
      show (if _ then _ else _) = _ → _
      split
      · intro hfound
        cases hfound
        rfl
      · intro hfound
        cases hfound

/-- A row that holds nothing for a condition to be checked against is empty. -/
theorem find?_of_guarded_none {row : Key} {condition : Option Condition}
    (hguarded : backend.guarded store table row condition = .ok none) :
    (store.rows table.name).find? row = none := by
  have hread := read_of_guarded hguarded
  unfold read at hread
  cases hfind : (store.rows table.name).find? row with
  | none => rfl
  | some record =>
      simp only [hfind] at hread
      cases hrecord : backend.reread record with
      | error fault =>
          rw [hrecord] at hread
          cases hread
      | ok found =>
          rw [hrecord] at hread
          cases hread

variable {key : Key} {current : Option Record}

/-- A put files the record under its own key if the condition holds for the record that is read there. -/
theorem perform_put_of_read {record : Record} (hkey : table.keyOf record = .ok key)
    (hread : backend.read store table (backend.address key) = .ok current)
    (condition : Option Condition) :
    backend.perform store (.put table record condition) =
      if Condition.allows condition current then
        (.ok current, write store table (backend.address key) record)
      else (.error (.conditionFailed table.name), store) := by
  simp only [perform, put, hkey, bind, Except.bind, guarded, hread]
  cases Condition.allows condition current with
  | true => rfl
  | false => rfl

/-- A put files the record under its own key if the condition holds for the record there. -/
theorem perform_put (hread : store.ReadsBack backend) {record : Record}
    (hkey : table.keyOf record = .ok key)
    (hcurrent : (store.rows table.name).find? (backend.address key) = current)
    (condition : Option Condition) :
    backend.perform store (.put table record condition) =
      if Condition.allows condition current then
        (.ok current, write store table (backend.address key) record)
      else (.error (.conditionFailed table.name), store) := by
  have hrow : backend.read store table (backend.address key) = .ok current := by
    rw [read_eq hread, hcurrent]
  exact perform_put_of_read hkey hrow condition

/-- After a put of a record that is read as it was filed the store still reads back. -/
theorem readsBack_put (hread : store.ReadsBack backend) {record : Record}
    (hrecord : backend.reread record = .ok record) (condition : Option Condition) :
    (backend.perform store (.put table record condition)).2.ReadsBack backend := by
  cases hkey : table.keyOf record with
  | error error =>
      simp only [perform, put, hkey]
      exact hread
  | ok key =>
      rw [perform_put hread hkey rfl]
      split
      · exact hread.write table _ hrecord
      · exact hread

/-- An update assigns to the record that is read under a key if the condition holds for it. -/
theorem perform_update_of_read
    (hread : backend.read store table (backend.address key) = .ok current) (assignments : Assignments)
    (condition : Option Condition) :
    backend.perform store (.update table key assignments condition) =
      if Condition.allows condition current then
        (.ok ((current.getD (table.keyRecord key)).assign assignments),
          write store table (backend.address key)
            ((current.getD (table.keyRecord key)).assign assignments))
      else (.error (.conditionFailed table.name), store) := by
  simp only [perform, update, guarded, hread, bind, Except.bind]
  cases Condition.allows condition current with
  | true => rfl
  | false => rfl

/-- An update of a record that cannot be read fails and changes nothing. -/
theorem perform_update_of_read_error {error : StoreError}
    (hread : backend.read store table (backend.address key) = .error error) (assignments : Assignments)
    (condition : Option Condition) :
    backend.perform store (.update table key assignments condition) = (.error error, store) := by
  simp only [perform, update, guarded, hread, bind, Except.bind]
  rfl

/-- An update assigns to the record under a key if the condition holds for it. -/
theorem perform_update (hread : store.ReadsBack backend)
    (hcurrent : (store.rows table.name).find? (backend.address key) = current)
    (assignments : Assignments) (condition : Option Condition) :
    backend.perform store (.update table key assignments condition) =
      if Condition.allows condition current then
        (.ok ((current.getD (table.keyRecord key)).assign assignments),
          write store table (backend.address key)
            ((current.getD (table.keyRecord key)).assign assignments))
      else (.error (.conditionFailed table.name), store) := by
  have hrow : backend.read store table (backend.address key) = .ok current := by
    rw [read_eq hread, hcurrent]
  exact perform_update_of_read hrow assignments condition

/-- A delete removes the record that is read under a key if the condition holds for it. -/
theorem perform_delete_of_read
    (hread : backend.read store table (backend.address key) = .ok current)
    (condition : Option Condition) :
    backend.perform store (.delete table key condition) =
      if Condition.allows condition current then
        (.ok current, remove store table (backend.address key))
      else (.error (.conditionFailed table.name), store) := by
  simp only [perform, delete, bind, Except.bind, guarded, hread]
  cases Condition.allows condition current with
  | true => rfl
  | false => rfl

/-- A delete removes the record under a key if the condition holds for it. -/
theorem perform_delete (hread : store.ReadsBack backend)
    (hcurrent : (store.rows table.name).find? (backend.address key) = current)
    (condition : Option Condition) :
    backend.perform store (.delete table key condition) =
      if Condition.allows condition current then
        (.ok current, remove store table (backend.address key))
      else (.error (.conditionFailed table.name), store) := by
  have hrow : backend.read store table (backend.address key) = .ok current := by
    rw [read_eq hread, hcurrent]
  exact perform_delete_of_read hrow condition

/-- Reading some of the rows of a table gives the records that were filed in them. -/
theorem readAll_eq (hread : store.ReadsBack backend) {name : String} {rows : List (Key × Record)}
    (hrows : ∀ row ∈ rows, row ∈ (store.rows name).entries) :
    backend.readAll rows = .ok (rows.map Prod.snd) := by
  unfold readAll
  induction rows with
  | nil => rfl
  | cons row rows ih =>
      have hrow := hread name row.1 row.2 (SortedMap.mem_entries_iff.1 (hrows row List.mem_cons_self))
      have hrest := ih fun other hmem => hrows other (List.mem_cons_of_mem _ hmem)
      rw [List.mapM_cons, hrow, hrest]
      rfl

/-- What a search of a store that reads back finds. -/
theorem query_eq (hread : store.ReadsBack backend) (name : String) (value : Value) :
    backend.query store table name value =
      if table.isQueryable name then
        if name = table.partition then
          .ok (((store.rows table.name).entries.filter fun row =>
            value.string? == some row.1.partition).map Prod.snd)
        else if backend.searchable name then
          .ok ((((store.rows table.name).entries.filter fun row =>
            backend.candidate (row.2.get? name) value).map Prod.snd).filter fun record =>
              record.holds name value)
        else .error (.invalidAttributeName name)
      else .error (.notIndexed table.name name) := by
  unfold query
  cases table.isQueryable name with
  | false => rfl
  | true =>
      by_cases hname : name = table.partition
      · simp only [hname, if_true]
        exact readAll_eq hread fun row hmem => (List.mem_filter.1 hmem).1
      · simp only [hname, if_false]
        cases backend.searchable name with
        | false => rfl
        | true =>
            simp only [readAll_eq hread fun row hmem => (List.mem_filter.1 hmem).1]
            rfl

/-- The rows of a page: at most `limit` of them, and at least one if there is any. -/
def pageRows (backend : Backend) (store : Store) (table : Table) (limit : Nat)
    (start : Option Key) : List (Key × Record) :=
  ((store.rows table.name).after (start.map backend.address)).take (max limit 1)

/-- The rows of a page are rows of the table. -/
theorem mem_of_mem_pageRows {limit : Nat} {start : Option Key} {row : Key × Record}
    (hmem : row ∈ backend.pageRows store table limit start) :
    row ∈ (store.rows table.name).entries := by
  have hafter := List.mem_of_mem_take hmem
  cases start with
  | none => exact hafter
  | some start => exact (List.mem_filter.1 hafter).1

/-- What a page of a store that reads back shows. -/
theorem page_eq (hread : store.ReadsBack backend) (limit : Nat) (start : Option Key) :
    backend.page store table limit start =
      .ok ⟨(backend.pageRows store table limit start).map Prod.snd,
        if (backend.pageRows store table limit start).length = max limit 1 then
          (backend.pageRows store table limit start).getLast?.map fun row =>
            backend.shown table row.1
        else none⟩ := by
  show (backend.readAll (backend.pageRows store table limit start) >>= _) = _
  rw [readAll_eq hread fun row => mem_of_mem_pageRows]
  rfl

end Backend

end AccountPool
