import Mathlib.Data.List.Forall2
import AccountPool.Proofs.Json.Same
import AccountPool.Pool.Settings
import AccountPool.Proofs.Store.Drain
import AccountPool.Proofs.Store.Texts

/-!
# Searches of an index

A database that searches an index compares column values, and compares the records that it finds once
more as JSON. So what it gives is right, but a record is missed if its value equals the one looked for and
has another column: null, whose column equals nothing, and arrays and objects with zeros, which are
compared by their texts. `Value.indexable_iff` says for which values nothing is missed, and
`Texts.query_of_extracts` that the search then gives what a memory gives, and what a scan gives that
compares every record.
-/

namespace AccountPool

open Json (Value)

/-! ## Columns of equal values -/

namespace Column

/-- A column value equals itself, unless it is null. -/
theorem equal_self {column : Column} (hnull : column ≠ .null) : column.equal column = true := by
  cases column with
  | null => exact absurd rfl hnull
  | integer n => exact beq_self_eq_true n
  | real f => simp [equal, Binary64.same]
  | text chars => exact beq_self_eq_true chars

/-- Only null is looked for as null. -/
theorem sought_ne_null {value : Value} (hnull : value ≠ .null) : sought value ≠ .null := by
  cases value with
  | null => exact absurd rfl hnull
  | number n =>
      cases n with
      | integer n =>
          rw [sought, ofValueWith]
          split <;> simp
      | binary f => simp [sought, ofValueWith]
  | _ => simp [sought, ofValueWith]

/-- The column of a value equals itself, unless the value is null. -/
theorem equal_sought_self {value : Value} (hnull : value ≠ .null) :
    (sought value).equal (sought value) = true :=
  equal_self (sought_ne_null hnull)

/-- No column value equals null. -/
theorem not_equal_null (column : Column) : ¬ column.equal (sought .null) = true := by
  cases column <;> simp [equal, sought, ofValueWith]

/-- Numbers that are equal as JSON have equal columns. -/
theorem equal_of_same_number {m n : Json.Number} (hsame : m.same n = true) :
    (sought (.number m)).equal (sought (.number n)) = true := by
  cases m with
  | integer m =>
      cases n with
      | integer n =>
          obtain rfl : m = n := eq_of_beq hsame
          exact equal_sought_self (by simp)
      | binary g => cases hsame
  | binary f =>
      cases n with
      | integer n => cases hsame
      | binary g => exact hsame

end Column

namespace Json.Value

/-- An index finds every value that is equal to this one. -/
def indexable : Value → Bool
  | .null => false
  | .array items => zerosItems items == 0
  | .object members => zerosMembers members == 0
  | .bool _ | .number _ | .string _ => true

/-- The text of a value is not that of all values that are equal to it if there is a zero in it. -/
theorem zeros_eq_zero_of_texts (value : Value)
    (htexts : ∀ held : Value, held.same value = true → held.compactChars = value.compactChars) :
    value.zeros = 0 := by
  have hnegative := htexts _ (same_withZeros true value)
  have hpositive := htexts _ (same_withZeros false value)
  have hlength := length_compactChars_withZeros value
  rw [hnegative, hpositive] at hlength
  omega

/-- Values for which an index is searched have the column of every value that is equal to them, and no other
values have. -/
theorem indexable_iff {value : Value} :
    value.indexable = true ↔
      ∀ held : Value, held.same value = true → (Column.sought held).equal (.sought value) = true := by
  cases value with
  | null =>
      refine ⟨fun h => (by cases h), fun h => ?_⟩
      cases h .null (same_null.2 rfl)
  | bool b =>
      refine ⟨fun _ held hsame => ?_, fun _ => rfl⟩
      rw [same_bool.1 hsame]
      exact Column.equal_sought_self (by simp)
  | number n =>
      refine ⟨fun _ held hsame => ?_, fun _ => rfl⟩
      obtain ⟨m, rfl, hm⟩ := same_number.1 hsame
      exact Column.equal_of_same_number hm
  | string text =>
      refine ⟨fun _ held hsame => ?_, fun _ => rfl⟩
      rw [same_string.1 hsame]
      exact Column.equal_sought_self (by simp)
  | array items =>
      rw [indexable, beq_iff_eq]
      refine ⟨fun hzeros held hsame => ?_, fun h => ?_⟩
      · rw [eq_of_same _ hsame hzeros]
        exact Column.equal_sought_self (by simp)
      · refine zeros_eq_zero_of_texts (.array items) fun held hsame => ?_
        obtain ⟨others, rfl, -⟩ := same_array.1 hsame
        exact eq_of_beq (h _ hsame)
  | object members =>
      rw [indexable, beq_iff_eq]
      refine ⟨fun hzeros held hsame => ?_, fun h => ?_⟩
      · rw [eq_of_same _ hsame hzeros]
        exact Column.equal_sought_self (by simp)
      · refine zeros_eq_zero_of_texts (.object members) fun held hsame => ?_
        obtain ⟨others, rfl, -⟩ := same_object.1 hsame
        exact eq_of_beq (h _ hsame)

end Json.Value

/-! ## Records that have a value -/

/-- A record has a value in an attribute if it has an attribute that is equal to it. -/
theorem Record.holds_iff {record : Record} {name : String} {value : Value} :
    record.holds name value = true ↔ ∃ held, record.get? name = some held ∧ held.same value = true := by
  unfold holds
  cases record.get? name <;> simp

/-- The records of a table whose attribute is equal as JSON to a value, in key order. -/
def Store.having (store : Store) (table name : String) (value : Value) : List Record :=
  ((store.rows table).entries.map Prod.snd).filter fun record => record.holds name value

/-- An attribute with an index can be searched for. -/
theorem Table.isQueryable_of_mem {table : Table} {name : String} (hindex : name ∈ table.indexes) :
    table.isQueryable name = true := by
  simp [isQueryable, hindex]

section Memory

variable {table : Table} {name : String}

/-- A memory gives the records that have a value. -/
theorem Backend.query_memory (hindex : name ∈ table.indexes) (hname : name ≠ table.partition)
    (store : Store) (value : Value) :
    memory.query store table name value = .ok (store.having table.name name value) := by
  have hqueryable : table.isQueryable name = true := Table.isQueryable_of_mem hindex
  have hall : ((store.rows table.name).entries.filter fun row =>
      memory.candidate (row.2.get? name) value) = (store.rows table.name).entries :=
    List.filter_eq_self.2 fun _ _ => rfl
  have hsearch : memory.searchable name = true := rfl
  rw [query_eq (Store.readsBack_memory store), hqueryable, if_pos rfl, if_neg hname, hsearch,
    if_pos rfl, hall]
  rfl

/-- A scan in memory that compares every record keeps those that have a value. -/
theorem Scan.drain_memory (table : Table) (name : String) (store : Store) (value : Value)
    (pageSize : Nat) {fuel : Nat} (hfuel : steps (store.rows table.name).size ≤ fuel) :
    ((begin pageSize).drain (.ofEngine Backend.memory.perform table)
      (fun record => record.holds name value) fuel store []).1 =
        some (.ok (store.having table.name name value)) := by
  rw [drain_eq (fun row _ => Backend.leadsBack_memory table row.1) _ []
    (Nat.le_trans (rounds_begin_le pageSize) hfuel), remaining_begin,
    Backend.readAll_eq (Store.readsBack_memory store) fun _ hmem => hmem]
  rfl

end Memory

/-! ## Texts that are searched -/

namespace Texts

variable {format : TextFormat} {texts : Texts} {store : Store} {table : Table} {name : String}
  {value : Value} {rows : List (Key × String)} {kept : List (Key × Record)}

/-! ## Rows with the texts of records -/

/-- The texts of rows are read as records, whose keys are known by their columns. -/
def Reads (format : TextFormat) : List (Key × String) → List (Key × Record) → Prop :=
  List.Forall₂ fun row kept => row.1 = Backend.columns kept.1 ∧ format.read row.2 = .ok kept.2

/-- The texts of all tables are read as the records of a store. -/
def Shows (format : TextFormat) (texts : Texts) (store : Store) : Prop :=
  ∀ name, Reads format (texts.rows name).entries (store.rows name).entries

namespace Reads

/-- Every text is read. -/
theorem exists_read (h : Reads format rows kept) {row : Key × String} (hmem : row ∈ rows) :
    ∃ record, format.read row.2 = .ok record := by
  induction h with
  | nil => cases hmem
  | cons hrow _ ih =>
      obtain rfl | hmem := List.mem_cons.1 hmem
      · exact ⟨_, hrow.2⟩
      · exact ih hmem

/-- The records are read in order. -/
theorem readAll_eq (h : Reads format rows kept) : readAll format rows = .ok (kept.map Prod.snd) := by
  unfold readAll
  induction h with
  | nil => rfl
  | cons hrow _ ih =>
      rw [List.mapM_cons, hrow.2, ih]
      rfl

/-- The keys are those of the records, as columns. -/
theorem keys_eq (h : Reads format rows kept) :
    rows.map Prod.fst = kept.map fun row => Backend.columns row.1 := by
  induction h with
  | nil => rfl
  | cons hrow _ ih => rw [List.map_cons, List.map_cons, hrow.1, ih]

/-- The rows with an equal column are selected. -/
theorem exists_select (hextract : format.ExtractsColumns) (hplain : Backend.isPlainName name = true)
    (h : Reads format rows kept) (value : Value) :
    ∃ selected, select format name value rows = .ok selected ∧
      Reads format selected (kept.filter fun row =>
        (Column.ofAttribute (row.2.get? name)).equal (.sought value)) := by
  induction h with
  | nil => exact ⟨[], rfl, .nil⟩
  | @cons row found rows kept hrow _ ih =>
      obtain ⟨selected, hselect, hselected⟩ := ih
      rw [select, hextract _ _ _ hplain hrow.2, hselect, List.filter_cons]
      simp only [bind, Except.bind]
      cases (Column.ofAttribute (found.2.get? name)).equal (.sought value) with
      | true => exact ⟨row :: selected, rfl, .cons hrow hselected⟩
      | false => exact ⟨selected, rfl, hselected⟩

/-- The rows after a key are those of the records after it, if all keys have a sort value or none has. -/
theorem filter_after (h : Reads format rows kept) {start : Key}
    (hfits : ∀ row ∈ kept, start.sort.isSome = row.1.sort.isSome) :
    Reads format (rows.filter fun row => compare (Backend.columns start) row.1 == .lt)
      (kept.filter fun row => compare start row.1 == .lt) := by
  induction h with
  | nil => exact .nil
  | @cons row found rows kept hrow _ ih =>
      have hrest := ih fun other hmem => hfits other (List.mem_cons_of_mem _ hmem)
      have horder : compare (Backend.columns start) row.1 = compare start found.1 := by
        rw [hrow.1, Backend.compare_columns (hfits found List.mem_cons_self)]
      rw [List.filter_cons, List.filter_cons, horder]
      split
      · exact .cons hrow hrest
      · exact hrest

end Reads

namespace Shows

/-- An index is made without a fault, and changes no rows. -/
theorem exists_index (hextract : format.ExtractsColumns) (hplain : Backend.isPlainName name = true)
    (h : Shows format texts store) :
    ∃ next, index format texts name = .ok next ∧ ∀ other, next.rows other = texts.rows other := by
  refine exists_index_of_forall fun text hmem => ?_
  obtain ⟨table, row, hfind⟩ := exists_of_mem_all hmem
  obtain ⟨record, hread⟩ := (h table).exists_read (SortedMap.mem_entries_iff.2 hfind)
  exact ⟨_, hextract text record name hplain hread⟩

/-- The search of an index gives the records with the value that have its column. -/
theorem query_eq (hextract : format.ExtractsColumns) (h : Shows format texts store)
    (hindex : name ∈ table.indexes) (hname : name ≠ table.partition)
    (hplain : Backend.isPlainName name = true) (value : Value) :
    (query format texts table name value).1 =
      .ok ((store.having table.name name value).filter fun record =>
        (Column.ofAttribute (record.get? name)).equal (.sought value)) := by
  have hqueryable : table.isQueryable name = true := Table.isQueryable_of_mem hindex
  obtain ⟨next, hnext, hrows⟩ := h.exists_index hextract hplain
  obtain ⟨selected, hselect, hselected⟩ := (h table.name).exists_select hextract hplain value
  unfold query
  simp only [hqueryable, hname, hplain, hnext, hrows, hselect, hselected.readAll_eq, Bool.not_true,
    Bool.false_eq_true, if_false]
  -- The column is compared first and the value afterwards.
  show Except.ok (List.filter _ _) = Except.ok (List.filter _ (List.filter _ _))
  rw [List.filter_filter, List.filter_map, List.filter_map, List.filter_filter]
  simp only [Function.comp_def, Bool.and_comm]

/-- A page shows what a memory shows, if the keys of the table suit it. -/
theorem page_eq (h : Shows format texts store)
    (hfits : ∀ row ∈ (store.rows table.name).entries, row.1.sort.isSome = table.sort.isSome)
    (limit : Nat) {start : Option Key}
    (hstart : ∀ key ∈ start, key.sort.isSome = table.sort.isSome) :
    page format texts table limit start = Backend.memory.page store table limit start := by
  have hafter : Reads format ((texts.rows table.name).after (start.map Backend.columns))
      ((store.rows table.name).after start) := by
    cases start with
    | none => exact h table.name
    | some key =>
        exact (h table.name).filter_after fun row hmem => (hstart key rfl).trans (hfits row hmem).symm
  have hrows : Reads format
      (((texts.rows table.name).after (start.map Backend.columns)).take (max limit 1))
      (Backend.memory.pageRows store table limit start) := by
    have hsame : start.map Backend.memory.address = start := by
      cases start <;> rfl
    rw [Backend.pageRows, hsame]
    exact List.forall₂_take _ hafter
  have hlast : ((((texts.rows table.name).after (start.map Backend.columns)).take
        (max limit 1)).getLast?.map fun row =>
          (⟨row.1.partition, if table.sort.isSome then row.1.sort else none⟩ : Key)) =
      (Backend.memory.pageRows store table limit start).getLast?.map fun row => row.1 := by
    have hkeys := congrArg (fun keys => keys.getLast?.map fun row : Key =>
      (⟨row.partition, if table.sort.isSome then row.sort else none⟩ : Key)) hrows.keys_eq
    simp only [List.getLast?_map, Option.map_map] at hkeys
    refine Eq.trans hkeys (Option.map_congr ?_)
    intro row hmem
    have hrow := Backend.mem_of_mem_pageRows (List.mem_of_getLast? hmem)
    have hshown : Backend.database.shown table (Backend.columns row.1) = row.1 :=
      Backend.shown_columns (hfits row hrow)
    exact hshown
  unfold page
  rw [Backend.page_eq (Store.readsBack_memory store)]
  dsimp only
  rw [hrows.readAll_eq, hlast, List.Forall₂.length_eq hrows]
  rfl

/-- A step of a scan hands out what it hands out in memory, and goes on with a key that suits the table. -/
theorem step (h : Shows format texts store)
    (hfits : ∀ row ∈ (store.rows table.name).entries, row.1.sort.isSome = table.sort.isSome)
    {scan : Scan} (hstart : ∀ key ∈ scan.start, key.sort.isSome = table.sort.isSome) :
    ∃ item next, (∀ key ∈ Scan.start next, key.sort.isSome = table.sort.isSome) ∧
      scan.step (.ofEngine (perform format) table) texts = (item, next, texts) ∧
      scan.step (.ofEngine Backend.memory.perform table) store = (item, next, store) := by
  cases hbuffer : scan.buffer with
  | cons record buffer =>
      exact ⟨.some (.record record), { scan with buffer }, hstart, Scan.step_of_buffer hbuffer,
        Scan.step_of_buffer hbuffer⟩
  | nil =>
      cases hover : scan.exhausted with
      | true => exact ⟨_, _, hstart, Scan.step_of_exhausted hbuffer hover,
          Scan.step_of_exhausted hbuffer hover⟩
      | false =>
          have hpage := h.page_eq hfits scan.pageSize hstart
          have hmemory : Backend.memory.page store table scan.pageSize scan.start = _ :=
            Backend.page_eq (Store.readsBack_memory store) scan.pageSize scan.start
          simp only [Scan.step, hbuffer, hover, Bool.false_eq_true, if_false, Scan.Fetch.ofEngine,
            perform, Backend.perform, hpage, hmemory]
          refine ⟨_, _, ?_, rfl, rfl⟩
          intro key hkey
          dsimp only at hkey
          split at hkey
          · obtain ⟨row, hlast, rfl⟩ := Option.map_eq_some_iff.1 hkey
            exact hfits row (Backend.mem_of_mem_pageRows (List.mem_of_getLast? hlast))
          · cases hkey

/-- A scan keeps what it keeps in memory. -/
theorem drain (h : Shows format texts store)
    (hfits : ∀ row ∈ (store.rows table.name).entries, row.1.sort.isSome = table.sort.isSome)
    (keep : Record → Bool) (fuel : Nat) {scan : Scan}
    (hstart : ∀ key ∈ scan.start, key.sort.isSome = table.sort.isSome) (kept : List Record) :
    (scan.drain (.ofEngine (perform format) table) keep fuel texts kept).1 =
      (scan.drain (.ofEngine Backend.memory.perform table) keep fuel store kept).1 := by
  induction fuel generalizing scan kept with
  | zero => rfl
  | succ fuel ih =>
      obtain ⟨item, next, hnext, hstep, hstep'⟩ := h.step hfits hstart
      simp only [Scan.drain, hstep, hstep']
      cases item with
      | none => exact ih hnext kept
      | some item =>
          cases item with
          | record record => exact ih hnext _
          | failure error => rfl
          | finished => rfl

end Shows

/-- A search of a declared index gives, in key order, the records whose attribute is equal as JSON to the
value looked for and has its column. So null is never found, and all records that have any other value are
found unless it is an array or object with zeros. A memory gives all records that have the value, and so
does a scan that compares every record, in memory and in the database, there if the keys of the table suit
it. -/
theorem query_of_extracts (hextract : format.ExtractsColumns) (hshows : Shows format texts store)
    (hindex : name ∈ table.indexes) (hname : name ≠ table.partition)
    (hplain : Backend.isPlainName name = true) (value : Value) :
    let searched := (perform format texts (.query table name value)).1
    let having := store.having table.name name value
    searched = .ok (having.filter fun record =>
        (Column.ofAttribute (record.get? name)).equal (.sought value)) ∧
      (value = .null → searched = .ok []) ∧
      (value.indexable = true → searched = .ok having) ∧
      (Backend.memory.perform store (.query table name value)).1 = .ok having ∧
      ∀ pageSize fuel, Scan.steps (store.rows table.name).size ≤ fuel →
        ((Scan.begin pageSize).drain (.ofEngine Backend.memory.perform table)
            (fun record => record.holds name value) fuel store []).1 = some (.ok having) ∧
          ((∀ row ∈ (store.rows table.name).entries, row.1.sort.isSome = table.sort.isSome) →
            ((Scan.begin pageSize).drain (.ofEngine (perform format) table)
              (fun record => record.holds name value) fuel texts []).1 = some (.ok having)) := by
  intro searched having
  have hsearched : searched = .ok (having.filter fun record =>
      (Column.ofAttribute (record.get? name)).equal (.sought value)) :=
    hshows.query_eq hextract hindex hname hplain value
  refine ⟨hsearched, fun hnull => ?_, fun hindexable => ?_,
    Backend.query_memory hindex hname store value, fun pageSize fuel hfuel => ?_⟩
  · subst hnull
    rw [hsearched, List.filter_eq_nil_iff.2 fun record _ => Column.not_equal_null _]
  · rw [hsearched, List.filter_eq_self.2]
    intro record hmem
    obtain ⟨held, hget, hsame⟩ := Record.holds_iff.1 (List.mem_filter.1 hmem).2
    rw [hget]
    exact Value.indexable_iff.1 hindexable held hsame
  · have hmemory := Scan.drain_memory table name store value pageSize hfuel
    refine ⟨hmemory, fun hfits => ?_⟩
    rw [hshows.drain hfits _ fuel (by rintro key ⟨⟩)]
    exact hmemory

/-- A text is looked for in a table with one row. -/
theorem query_of_extracts_thing :
    let table : Table := { name := "Things", partition := "Id", indexes := ["State"] }
    let record := (Record.empty.insert "Id" (.string "1")).insert "State" (.string "on")
    let store := Backend.write {} table ⟨"1", none⟩ record
    let texts := ({} : Texts).filed "Things"
      (SortedMap.insert {} (Backend.columns ⟨"1", none⟩) record.toValue.compact)
    let having := store.having "Things" "State" (.string "on")
    TextFormat.json.ExtractsColumns ∧ Shows .json texts store ∧ having.length = 1 ∧
      (perform .json texts (.query table "State" (.string "on"))).1 = .ok having ∧
      ((Scan.begin 1).drain (.ofEngine (perform .json) table)
        (fun record => record.holds "State" (.string "on")) 5 texts []).1 = some (.ok having) := by
  intro table record store texts having
  have hread : Record.read record.toValue.compact = .ok record :=
    @Backend.reread_of_texts .database record (by decide +kernel) (by decide +kernel)
  have hshows : Shows .json texts store := by
    intro name
    rw [rows_filed, Backend.rows_write]
    split
    · exact .cons ⟨rfl, hread⟩ .nil
    · exact .nil
  have hindex : "State" ∈ table.indexes := by decide
  have hname : "State" ≠ table.partition := by decide
  obtain ⟨-, -, hfound, -, hscan⟩ := query_of_extracts TextFormat.extractsColumns_json hshows hindex
    hname (by decide) (.string "on")
  exact ⟨TextFormat.extractsColumns_json, hshows, by decide +kernel, hfound rfl,
    (hscan 1 5 (by decide +kernel)).2 (by decide +kernel)⟩

end Texts

/-- No column equals null, so a database finds nothing. -/
theorem Backend.database_query_null {table : Table} {name : String} (hindex : name ∈ table.indexes)
    (hname : name ≠ table.partition) (hplain : isPlainName name = true) (store : Store) :
    database.query store table name .null = .ok [] := by
  have hqueryable : table.isQueryable name = true := Table.isQueryable_of_mem hindex
  have hsearch : database.searchable name = true := hplain
  have hnone : ((store.rows table.name).entries.filter fun row =>
      database.candidate (row.2.get? name) .null) = [] := by
    refine List.filter_eq_nil_iff.2 fun row _ => ?_
    show ¬ columnMatches (row.2.get? name) .null = true
    cases row.2.get? name with
    | none => simp [columnMatches]
    | some held => exact Column.not_equal_null _
  simp only [query, hqueryable, hname, hsearch, hnone, Bool.not_true, Bool.false_eq_true, if_false]
  rfl

/-- An attribute that is null is found in memory and missed in a database. -/
theorem database_misses_null :
    let table := Pool.accountTable "Accounts"
    let record := (Record.empty.insert Account.idName (.string "1")).insert Account.statusName .null
    let stored (backend : Backend) := (backend.perform {} (.put table record none)).2
    let found (backend : Backend) :=
      (backend.perform (stored backend) (.query table Account.statusName .null)).1
    let having (backend : Backend) := (stored backend).having "Accounts" Account.statusName .null
    (having .database).length = 1 ∧ found .database = .ok [] ∧
      (having .memory).length = 1 ∧ found .memory = .ok (having .memory) := by
  intro table record stored found having
  have hindex : Account.statusName ∈ table.indexes := by decide
  have hname : Account.statusName ≠ table.partition := by decide
  refine ⟨by decide +kernel, ?_, by decide +kernel, ?_⟩
  · exact Backend.database_query_null hindex hname (by decide) (stored .database)
  · exact Backend.query_memory hindex hname (stored .memory) .null

end AccountPool
