import AccountPool.Proofs.Store.Alike
import AccountPool.Proofs.Store.Rows
import AccountPool.Store.Column

/-!
# Tables of texts that are changed in transactions

A database keeps every record as a text and changes its tables in transactions: the statements of a write
work on tables of their own, which are kept if all statements succeed and dropped otherwise. A look-up by an
attribute for which there is no index makes one first. `Texts.perform` does all this step by step, for any
text of records and any way to extract a column from a text. A run gets the answers of `Backend.databaseWith` as
long as every record is read as it was filed, `Texts.exchanges_eq`.
-/

namespace AccountPool

open Json (Value)

namespace SortedMap

variable {κ ν ν' : Type} [Ord κ]

/-- The map with a function applied to its values. -/
def mapValues (map : SortedMap κ ν) (f : ν → ν') : SortedMap κ ν' where
  entries := map.entries.map fun entry => (entry.1, f entry.2)
  sorted := List.pairwise_map.2 map.sorted

/-- What is found in a map after a function was applied to its values. -/
theorem find?_mapValues (map : SortedMap κ ν) (f : ν → ν') (key : κ) :
    (map.mapValues f).find? key = (map.find? key).map f := by
  show lookup key (map.entries.map fun entry => (entry.1, f entry.2)) = (lookup key map.entries).map f
  induction map.entries with
  | nil => rfl
  | cons head rest ih =>
      obtain ⟨other, held⟩ := head
      simp only [List.map_cons, lookup]
      cases compare key other with
      | eq => rfl
      | lt | gt => exact ih

/-- What comes after a key in a map after a function was applied to its values. -/
theorem after_mapValues (map : SortedMap κ ν) (f : ν → ν') (start : Option κ) :
    (map.mapValues f).after start = (map.after start).map fun entry => (entry.1, f entry.2) := by
  cases start with
  | none => rfl
  | some start => exact List.filter_map

variable [Std.LawfulEqOrd κ] [Std.TransOrd κ] [DecidableEq κ]

/-- A function may be applied to a value before it is filed. -/
theorem insert_mapValues (map : SortedMap κ ν) (f : ν → ν') (key : κ) (value : ν) :
    (map.mapValues f).insert key (f value) = (map.insert key value).mapValues f := by
  refine ext_find? fun other => ?_
  simp only [find?_insert, find?_mapValues]
  split <;> rfl

/-- A row may be removed before a function is applied to the values. -/
theorem erase_mapValues (map : SortedMap κ ν) (f : ν → ν') (key : κ) :
    (map.mapValues f).erase key = (map.erase key).mapValues f := by
  refine ext_find? fun other => ?_
  simp only [find?_erase, find?_mapValues]
  split <;> rfl

end SortedMap

/-- How a database keeps records. -/
structure TextFormat where
  /-- The text of a record. -/
  print : Record → String
  /-- The record with a text. -/
  read : String → Except Json.Fault Record
  /-- The column value of an attribute, from the text of its record. -/
  extract : String → String → Except EngineFault Column

/-- The column value of an attribute; an absent one is null. -/
def Column.ofAttribute : Option Value → Column
  | none => null
  | some value => sought value

/-- The engine extracts the column of an attribute with a plain name from the text of a record. -/
def TextFormat.ExtractsColumns (format : TextFormat) : Prop :=
  ∀ text record name, Backend.isPlainName name = true → format.read text = .ok record →
    format.extract text name = .ok (.ofAttribute (record.get? name))

/-- The record with a JSON text. -/
def Record.read (text : String) : Except Json.Fault Record :=
  match Value.parse text with
  | .ok value => (ofValue value).mapError .ofMismatch
  | .error fault => .error fault

/-- Records are kept as JSON texts, and the column of an attribute is that of the value in the text. -/
def TextFormat.json : TextFormat where
  print record := record.toValue.compact
  read := Record.read
  extract text name :=
    match Record.read text with
    | .ok record => .ok (.ofAttribute (record.get? name))
    | .error _ => .error .malformed

/-- Columns are extracted from JSON texts. -/
theorem TextFormat.extractsColumns_json : json.ExtractsColumns := by
  intro text record name _ hread
  show (match Record.read text with | .ok record => _ | .error _ => _) = _
  rw [show Record.read text = .ok record from hread]

/-! ## Records that have nothing but texts -/

/-- A value with a text is that text. -/
theorem Json.Value.string?_eq_some {value : Value} {text : String} :
    value.string? = some text ↔ value = .string text := by
  cases value <;> simp [Value.string?]

/-- The attributes of a record that are texts; the others are named only. -/
def Record.texts (record : Record) : List (String × Option String) :=
  record.attributes.entries.map fun entry => (entry.1, entry.2.string?)

/-- A record that has nothing but texts is known by them. -/
theorem Record.eq_of_texts {first second : Record} (htexts : first.texts = second.texts)
    (hall : ∀ entry ∈ second.texts, entry.2.isSome = true) : first = second := by
  have hsame : first.attributes.entries = second.attributes.entries := by
    unfold texts at htexts hall
    generalize first.attributes.entries = entries at htexts
    generalize second.attributes.entries = entries' at htexts hall
    induction entries' generalizing entries with
    | nil => exact List.map_eq_nil_iff.1 htexts
    | cons entry' entries' ih =>
        cases entries with
        | nil => cases htexts
        | cons entry entries =>
            obtain ⟨hentry, hentries⟩ := List.cons.inj htexts
            obtain ⟨hname, htext⟩ := Prod.ext_iff.1 hentry
            obtain ⟨text, htext'⟩ := Option.isSome_iff_exists.1 (hall _ List.mem_cons_self)
            rw [ih _ hentries fun other hmem => hall other (List.mem_cons_of_mem _ hmem)]
            have hvalue : entry.2 = entry'.2 := by
              rw [Value.string?_eq_some.1 (htext.trans htext'), Value.string?_eq_some.1 htext']
            exact congrArg (· :: entries') (Prod.ext hname hvalue)
  obtain ⟨⟨entries, sorted⟩⟩ := first
  obtain ⟨⟨entries', sorted'⟩⟩ := second
  obtain rfl : entries = entries' := hsame
  rfl

/-- A record that has nothing but texts is read as it was filed if its texts are. -/
theorem Backend.reread_of_texts {backend : Backend} {record : Record}
    (htexts : (backend.reread record).toOption.map Record.texts = some record.texts)
    (hall : ∀ entry ∈ record.texts, entry.2.isSome = true) : backend.reread record = .ok record := by
  cases hread : backend.reread record with
  | error fault =>
      rw [hread] at htexts
      cases htexts
  | ok found =>
      rw [hread] at htexts
      rw [Record.eq_of_texts (Option.some.inj htexts) hall]

/-! ## What a database holds -/

/-- What a database holds: a text for every row of every table, and the attributes with an index. -/
structure Texts where
  tables : SortedMap String (SortedMap Key String) := {}
  indexes : List String := []

namespace Texts

/-- The rows of a table. -/
def rows (texts : Texts) (name : String) : SortedMap Key String :=
  (texts.tables.find? name).getD {}

/-- Other rows under a table name. -/
def filed (texts : Texts) (name : String) (rows : SortedMap Key String) : Texts :=
  { texts with tables := texts.tables.insert name rows }

/-- The rows of all tables after some were filed. -/
theorem rows_filed (texts : Texts) (name : String) (rows : SortedMap Key String) (other : String) :
    (texts.filed name rows).rows other = if other = name then rows else texts.rows other := by
  unfold filed Texts.rows
  rw [SortedMap.find?_insert]
  split <;> rfl

/-- The texts in all rows. -/
def all (texts : Texts) : List String :=
  texts.tables.entries.flatMap fun table => table.2.entries.map Prod.snd

/-- Statements that are executed until one of them fails. -/
abbrev Statements (α : Type) : Type :=
  ExceptT StoreError (StateM Texts) α

/-- Execute statements as one transaction: if one fails, the tables are again what they were. -/
def atomically {α : Type} (write : Statements α) (texts : Texts) : Except StoreError α × Texts :=
  match write.run.run texts with
  | (.ok reply, next) => (.ok reply, next)
  | (.error error, _) => (.error error, texts)

variable (format : TextFormat)

/-- The record with a text, if there is a text. -/
def readText : Option String → Except StoreError (Option Record)
  | none => .ok none
  | some text => (some <$> format.read text).mapError .unreadable

/-- The record of a row. -/
def readRecord (table : Table) (key : Key) : Statements (Option Record) := do
  let texts ← get
  ExceptT.mk (pure (readText format ((texts.rows table.name).find? (Backend.columns key))))

/-- Write a record in a row. -/
def writeRecord (table : Table) (key : Key) (record : Record) : Statements Unit :=
  modify fun texts => texts.filed table.name
    ((texts.rows table.name).insert (Backend.columns key) (format.print record))

/-- Delete a row. -/
def deleteRecord (table : Table) (key : Key) : Statements Unit :=
  modify fun texts => texts.filed table.name
    ((texts.rows table.name).erase (Backend.columns key))

/-- The record of a row, if a condition holds for it. -/
def checkRecord (table : Table) (key : Key) (condition : Option Condition) :
    Statements (Option Record) := do
  let current ← readRecord format table key
  if Condition.allows condition current then pure current
  else throw (.conditionFailed table.name)

/-- File a record in a transaction. -/
def put (texts : Texts) (table : Table) (record : Record) (condition : Option Condition) :
    Except StoreError (Option Record) × Texts :=
  match table.keyOf record with
  | .error error => (.error error, texts)
  | .ok key =>
      texts.atomically do
        let previous ← checkRecord format table key condition
        writeRecord format table key record
        pure previous

/-- Set attributes of a record in a transaction. -/
def update (texts : Texts) (table : Table) (key : Key) (assignments : Assignments)
    (condition : Option Condition) : Except StoreError Record × Texts :=
  texts.atomically do
    let current ← checkRecord format table key condition
    let next := (current.getD (table.keyRecord key)).assign assignments
    writeRecord format table key next
    pure next

/-- Remove a record, if there is one, in a transaction. -/
def delete (texts : Texts) (table : Table) (key : Key) (condition : Option Condition) :
    Except StoreError (Option Record) × Texts :=
  texts.atomically do
    let current ← checkRecord format table key condition
    if current.isSome then deleteRecord table key
    pure current

/-- The records of rows, in order; the first text that is not a record's is reported. -/
def readAll (rows : List (Key × String)) : Except StoreError (List Record) :=
  rows.mapM fun row => (format.read row.2).mapError .unreadable

/-- Make an index on an attribute, unless there is one; the attribute is extracted from every text. -/
def index (texts : Texts) (name : String) : Except EngineFault Texts :=
  if texts.indexes.contains name then .ok texts
  else do
    texts.all.forM fun text => discard (format.extract text name)
    pure { texts with indexes := name :: texts.indexes }

/-- The rows whose column of an attribute equals the one looked for. -/
def select (name : String) (value : Value) :
    List (Key × String) → Except EngineFault (List (Key × String))
  | [] => .ok []
  | row :: rows => do
      let column ← format.extract row.2 name
      let selected ← select name value rows
      pure (if column.equal (.sought value) then row :: selected else selected)

/-- Look records up by an attribute. Column values that are equal may be those of different values, so the
records are compared again. -/
def query (texts : Texts) (table : Table) (name : String) (value : Value) :
    Except StoreError (List Record) × Texts :=
  if !table.isQueryable name then (.error (.notIndexed table.name name), texts)
  else if name = table.partition then
    match value.string? with
    | none => (.ok [], texts)
    | some partition =>
        (readAll format ((texts.rows table.name).entries.filter fun row =>
          row.1.partition == partition), texts)
  else if !Backend.isPlainName name then (.error (.invalidAttributeName name), texts)
  else
    match index format texts name with
    | .error fault => (.error (.engine fault), texts)
    | .ok texts =>
        match select format name value (texts.rows table.name).entries with
        | .error fault => (.error (.engine fault), texts)
        | .ok rows =>
            ((readAll format rows).map fun records =>
              records.filter fun record => record.holds name value, texts)

/-- Show a part of a table. -/
def page (texts : Texts) (table : Table) (limit : Nat) (start : Option Key) :
    Except StoreError Page := do
  let limit := max limit 1
  let rows := ((texts.rows table.name).after (start.map Backend.columns)).take limit
  let records ← readAll format rows
  let last := if rows.length = limit then
      rows.getLast?.map fun row => ⟨row.1.partition, if table.sort.isSome then row.1.sort else none⟩
    else none
  pure ⟨records, last⟩

/-- The tables of a database as an engine. -/
def perform : Engine Texts := fun texts request =>
  match request with
  | .get table key => (((readRecord format table key).run.run texts).1, texts)
  | .put table record condition => put format texts table record condition
  | .update table key assignments condition => update format texts table key assignments condition
  | .delete table key condition => delete format texts table key condition
  | .query table name value => query format texts table name value
  | .page table limit start => (page format texts table limit start, texts)

/-! ## Transactions -/

/-- A transaction that fails changes nothing. -/
theorem atomically_of_error {α : Type} {write : Statements α} {texts : Texts} {error : StoreError}
    (herror : (texts.atomically write).1 = .error error) : (texts.atomically write).2 = texts := by
  unfold atomically at herror ⊢
  split
  · next hwrite =>
      rw [hwrite] at herror
      cases herror
  · rfl

/-- Statements are executed after the first ones, unless these fail. -/
theorem run_bind {α β : Type} (first : Statements α) (rest : α → Statements β) (texts : Texts) :
    (first >>= rest).run.run texts =
      match first.run.run texts with
      | (.ok reply, next) => (rest reply).run.run next
      | (.error error, next) => (.error error, next) := by
  show (ExceptT.bindCont rest (first.run.run texts).1 : StateM Texts _) (first.run.run texts).2 = _
  cases first.run.run texts with
  | mk answer next =>
  cases answer with
  | ok reply => rfl
  | error error => rfl

/-- A transaction whose first statements fail, fails. -/
theorem atomically_bind_error {α β : Type} {first : Statements α} {rest : α → Statements β}
    {texts next : Texts} {error : StoreError} (hfirst : first.run.run texts = (.error error, next)) :
    texts.atomically (first >>= rest) = (.error error, texts) := by
  rw [atomically, run_bind, hfirst]

/-- A transaction whose first statements succeed without a change goes on with the rest. -/
theorem atomically_bind_ok {α β : Type} {first : Statements α} {rest : α → Statements β}
    {texts : Texts} {reply : α} (hfirst : first.run.run texts = (.ok reply, texts)) :
    texts.atomically (first >>= rest) = texts.atomically (rest reply) := by
  rw [atomically, run_bind, hfirst]
  rfl

/-! ## Texts of records -/

/-- The texts are those of the records of a store. -/
def Holds (format : TextFormat) (texts : Texts) (store : Store) : Prop :=
  ∀ name, texts.rows name = (store.rows name).mapValues format.print

/-- The backend whose records are read back from their texts. -/
def backend (format : TextFormat) (candidate : Option Value → Value → Bool) : Backend :=
  .databaseWith (fun record => format.read (format.print record)) candidate

variable {format} {candidate : Option Value → Value → Bool} {texts : Texts} {store : Store}
  {table : Table} {key : Key}

/-- The same record is filed on both sides. -/
theorem Holds.write (h : Holds format texts store) (table : Table) (key : Key) (record : Record) :
    Holds format
      (texts.filed table.name ((texts.rows table.name).insert (Backend.columns key) (format.print record)))
      (Backend.write store table (Backend.columns key) record) := by
  intro name
  rw [rows_filed, Backend.rows_write, h table.name, h name, SortedMap.insert_mapValues]
  split <;> rfl

/-- The same row is removed on both sides. -/
theorem Holds.remove (h : Holds format texts store) (table : Table) (key : Key) :
    Holds format
      (texts.filed table.name ((texts.rows table.name).erase (Backend.columns key)))
      (Backend.remove store table (Backend.columns key)) := by
  intro name
  rw [rows_filed, Backend.rows_remove, h table.name, h name, SortedMap.erase_mapValues]
  split <;> rfl

/-- No row need be removed where there is none. -/
theorem Holds.remove_of_absent (h : Holds format texts store)
    (hnone : (store.rows table.name).find? (Backend.columns key) = none) :
    Holds format texts (Backend.remove store table (Backend.columns key)) := by
  intro name
  have hsame : (Backend.remove store table (Backend.columns key)).rows name = store.rows name := by
    refine SortedMap.ext_find? fun other => ?_
    rw [Backend.find?_remove]
    split
    · next hrow => rw [hrow.1, hrow.2, hnone]
    · rfl
  rw [hsame, h name]

section Statements

variable (candidate) (h : Holds format texts store)

include h

/-- The record of a row is read from its text. -/
theorem run_readRecord (table : Table) (key : Key) :
    (readRecord format table key).run.run texts =
      ((backend format candidate).read store table (Backend.columns key), texts) := by
  show (readText format ((texts.rows table.name).find? (Backend.columns key)), texts) = _
  rw [h, SortedMap.find?_mapValues, Backend.read]
  cases (store.rows table.name).find? (Backend.columns key) with
  | none => rfl
  | some record => rfl

/-- A condition is checked against the record that is read. -/
theorem run_checkRecord (table : Table) (key : Key) (condition : Option Condition) :
    (checkRecord format table key condition).run.run texts =
      ((backend format candidate).guarded store table (Backend.columns key) condition, texts) := by
  rw [checkRecord, run_bind, run_readRecord candidate h, Backend.guarded]
  cases (backend format candidate).read store table (Backend.columns key) with
  | error error => rfl
  | ok current =>
      simp only [bind, Except.bind]
      split <;> rfl

end Statements

/-- Records of rows are read from their texts. -/
theorem readAll_map (candidate : Option Value → Value → Bool) (rows : List (Key × Record)) :
    readAll format (rows.map fun row => (row.1, format.print row.2)) =
      (backend format candidate).readAll rows :=
  List.mapM_map

/-- The values that are compared are columns that the engine extracts without a fault from the text of a record
that is read back from it. -/
def Extracts (format : TextFormat) (candidate : Option Value → Value → Bool) : Prop :=
  ∀ record name value, format.read (format.print record) = .ok record → Backend.isPlainName name = true →
    ∃ column, format.extract (format.print record) name = .ok column ∧
      column.equal (.sought value) = candidate (record.get? name) value

/-- If columns are extracted, then they are compared. -/
theorem extracts_of_extractsColumns (hextract : format.ExtractsColumns) :
    Extracts format fun held value => (Column.ofAttribute held).equal (.sought value) :=
  fun _ _ _ hread hplain => ⟨_, hextract _ _ _ hplain hread, rfl⟩

/-- A search for equal columns finds the texts of the candidates. -/
theorem select_map (hextract : Extracts format candidate) {name : String}
    (hplain : Backend.isPlainName name = true) (value : Value) {rows : List (Key × Record)}
    (hread : ∀ row ∈ rows, format.read (format.print row.2) = .ok row.2) :
    select format name value (rows.map fun row => (row.1, format.print row.2)) =
      .ok ((rows.filter fun row => candidate (row.2.get? name) value).map fun row =>
        (row.1, format.print row.2)) := by
  induction rows with
  | nil => rfl
  | cons row rows ih =>
      obtain ⟨hrow, hrows⟩ := List.forall_mem_cons.1 hread
      obtain ⟨column, hcolumn, hequal⟩ := hextract row.2 name value hrow hplain
      rw [List.map_cons, select, hcolumn, ih hrows]
      show Except.ok (if column.equal (.sought value) then _ else _) = _
      rw [hequal, List.filter_cons]
      split <;> rfl

/-- Every text stands in a row of a table. -/
theorem exists_of_mem_all {text : String} (hmem : text ∈ texts.all) :
    ∃ name row, (texts.rows name).find? row = some text := by
  obtain ⟨⟨name, rows⟩, htable, htext⟩ := List.mem_flatMap.1 hmem
  obtain ⟨row, hrow, rfl⟩ := List.mem_map.1 htext
  refine ⟨name, row.1, ?_⟩
  rw [Texts.rows, SortedMap.mem_entries_iff.1 htable]
  exact SortedMap.mem_entries_iff.1 hrow

/-- An index is made if a column can be extracted from every text, and changes no rows. -/
theorem exists_index_of_forall {name : String}
    (hextract : ∀ text ∈ texts.all, ∃ column, format.extract text name = .ok column) :
    ∃ next, index format texts name = .ok next ∧ ∀ other, next.rows other = texts.rows other := by
  unfold index
  split
  · exact ⟨texts, rfl, fun _ => rfl⟩
  · have hall : (texts.all.forM fun text => discard (format.extract text name)) = Except.ok () := by
      generalize texts.all = list at hextract
      induction list with
      | nil => rfl
      | cons text list ih =>
          obtain ⟨column, hcolumn⟩ := hextract text List.mem_cons_self
          show (discard (format.extract text name) >>= fun _ => list.forM _) = _
          rw [hcolumn]
          exact ih fun other hmem => hextract other (List.mem_cons_of_mem _ hmem)
    rw [hall]
    exact ⟨_, rfl, fun _ => rfl⟩

/-- Every text is that of a record in a row. -/
theorem Holds.of_mem_all (h : Holds format texts store) {text : String} (hmem : text ∈ texts.all) :
    ∃ name row record, (store.rows name).find? row = some record ∧ format.print record = text := by
  obtain ⟨name, row, hrow⟩ := exists_of_mem_all hmem
  rw [h name, SortedMap.find?_mapValues] at hrow
  exact ⟨name, row, Option.map_eq_some_iff.1 hrow⟩

section Reading

variable (hextract : Extracts format candidate) (h : Holds format texts store)
  (hread : store.ReadsBack (backend format candidate))

include hextract h hread

/-- An index is made without a fault, and changes no rows. -/
theorem exists_index {name : String} (hplain : Backend.isPlainName name = true) :
    ∃ next, index format texts name = .ok next ∧ ∀ other, next.rows other = texts.rows other := by
  refine exists_index_of_forall fun text hmem => ?_
  obtain ⟨other, row, record, hfind, rfl⟩ := h.of_mem_all hmem
  obtain ⟨column, hcolumn, -⟩ := hextract record name .null (hread other row record hfind) hplain
  exact ⟨column, hcolumn⟩

/-- Rows are looked up as by the backend. -/
theorem query_alike (name : String) (value : Value) :
    ∃ next, Holds format next store ∧ query format texts table name value =
      ((backend format candidate).query store table name value, next) := by
  have hentries : (texts.rows table.name).entries =
      (store.rows table.name).entries.map fun row => (row.1, format.print row.2) := by
    rw [h]
    rfl
  unfold query Backend.query
  cases table.isQueryable name with
  | false => exact ⟨texts, h, rfl⟩
  | true =>
      by_cases hname : name = table.partition
      · refine ⟨texts, h, ?_⟩
        simp only [Bool.not_true, Bool.false_eq_true, if_false, if_pos hname]
        cases value.string? with
        | none =>
            have hnone : ((store.rows table.name).entries.filter fun row =>
                (none : Option String) == some row.1.partition) = [] :=
              List.filter_eq_nil_iff.2 fun _ _ => by simp
            rw [hnone]
            rfl
        | some partition =>
            simp only
            rw [hentries, List.filter_map, readAll_map candidate]
            congr 3
            funext row
            exact BEq.comm
      · simp only [Bool.not_true, Bool.false_eq_true, if_false, if_neg hname]
        cases hplain : Backend.isPlainName name with
        | false =>
            have hsearch : (backend format candidate).searchable name = false := hplain
            rw [hsearch]
            exact ⟨texts, h, rfl⟩
        | true =>
            have hsearch : (backend format candidate).searchable name = true := hplain
            obtain ⟨next, hindex, hrows⟩ := exists_index hextract h hread hplain
            have hback : ∀ row ∈ (store.rows table.name).entries,
                format.read (format.print row.2) = .ok row.2 := fun row hmem =>
              hread table.name row.1 row.2 (SortedMap.mem_entries_iff.1 hmem)
            refine ⟨next, fun other => (hrows other).trans (h other), ?_⟩
            rw [hsearch]
            simp only [Bool.not_true, Bool.false_eq_true, if_false, hindex, hrows, hentries,
              select_map hextract hplain value hback, readAll_map candidate]
            have hmap (found : Except StoreError (List Record)) (keep : List Record → List Record) :
                found.map keep = found >>= fun records => pure (keep records) := by
              cases found <;> rfl
            exact congrArg (·, next) (hmap _ _)

end Reading

/-- A page shows the same records and names the same key. -/
theorem page_alike (h : Holds format texts store) (limit : Nat) (start : Option Key) :
    page format texts table limit start = (backend format candidate).page store table limit start := by
  have hafter : (texts.rows table.name).after (start.map Backend.columns) =
      ((store.rows table.name).after (start.map Backend.columns)).map fun row =>
        (row.1, format.print row.2) := by
    rw [h, SortedMap.after_mapValues]
  unfold page Backend.page
  dsimp only
  rw [hafter, ← List.map_take, readAll_map candidate, List.length_map,
    List.getLast?_map, Option.map_map]
  rfl

/-- A transaction that checks a condition and then goes on as a write of the backend does is answered as
the write is. -/
theorem atomically_alike {ρ : Type} (h : Holds format texts store) (table : Table) (key : Key)
    (condition : Option Condition) {rest : Option Record → Statements ρ}
    (effect : Option Record → ρ × Store)
    (hrest : ∀ current, (backend format candidate).guarded store table (Backend.columns key) condition =
        .ok current →
      ∃ after, Holds format after (effect current).2 ∧
        (rest current).run.run texts = (.ok (effect current).1, after)) :
    ∃ answer after after', Holds format after after' ∧
      texts.atomically (checkRecord format table key condition >>= rest) = (answer, after) ∧
      Backend.settle store
        ((backend format candidate).guarded store table (Backend.columns key) condition >>=
          fun current => pure (effect current)) = (answer, after') := by
  have hcheck := run_checkRecord candidate h table key condition
  cases hguarded : (backend format candidate).guarded store table (Backend.columns key) condition with
  | error error =>
      rw [hguarded] at hcheck
      exact ⟨.error error, texts, store, h, atomically_bind_error hcheck, rfl⟩
  | ok current =>
      rw [hguarded] at hcheck
      obtain ⟨after, hafter, hrun⟩ := hrest current hguarded
      refine ⟨.ok (effect current).1, after, (effect current).2, hafter, ?_, rfl⟩
      rw [atomically_bind_ok hcheck, atomically, hrun]

/-- Every request is answered as by the backend, and has the same effect on the rows, if each record is read as it
was filed. -/
theorem perform_alike (hextract : Extracts format candidate) (h : Holds format texts store)
    (hread : store.ReadsBack (backend format candidate)) (request : Request) :
    ∃ answer after after', Holds format after after' ∧ perform format texts request = (answer, after) ∧
      (backend format candidate).perform store request = (answer, after') := by
  cases request with
  | get table key =>
      refine ⟨_, _, _, h, ?_, rfl⟩
      rw [perform, run_readRecord candidate h]
      rfl
  | put table record condition =>
      cases hkey : table.keyOf record with
      | error error =>
          refine ⟨.error error, texts, store, h, ?_, ?_⟩
          · simp only [perform, put, hkey]
          · simp only [Backend.perform, Backend.put, hkey]
            rfl
      | ok key =>
          simp only [perform, put, Backend.perform, Backend.put, hkey]
          refine atomically_alike h table key condition (fun current => (current, _))
            fun current _ => ?_
          exact ⟨_, h.write table key record, rfl⟩
  | update table key assignments condition =>
      refine atomically_alike h table key condition (fun current => (_, _)) fun current _ => ?_
      exact ⟨_, h.write table key _, rfl⟩
  | delete table key condition =>
      refine atomically_alike h table key condition (fun current => (_, _)) fun current hguarded => ?_
      cases current with
      | none => exact ⟨_, h.remove_of_absent (Backend.find?_of_guarded_none hguarded), rfl⟩
      | some record => exact ⟨_, h.remove table key, rfl⟩
  | query table name value =>
      obtain ⟨next, hnext, hquery⟩ := query_alike hextract h hread name value
      exact ⟨_, next, store, hnext, hquery, rfl⟩
  | page table limit start =>
      refine ⟨_, texts, store, h, ?_, rfl⟩
      rw [perform, page_alike h]

/-- A run gets the answers of the database whose records are read back from their texts, if at any time of the run
each record is read as it was filed. -/
theorem exchanges_eq (hextract : Extracts format candidate) (h : Holds format texts store)
    {requests : List Request}
    (hread : ∀ before, before <+: requests →
      ((backend format candidate).perform.after store before).ReadsBack (backend format candidate)) :
    (perform format).exchanges texts requests =
      (backend format candidate).perform.exchanges store requests := by
  induction requests generalizing texts store with
  | nil => rfl
  | cons request requests ih =>
      obtain ⟨answer, after, after', hafter, hperform, hperform'⟩ :=
        perform_alike hextract h (hread [] List.nil_prefix) request
      have hrest := ih hafter fun before hbefore => by
        have hnext := hread (request :: before) (List.cons_prefix_cons.2 ⟨rfl, hbefore⟩)
        rwa [Engine.after, hperform'] at hnext
      simp only [Engine.exchanges, hperform, hperform', hrest]

end Texts

end AccountPool
