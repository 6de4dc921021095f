import AccountPool.Proofs.Store.Tables
import AccountPool.Proofs.Store.Texts

/-!
# Memory and database answer alike

The database files every row under two texts, so that a missing sort value and an empty one are the same
row. As long as the keys of a table either all have a sort value or all have none, nothing is lost:
`compare_columns` says that the two texts keep the key order, `Mirrors` that the rows of both stores are
the same up to that renaming, and `Mirrors.perform` that every request keeps them so and is answered
alike. Which tables a memory lists is not shown, and neither are the transactions and the texts of a database,
so the tables of a memory and a database of texts answer alike as well.
-/

namespace AccountPool

open Json (Value)

/-! ## Lists of entries with other keys -/

section Rename

variable {κ : Type} [Ord κ] {ν : Type} {rename : κ → κ} {fits : κ → Prop}

/-- The renaming keeps the order of the keys that fit. -/
def KeepsOrder (rename : κ → κ) (fits : κ → Prop) : Prop :=
  ∀ first second, fits first → fits second →
    compare (rename first) (rename second) = compare first second

/-- A look-up under a renamed key finds what the key had. -/
theorem lookup_rename (hkeeps : KeepsOrder rename fits) {key : κ} (hkey : fits key)
    {entries : List (κ × ν)} (hentries : ∀ entry ∈ entries, fits entry.1) :
    SortedMap.lookup (rename key) (entries.map (Prod.map rename id)) =
      SortedMap.lookup key entries := by
  induction entries with
  | nil => rfl
  | cons entry entries ih =>
      obtain ⟨other, value⟩ := entry
      have horder := hkeeps key other hkey (hentries _ List.mem_cons_self)
      have hrest := ih fun entry hmem => hentries entry (List.mem_cons_of_mem _ hmem)
      simp only [List.map_cons, Prod.map_apply, id_eq, SortedMap.lookup, horder, hrest]

/-- Filing under a renamed key is filing before the renaming. -/
theorem place_rename (hkeeps : KeepsOrder rename fits) {key : κ} (hkey : fits key) (value : ν)
    {entries : List (κ × ν)} (hentries : ∀ entry ∈ entries, fits entry.1) :
    SortedMap.place (rename key) value (entries.map (Prod.map rename id)) =
      (SortedMap.place key value entries).map (Prod.map rename id) := by
  induction entries with
  | nil => rfl
  | cons entry entries ih =>
      obtain ⟨other, held⟩ := entry
      have horder := hkeeps key other hkey (hentries _ List.mem_cons_self)
      have hrest := ih fun entry hmem => hentries entry (List.mem_cons_of_mem _ hmem)
      simp only [List.map_cons, Prod.map_apply, id_eq, SortedMap.place, horder, hrest]
      cases compare key other <;> rfl

/-- Removing a renamed key is removing the key before the renaming. -/
theorem without_rename (hkeeps : KeepsOrder rename fits) {key : κ} (hkey : fits key)
    {entries : List (κ × ν)} (hentries : ∀ entry ∈ entries, fits entry.1) :
    SortedMap.without (rename key) (entries.map (Prod.map rename id)) =
      (SortedMap.without key entries).map (Prod.map rename id) := by
  induction entries with
  | nil => rfl
  | cons entry entries ih =>
      obtain ⟨other, held⟩ := entry
      have horder := hkeeps key other hkey (hentries _ List.mem_cons_self)
      have hrest := ih fun entry hmem => hentries entry (List.mem_cons_of_mem _ hmem)
      simp only [List.map_cons, Prod.map_apply, id_eq, SortedMap.without, horder, hrest]
      cases compare key other <;> rfl

/-- The entries after a renamed key are those after the key. -/
theorem filter_after_rename (hkeeps : KeepsOrder rename fits) {start : κ} (hstart : fits start)
    {entries : List (κ × ν)} (hentries : ∀ entry ∈ entries, fits entry.1) :
    (entries.map (Prod.map rename id)).filter (fun entry => compare (rename start) entry.1 == .lt) =
      (entries.filter fun entry => compare start entry.1 == .lt).map (Prod.map rename id) := by
  rw [List.filter_map]
  congr 1
  refine List.filter_congr ?_
  intro entry hmem
  simp [hkeeps start entry.1 hstart (hentries entry hmem)]

end Rename

/-! ## The two stores -/

/-- Among keys that all have a sort value, or all have none, columns keep the order. -/
theorem keepsOrder_columns (sorted : Bool) :
    KeepsOrder Backend.columns fun key => key.sort.isSome = sorted :=
  fun _ _ hfirst hsecond => Backend.compare_columns (hfirst.trans hsecond.symm)

/-- The rows of a database are those of a memory, filed under the columns of their keys. Whether the
keys of a table have a sort value is laid down by the table's name. -/
structure Mirrors (layout : String → Bool) (memory database : Store) : Prop where
  fits : ∀ table, ∀ row ∈ (memory.rows table).entries, row.1.sort.isSome = layout table
  entries : ∀ table, (database.rows table).entries =
    (memory.rows table).entries.map (Prod.map Backend.columns id)

namespace Mirrors

variable {layout : String → Bool} {memory database : Store}

/-- Two stores without rows mirror each other. -/
theorem empty (layout : String → Bool) : Mirrors layout {} {} where
  fits table row hmem := by cases hmem
  entries table := rfl

/-- A row of the database is found where the memory has it. -/
theorem find? (h : Mirrors layout memory database) {table : String} {key : Key}
    (hkey : key.sort.isSome = layout table) :
    (database.rows table).find? (Backend.columns key) = (memory.rows table).find? key := by
  unfold SortedMap.find?
  rw [h.entries]
  exact lookup_rename (keepsOrder_columns _) hkey (h.fits table)

/-- Filing one record under one key on both sides. -/
theorem write (h : Mirrors layout memory database) {table : Table} {key : Key}
    (hkey : key.sort.isSome = layout table.name) (record : Record) :
    Mirrors layout (Backend.write memory table key record)
      (Backend.write database table (Backend.columns key) record) where
  fits name row hmem := by
    rw [Backend.rows_write] at hmem
    split at hmem
    · next hname =>
        rcases SortedMap.mem_place hmem with rfl | hmem
        · rw [hname]
          exact hkey
        · rw [hname]
          exact h.fits table.name row hmem
    · exact h.fits name row hmem
  entries name := by
    rw [Backend.rows_write, Backend.rows_write]
    split
    · show SortedMap.place _ _ _ = List.map _ (SortedMap.place _ _ _)
      rw [h.entries]
      exact place_rename (keepsOrder_columns _) hkey record (h.fits table.name)
    · exact h.entries name

/-- Removing one key on both sides. -/
theorem remove (h : Mirrors layout memory database) {table : Table} {key : Key}
    (hkey : key.sort.isSome = layout table.name) :
    Mirrors layout (Backend.remove memory table key)
      (Backend.remove database table (Backend.columns key)) where
  fits name row hmem := by
    rw [Backend.rows_remove] at hmem
    split at hmem
    · next hname =>
        rw [hname]
        exact h.fits table.name row (SortedMap.mem_without hmem)
    · exact h.fits name row hmem
  entries name := by
    rw [Backend.rows_remove, Backend.rows_remove]
    split
    · show SortedMap.without _ _ = List.map _ (SortedMap.without _ _)
      rw [h.entries]
      exact without_rename (keepsOrder_columns _) hkey (h.fits table.name)
    · exact h.entries name

variable {reread : Record → Except Json.Fault Record} {candidate : Option Value → Value → Bool}

/-- Both stores find the same records. -/
theorem query (h : Mirrors layout memory database)
    (hread : database.ReadsBack (.databaseWith reread candidate)) {table : Table} {name : String}
    {value : Value} (hplain : name ≠ table.partition → Backend.isPlainName name = true)
    (hfound : name ≠ table.partition → ∀ row record held,
      (database.rows table.name).find? row = some record → record.get? name = some held →
        held.same value = true → candidate (some held) value = true) :
    (Backend.databaseWith reread candidate).query database table name value =
      Backend.memory.query memory table name value := by
  rw [Backend.query_eq hread, Backend.query_eq (Store.readsBack_memory memory), h.entries]
  by_cases hpartition : name = table.partition
  · simp only [hpartition, if_true, List.filter_map, List.map_map]
    rfl
  · have hsearch : (Backend.databaseWith reread candidate).searchable name = true :=
      hplain hpartition
    have hmemory : Backend.memory.searchable name = true := rfl
    simp only [hpartition, hsearch, hmemory, if_true, if_false, List.filter_map, List.map_map,
      List.filter_filter]
    congr 3
    -- The index may offer too many rows, but it offers every row that holds the value.
    refine List.filter_congr ?_
    intro row hmem
    have hrow : (database.rows table.name).find? (Backend.columns row.1) = some row.2 := by
      rw [h.find? (h.fits table.name row hmem)]
      exact SortedMap.mem_entries_iff.1 hmem
    show (row.2.holds name value && candidate (row.2.get? name) value) =
      (row.2.holds name value && true)
    cases hget : row.2.get? name with
    | none => simp [Record.holds, hget]
    | some held =>
        cases hsame : held.same value with
        | false => simp [Record.holds, hget, hsame]
        | true => rw [hfound hpartition _ _ held hrow hget hsame]

/-- The rows of a page are the same up to their keys. -/
theorem pageRows (h : Mirrors layout memory database) {table : Table} (limit : Nat)
    {start : Option Key} (hstart : ∀ key, start = some key → key.sort.isSome = layout table.name) :
    (Backend.databaseWith reread candidate).pageRows database table limit start =
      (Backend.memory.pageRows memory table limit start).map (Prod.map Backend.columns id) := by
  unfold Backend.pageRows
  rw [List.map_take]
  congr 1
  cases start with
  | none => exact h.entries table.name
  | some start =>
      show (database.rows table.name).entries.filter _ = _
      rw [h.entries]
      exact filter_after_rename (keepsOrder_columns _) (hstart start rfl) (h.fits table.name)

/-- Both stores give the same pages. -/
theorem page (h : Mirrors layout memory database)
    (hread : database.ReadsBack (.databaseWith reread candidate)) {table : Table}
    (htable : table.sort.isSome = layout table.name) (limit : Nat) {start : Option Key}
    (hstart : ∀ key, start = some key → key.sort.isSome = layout table.name) :
    (Backend.databaseWith reread candidate).page database table limit start =
      Backend.memory.page memory table limit start := by
  rw [Backend.page_eq hread, Backend.page_eq (Store.readsBack_memory memory), h.pageRows limit hstart,
    List.length_map, List.map_map, List.getLast?_map, Option.map_map]
  congr 3
  refine Option.map_congr ?_
  intro row hlast
  have hmem := Backend.mem_of_mem_pageRows (List.mem_of_getLast? hlast)
  exact Backend.shown_columns ((h.fits table.name row hmem).trans htable.symm)

end Mirrors

/-! ## Requests and runs -/

/-- The index search of a database finds, in the table that a request is about, every row whose
attribute has the value that is looked for. Nothing is asked of null, which equals no column. -/
def Request.FoundIn (candidate : Option Value → Value → Bool) (store : Store) (request : Request) :
    Prop :=
  ∀ table name value, request = .query table name value → name ≠ table.partition → value ≠ .null →
    ∀ row record held, (store.rows table.name).find? row = some record →
      record.get? name = some held → held.same value = true → candidate (some held) value = true

/-- The search of an index finds every text. -/
theorem columnMatches_string {held : Value} {text : String}
    (hsame : held.same (.string text) = true) :
    Backend.columnMatches (some held) (.string text) = true := by
  rw [Value.same_string.1 hsame]
  simp [Backend.columnMatches, Column.stored, Column.sought, Column.ofValueWith, Column.equal]

/-- The keys of a request have a sort value exactly if its table has a sort attribute, as laid down for
the table's name, and an attribute that is looked up has a plain name and a value that is not null. -/
structure Request.Regular (layout : String → Bool) (request : Request) : Prop where
  table : request.table.sort.isSome = layout request.table.name
  key : ∀ key, request.key? = some key → key.sort.isSome = request.table.sort.isSome
  query : ∀ table name value, request = .query table name value → name ≠ table.partition →
    Backend.isPlainName name = true ∧ value ≠ .null

/-- The key of a record has a sort value exactly if the table has a sort attribute. -/
theorem Table.keyOf_sort {table : Table} {record : Record} {key : Key}
    (h : table.keyOf record = .ok key) : key.sort.isSome = table.sort.isSome := by
  unfold Table.keyOf at h
  cases hpartition : table.keyAttribute record table.partition with
  | error error =>
      rw [hpartition] at h
      cases h
  | ok partition =>
      rw [hpartition] at h
      cases hsort : table.sort with
      | none =>
          simp only [hsort] at h
          cases h
          rfl
      | some name =>
          simp only [hsort] at h
          cases hvalue : table.keyAttribute record name with
          | error error =>
              simp only [hvalue] at h
              cases h
          | ok sort =>
              simp only [hvalue] at h
              cases h
              rfl

variable {layout : String → Bool} {memory database : Store}
  {reread : Record → Except Json.Fault Record} {candidate : Option Value → Value → Bool}

/-- Stores that mirror each other give the same answer to a request and still mirror each other. -/
theorem Mirrors.perform (h : Mirrors layout memory database)
    (hread : database.ReadsBack (.databaseWith reread candidate)) {request : Request}
    (hregular : request.Regular layout) (hfound : request.FoundIn candidate database) :
    ((Backend.databaseWith reread candidate).perform database request).1 =
        (Backend.memory.perform memory request).1 ∧
      Mirrors layout (Backend.memory.perform memory request).2
        ((Backend.databaseWith reread candidate).perform database request).2 := by
  cases request with
  | get table key =>
      have hkey : key.sort.isSome = layout table.name := (hregular.key key rfl).trans hregular.table
      refine ⟨?_, h⟩
      show (Backend.databaseWith reread candidate).read database table (Backend.columns key) =
        Backend.memory.read memory table key
      rw [Backend.read_eq hread, Backend.read_eq (Store.readsBack_memory memory), h.find? hkey]
  | put table record condition =>
      -- Both stores compute the key from the record, so they fail alike or file it under one key.
      cases hkeyOf : table.keyOf record with
      | error error =>
          simp only [Backend.perform, Backend.put, hkeyOf]
          exact ⟨rfl, h⟩
      | ok key =>
          have hkey : key.sort.isSome = layout table.name :=
            (Table.keyOf_sort hkeyOf).trans hregular.table
          rw [Backend.perform_put hread hkeyOf (h.find? hkey),
            Backend.perform_put (Store.readsBack_memory memory) hkeyOf rfl]
          cases hallows : Condition.allows condition ((memory.rows table.name).find? key) with
          | false => simpa [hallows] using h
          | true => simpa [hallows] using h.write hkey record
  | update table key assignments condition =>
      have hkey : key.sort.isSome = layout table.name := (hregular.key key rfl).trans hregular.table
      rw [Backend.perform_update hread (h.find? hkey),
        Backend.perform_update (Store.readsBack_memory memory) rfl]
      cases hallows : Condition.allows condition ((memory.rows table.name).find? key) with
      | false => simpa [hallows] using h
      | true => simpa [hallows] using h.write hkey _
  | delete table key condition =>
      have hkey : key.sort.isSome = layout table.name := (hregular.key key rfl).trans hregular.table
      rw [Backend.perform_delete hread (h.find? hkey),
        Backend.perform_delete (Store.readsBack_memory memory) rfl]
      cases hallows : Condition.allows condition ((memory.rows table.name).find? key) with
      | false => simpa [hallows] using h
      | true => simpa [hallows] using h.remove hkey
  | query table name value =>
      refine ⟨?_, h⟩
      refine h.query hread (fun hname => (hregular.query _ _ _ rfl hname).1) fun hname => ?_
      exact hfound _ _ _ rfl hname (hregular.query _ _ _ rfl hname).2
  | page table limit start =>
      refine ⟨h.page hread hregular.table limit fun key hstart => ?_, h⟩
      exact (hregular.key key hstart).trans hregular.table

/-- Stores that mirror each other give the same answers throughout a run. -/
theorem Mirrors.exchanges (h : Mirrors layout memory database) {requests : List Request}
    (hregular : ∀ request ∈ requests, request.Regular layout)
    (hread : ∀ before, before <+: requests →
      ((Backend.databaseWith reread candidate).perform.after database before).ReadsBack
        (.databaseWith reread candidate))
    (hfound : ∀ before request, before ++ [request] <+: requests → request.FoundIn candidate
      ((Backend.databaseWith reread candidate).perform.after database before)) :
    (Backend.databaseWith reread candidate).perform.exchanges database requests =
      Backend.memory.perform.exchanges memory requests := by
  induction requests generalizing memory database with
  | nil => rfl
  | cons request requests ih =>
      obtain ⟨hanswer, hnext⟩ := h.perform (hread [] List.nil_prefix)
        (hregular request List.mem_cons_self)
        (hfound [] request (List.cons_prefix_cons.2 ⟨rfl, List.nil_prefix⟩))
      -- What is asked of every beginning of the run holds of every beginning of the rest of it.
      have hrest := ih hnext (fun other hmem => hregular other (List.mem_cons_of_mem _ hmem))
        (fun before hbefore => hread (request :: before) (List.cons_prefix_cons.2 ⟨rfl, hbefore⟩))
        (fun before other hbefore =>
          hfound (request :: before) other (List.cons_prefix_cons.2 ⟨rfl, hbefore⟩))
      simp only [Engine.exchanges]
      rw [hanswer, hrest]

/-- A store in memory and a store in a database that start empty give the same answers throughout every
run of requests. The keys passed have a sort value exactly if their table has a sort attribute, on which
the tables of one name agree, and look-ups by index have a plain name and a value that is not null. Of
the texts and the engine of the database it is only asked that at any time of the run every record is
read as it was filed, and that the search of an index finds the records that hold the value. The same
answers are given by a memory that lists its tables when they are written to, and by a database that changes
its texts in transactions, if its engine extracts columns from texts that are read back and compares them as
the search does. -/
theorem database_exchanges_eq_memory (reread : Record → Except Json.Fault Record)
    (candidate : Option Value → Value → Bool) (requests : List Request)
    (hkeys : ∀ request ∈ requests, ∀ key, request.key? = some key →
      key.sort.isSome = request.table.sort.isSome)
    (hlayouts : ∀ first ∈ requests, ∀ second ∈ requests, first.table.name = second.table.name →
      first.table.sort.isSome = second.table.sort.isSome)
    (hqueries : ∀ table name value, .query table name value ∈ requests → name ≠ table.partition →
      Backend.isPlainName name = true ∧ value ≠ .null)
    (hread : ∀ before, before <+: requests →
      ((Backend.databaseWith reread candidate).perform.after {} before).ReadsBack
        (.databaseWith reread candidate))
    (hfound : ∀ before request, before ++ [request] <+: requests → request.FoundIn candidate
      ((Backend.databaseWith reread candidate).perform.after {} before)) :
    (Backend.databaseWith reread candidate).perform.exchanges {} requests =
        Backend.memory.perform.exchanges {} requests ∧
      Tables.perform.exchanges {} requests = Backend.memory.perform.exchanges {} requests ∧
      ∀ format : TextFormat, (∀ record, format.read (format.print record) = reread record) →
        Texts.Extracts format candidate →
          (Texts.perform format).exchanges {} requests = Tables.perform.exchanges {} requests := by
  classical
  -- A table name has a sort value in its keys if some request of the run says so.
  let layout (name : String) : Bool :=
    decide (∃ request ∈ requests, request.table.name = name ∧ request.table.sort.isSome)
  have hlayout : ∀ request ∈ requests, request.table.sort.isSome = layout request.table.name := by
    intro request hmem
    rw [Bool.eq_iff_iff, decide_eq_true_iff]
    refine ⟨fun hsort => ⟨request, hmem, rfl, hsort⟩, ?_⟩
    rintro ⟨other, hother, hname, hsort⟩
    rw [hlayouts request hmem other hother hname.symm]
    exact hsort
  have hregular : ∀ request ∈ requests, request.Regular layout := by
    intro request hmem
    refine ⟨hlayout request hmem, hkeys request hmem, ?_⟩
    rintro table name value rfl hname
    exact hqueries table name value hmem hname
  have hdatabase := (Mirrors.empty layout).exchanges hregular hread hfound
  have htables : Tables.perform.exchanges {} requests = Backend.memory.perform.exchanges {} requests :=
    Tables.alike.exchanges (fun _ => rfl) requests
  refine ⟨hdatabase, htables, fun format hformat hextract => ?_⟩
  obtain rfl : (fun record => format.read (format.print record)) = reread := funext hformat
  calc (Texts.perform format).exchanges {} requests
      = (Texts.backend format candidate).perform.exchanges {} requests :=
        Texts.exchanges_eq hextract (fun _ => rfl) hread
    _ = Backend.memory.perform.exchanges {} requests := hdatabase
    _ = Tables.perform.exchanges {} requests := htables.symm

/-- A put, a look-up by index and a page, asked of a table without sort attribute, of a database of columns and of
one of texts. -/
theorem database_exchanges_eq_memory_things :
    let table : Table := { name := "Things", partition := "Id", indexes := ["State"] }
    let record := (Record.empty.insert "Id" (.string "1")).insert "State" (.string "on")
    let requests : List Request :=
      [.put table record none, .query table "State" (.string "on"), .page table 1 (some ⟨"0", none⟩)]
    Backend.database.perform.exchanges {} requests = Backend.memory.perform.exchanges {} requests ∧
      (Texts.perform .json).exchanges {} requests = Tables.perform.exchanges {} requests := by
  intro table record requests
  have hrecord : Backend.ofText record = .ok record :=
    @Backend.reread_of_texts .database record (by decide +kernel) (by decide +kernel)
  have happly (candidate : Option Value → Value → Bool)
      (htext : ∀ held : Value, held.same (.string "on") = true → candidate (some held) (.string "on") = true) :=
    database_exchanges_eq_memory Backend.ofText candidate requests
      (by simp [requests, table, Request.key?, Request.table])
      (by simp [requests, Request.table])
      (by
        have hplain : Backend.isPlainName "State" = true := by decide
        simp +contextual [requests, hplain])
      (by
        intro before hbefore
        have hempty : ({} : Store).ReadsBack (.databaseWith Backend.ofText candidate) :=
          Store.readsBack_empty _
        simp only [requests, List.prefix_cons_iff, List.prefix_nil] at hbefore
        obtain rfl | ⟨_, rfl, rfl | ⟨_, rfl, rfl | ⟨_, rfl, rfl⟩⟩⟩ := hbefore
        · exact hempty
        all_goals exact Backend.readsBack_put hempty hrecord none)
      (by
        rintro before request hbefore other name value rfl - - row found held - - hsame
        have hmem : Request.query other name value ∈ requests :=
          hbefore.subset (List.mem_append_right before List.mem_cons_self)
        obtain ⟨-, -, rfl⟩ : other = table ∧ name = "State" ∧ value = .string "on" := by
          simpa [requests] using hmem
        exact htext held hsame)
  refine ⟨(happly Backend.columnMatches fun _ => columnMatches_string).1, ?_⟩
  refine (happly (fun held value => (Column.ofAttribute held).equal (.sought value)) ?_).2.2 .json
    (fun _ => rfl) (Texts.extracts_of_extractsColumns TextFormat.extractsColumns_json)
  intro held hsame
  rw [Value.same_string.1 hsame]
  simp [Column.ofAttribute, Column.sought, Column.ofValueWith, Column.equal]

end AccountPool
