import AccountPool.Proofs.Json.Levels
import AccountPool.Proofs.Store.Course
import AccountPool.Proofs.Store.Legible

/-!
# Rows under their own keys

A put files a record under the key that its attributes hold, and an update under the key that it is given. As
long as updates set no key attribute, a row holds its own key whichever of them wrote it, also after the record
went through its text: `Store.FiledByKey`. A record that is read from such a store goes back into its own row,
`filed_by_key`.
-/

namespace AccountPool

open Json (Value)

/-! ## Keys of records -/

/-- Setting other attributes leaves an attribute alone. -/
theorem Record.get?_assign_of_ne (record : Record) {assignments : Assignments} {name : String}
    (hother : ∀ assignment ∈ assignments, assignment.1 ≠ name) :
    (record.assign assignments).get? name = record.get? name := by
  induction assignments generalizing record with
  | nil => rfl
  | cons assignment assignments ih =>
      obtain ⟨assigned, value⟩ := assignment
      have hne : name ≠ assigned := (hother _ List.mem_cons_self).symm
      rw [assign_cons, ih _ fun other hmem => hother other (List.mem_cons_of_mem _ hmem),
        get?_insert_of_ne record hne]

namespace Table

variable {table : Table} {record : Record} {key : Key}

/-- The key attributes of a record hold a key. -/
structure HoldsKey (table : Table) (record : Record) (key : Key) : Prop where
  suits : key.sort.isSome = table.sort.isSome
  partition : record.get? table.partition = some (.string key.partition)
  sort : ∀ name text, table.sort = some name → key.sort = some text → record.get? name = some (.string text)

/-- A key attribute has the text that the record holds. -/
theorem keyAttribute_eq_ok_iff {name text : String} :
    table.keyAttribute record name = .ok text ↔ record.get? name = some (.string text) := by
  unfold keyAttribute Record.getText?
  cases record.get? name with
  | none => simp
  | some value => cases value <;> simp [Value.string?]

/-- A record holds the key that is taken from it. -/
theorem holdsKey_of_keyOf (h : table.keyOf record = .ok key) : table.HoldsKey record key := by
  have hsuits := keyOf_sort h
  unfold keyOf at h
  cases hpartition : table.keyAttribute record table.partition with
  | error error =>
      rw [hpartition] at h
      cases h
  | ok partition =>
      rw [hpartition] at h
      have hget := keyAttribute_eq_ok_iff.1 hpartition
      cases hsort : table.sort with
      | none =>
          simp only [hsort] at h
          cases h
          refine ⟨hsuits, hget, fun name text hname => ?_⟩
          rw [hsort] at hname
          cases hname
      | some name =>
          simp only [hsort] at h
          cases hvalue : table.keyAttribute record name with
          | error error =>
              simp only [hvalue] at h
              cases h
          | ok sort =>
              simp only [hvalue] at h
              cases h
              refine ⟨hsuits, hget, fun other text hother htext => ?_⟩
              obtain rfl := Option.some.inj (hsort.symm.trans hother)
              cases htext
              exact keyAttribute_eq_ok_iff.1 hvalue

/-- The key that a record holds is taken from it. -/
theorem HoldsKey.keyOf (h : table.HoldsKey record key) : table.keyOf record = .ok key := by
  obtain ⟨hsuits, hpartition, hsort⟩ := h
  obtain ⟨partition, sort⟩ := key
  unfold Table.keyOf
  rw [keyAttribute_eq_ok_iff.2 hpartition]
  cases hname : table.sort with
  | none =>
      rw [hname] at hsuits
      cases sort with
      | none => rfl
      | some text => cases hsuits
  | some name =>
      rw [hname] at hsuits
      cases sort with
      | none => cases hsuits
      | some text =>
          have hattribute : table.keyAttribute record name = .ok text :=
            keyAttribute_eq_ok_iff.2 (hsort name text hname rfl)
          simp only [bind, Except.bind, hattribute]
          rfl

/-- An attribute of a table is part of its keys. -/
def IsKey (table : Table) (name : String) : Prop :=
  name = table.partition ∨ table.sort = some name

/-- A record with the same texts in the key attributes holds the same key. -/
theorem HoldsKey.of_texts (h : table.HoldsKey record key) {other : Record}
    (hsame : ∀ name text, table.IsKey name → record.get? name = some (.string text) →
      other.get? name = some (.string text)) : table.HoldsKey other key where
  suits := h.suits
  partition := hsame _ _ (.inl rfl) h.partition
  sort name text hname htext := hsame _ _ (.inr hname) (h.sort name text hname htext)

/-- Tables with the same key attributes have the same keys. -/
theorem HoldsKey.congr {named : Table} (h : named.HoldsKey record key)
    (hpartition : named.partition = table.partition) (hsort : named.sort = table.sort) :
    table.HoldsKey record key where
  suits := hsort ▸ h.suits
  partition := hpartition ▸ h.partition
  sort name text hname := h.sort name text (hsort.trans hname)

/-- The record that holds a key and nothing else holds the key. -/
theorem holdsKey_keyRecord (hdistinct : table.sort ≠ some table.partition)
    (hsuits : key.sort.isSome = table.sort.isSome) : table.HoldsKey (table.keyRecord key) key := by
  obtain ⟨partition, sort⟩ := key
  unfold keyRecord
  cases hname : table.sort with
  | none =>
      refine ⟨hsuits, Record.get?_insert_self _ _ _, fun name text hother => ?_⟩
      rw [hname] at hother
      cases hother
  | some name =>
      rw [hname] at hsuits hdistinct
      cases sort with
      | none => cases hsuits
      | some text =>
          have hne : table.partition ≠ name := fun hsame => hdistinct (congrArg some hsame.symm)
          refine ⟨by rw [hname]; rfl, ?_, fun other text' hother htext => ?_⟩
          · show (Record.insert _ name _).get? table.partition = _
            rw [Record.get?_insert_of_ne _ hne, Record.get?_insert_self]
          · obtain rfl := Option.some.inj (hname.symm.trans hother)
            cases htext
            exact Record.get?_insert_self _ _ _

end Table

/-! ## Backends that keep keys -/

/-- A backend shows the key that was filed in a row, and a record comes back with its texts. -/
structure Backend.KeepsKeys (backend : Backend) (table : Table) : Prop where
  shown : ∀ key : Key, key.sort.isSome = table.sort.isSome →
    backend.shown table (backend.address key) = key
  sound : ∀ held record : Record, held.toValue.Sound → backend.reread held = .ok record →
    record.toValue.Sound
  texts : ∀ held record : Record, held.toValue.Sound → backend.reread held = .ok record →
    ∀ name text, held.get? name = some (.string text) → record.get? name = some (.string text)

/-- A record whose text is read is legible. -/
theorem Record.legible_of_readable {held record : Record} (hsound : held.toValue.Sound)
    (hread : Backend.ofText held = .ok record) : held.Legible := by
  refine ⟨hsound, ?_⟩
  unfold Backend.ofText at hread
  cases hparse : Value.parse held.toValue.compact with
  | error fault =>
      rw [hparse] at hread
      cases hread
  | ok value => exact Value.depth_le_of_parse_compact hsound hparse

namespace Backend

/-- Nothing is lost in memory. -/
theorem keepsKeys_memory (table : Table) : memory.KeepsKeys table where
  shown _ _ := rfl
  sound held record hsound hread := by
    cases hread
    exact hsound
  texts held record _ hread name text hget := by
    cases hread
    exact hget

/-- A database tells an empty sort value from none by the table, and reads texts as they were written. -/
theorem keepsKeys_database (table : Table) : database.KeepsKeys table where
  shown _ hsuits := shown_columns hsuits
  sound held record _ hread := (Record.legible_of_ofText hread).sound
  texts held record hsound hread name text hget := by
    have hlegible := Record.legible_of_readable hsound hread
    obtain rfl : record = held.seen := Except.ok.inj (hread.symm.trans hlegible.ofText.1)
    exact hlegible.get?_seen_string hget

end Backend

/-! ## The invariant -/

/-- A sound record is filed in the row of the key that it holds. -/
structure Backend.FilesByKey (backend : Backend) (table : Table) (row : Key) (record : Record) : Prop where
  sound : record.toValue.Sound
  holdsKey : table.HoldsKey record (backend.shown table row)
  address : backend.address (backend.shown table row) = row

/-- Every record of a table is filed in the row of the key that it holds. -/
def Store.FiledByKey (store : Store) (backend : Backend) (table : Table) : Prop :=
  ∀ row record, (store.rows table.name).find? row = some record → backend.FilesByKey table row record

/-- A request that uses the name of a table uses it for the same key attributes. If it is an update, its key has
a sort value exactly if the table has a sort attribute and it sets no key attribute. What it writes is sound, as
are all values that a document can denote. -/
structure Request.RespectsKeys (request : Request) (table : Table) : Prop where
  partition : request.table.partition = table.partition
  sort : request.table.sort = table.sort
  put : ∀ named record condition, request = .put named record condition → record.toValue.Sound
  update : ∀ named key assignments condition, request = .update named key assignments condition →
    key.sort.isSome = table.sort.isSome ∧
      ∀ assignment ∈ assignments, assignment.2.Sound ∧ ¬ table.IsKey assignment.1

namespace Store.FiledByKey

variable {backend : Backend} {store : Store} {table : Table} {request : Request}

/-- An empty store has no rows. -/
theorem empty (backend : Backend) (table : Table) : ({} : Store).FiledByKey backend table := by
  intro row record hfind
  rw [rows_empty] at hfind
  cases hfind

/-- A record that is read from a row is as well filed as the record in the row. -/
theorem read (h : store.FiledByKey backend table) (hkeeps : backend.KeepsKeys table) {row : Key}
    {record : Record} (hread : backend.read store table row = .ok (some record)) :
    backend.FilesByKey table row record := by
  obtain ⟨held, hfind, hreread⟩ := Backend.exists_of_read hread
  obtain ⟨hsound, hholds, haddress⟩ := h row held hfind
  exact ⟨hkeeps.sound held record hsound hreread,
    hholds.of_texts fun name text _ => hkeeps.texts held record hsound hreread name text, haddress⟩

/-- A request writes a record into the row of the key that the record holds. -/
theorem made (h : store.FiledByKey backend table) (hkeeps : backend.KeepsKeys table)
    (hdistinct : table.sort ≠ some table.partition) (hname : request.table.name = table.name)
    (hrequest : request.RespectsKeys table) {key : Key} (hkey : request.target? = some key)
    {current : Option Record}
    (hread : backend.read store request.table (backend.address key) = .ok current) {record : Record}
    (hmade : request.made? current = some record) :
    backend.FilesByKey table (backend.address key) record := by
  have hfiles {written : Record} (hsound : written.toValue.Sound) (hholds : table.HoldsKey written key) :
      backend.FilesByKey table (backend.address key) written := by
    have hshown := hkeeps.shown key hholds.suits
    exact ⟨hsound, by rwa [hshown], by rw [hshown]⟩
  cases request with
  | get | delete | query | page => cases hmade
  | put named written condition =>
      cases hmade
      obtain hkeyOf : named.keyOf record = .ok key := by
        rw [Request.target?] at hkey
        cases hfound : named.keyOf record with
        | error error =>
            rw [hfound] at hkey
            cases hkey
        | ok found =>
            rw [hfound] at hkey
            cases hkey
            rfl
      exact hfiles (hrequest.put _ _ _ rfl)
        ((Table.holdsKey_of_keyOf hkeyOf).congr hrequest.partition hrequest.sort)
  | update named target assignments condition =>
      cases hkey
      cases hmade
      obtain ⟨hsuits, hassign⟩ := hrequest.update _ _ _ _ rfl
      -- What the assignments are made to holds the key, and they leave it alone.
      have hbefore : ∀ before : Record, before.toValue.Sound → table.HoldsKey before key →
          backend.FilesByKey table (backend.address key) (before.assign assignments) := by
        intro before hsound hholds
        refine hfiles (Record.sound_assign hsound fun assignment hmem => (hassign assignment hmem).1) ?_
        refine hholds.of_texts fun name text hattribute hget => ?_
        rw [Record.get?_assign_of_ne before, hget]
        rintro assignment hmem rfl
        exact (hassign assignment hmem).2 hattribute
      cases current with
      | none =>
          have hpartition : named.partition = table.partition := hrequest.partition
          have hsort : named.sort = table.sort := hrequest.sort
          have hlayout : named.HoldsKey (named.keyRecord key) key :=
            Table.holdsKey_keyRecord (by rwa [hsort, hpartition]) (by rwa [hsort])
          exact hbefore _ (named.legible_keyRecord key).sound (hlayout.congr hpartition hsort)
      | some found =>
          have hfound : backend.read store table (backend.address key) = .ok (some found) := by
            rw [← hread, Backend.read, Backend.read, hname]
          obtain ⟨hsound, hholds, -⟩ := h.read hkeeps hfound
          rw [hkeeps.shown key hsuits] at hholds
          exact hbefore found hsound hholds

/-- A request keeps every record of the table in the row of its key. -/
theorem perform (h : store.FiledByKey backend table) (hkeeps : backend.KeepsKeys table)
    (hdistinct : table.sort ≠ some table.partition)
    (hrequest : request.table.name = table.name → request.RespectsKeys table) :
    (backend.perform store request).2.FiledByKey backend table := by
  intro row record hfind
  by_cases haddresses : request.Addresses backend table.name row
  · obtain ⟨hname, key, hkey, rfl⟩ := haddresses
    cases hperform : backend.perform store request with
    | mk answer next =>
    cases answer with
    | error error =>
        rw [Backend.perform_store_of_error (congrArg Prod.fst hperform)] at hfind
        exact h _ record hfind
    | ok reply =>
        obtain ⟨current, hread, heffect⟩ := Backend.exists_effect_of_read hkey hperform
        rw [hperform] at hfind
        cases heffect with
        | keep => exact h _ record hfind
        | remove =>
            rw [Backend.find?_remove, if_pos ⟨hname.symm, rfl⟩] at hfind
            cases hfind
        | write written hmade =>
            rw [Backend.find?_write, if_pos ⟨hname.symm, rfl⟩] at hfind
            cases hfind
            exact h.made hkeeps hdistinct hname (hrequest hname) hkey hread hmade
  · rw [Backend.find?_perform_of_not haddresses] at hfind
    exact h row record hfind

/-- A run keeps every record of the table in the row of its key. -/
theorem after (h : store.FiledByKey backend table) (hkeeps : backend.KeepsKeys table)
    (hdistinct : table.sort ≠ some table.partition) {requests : List Request}
    (hrequests : ∀ request ∈ requests, request.table.name = table.name → request.RespectsKeys table) :
    (backend.perform.after store requests).FiledByKey backend table :=
  backend.perform.after_induction (fun store => store.FiledByKey backend table)
    (fun request hmem _ hstore => hstore.perform hkeeps hdistinct (hrequests request hmem)) h

end Store.FiledByKey

/-! ## Records that are found -/

namespace Backend

variable {backend : Backend} {store : Store} {table : Table} {record : Record}

/-- A record is what is read from some row of a table. -/
def Finds (backend : Backend) (store : Store) (table : Table) (record : Record) : Prop :=
  ∃ row, backend.read store table row = .ok (some record)

/-- A record is got from a table, in one of the ways there are, while the store is left alone. -/
inductive Obtains (backend : Backend) (store : Store) (table : Table) (record : Record) : Prop where
  | get {key : Key} (h : (backend.perform store (.get table key)).1 = .ok (some record))
  | query {name : String} {value : Value} {records : List Record}
      (h : (backend.perform store (.query table name value)).1 = .ok records) (hmem : record ∈ records)
  | page {limit : Nat} {start : Option Key} {page : Page}
      (h : (backend.perform store (.page table limit start)).1 = .ok page) (hmem : record ∈ page.records)
  | scan {pageSize fuel count : Nat} {call : Scan.Call Store}
      (hcall : call ∈ Scan.calls backend.perform table fuel (.begin pageSize) store (.replicate count id))
      (hitem : call.item? = some (.record record))

/-- Records that are read from rows of a table are found. -/
theorem finds_of_mem_readAll {rows : List (Key × Record)} {records : List Record}
    (hread : backend.readAll rows = .ok records) (hmem : record ∈ records)
    (hrows : ∀ row ∈ rows, row ∈ (store.rows table.name).entries) : backend.Finds store table record := by
  induction rows generalizing records with
  | nil =>
      cases hread
      cases hmem
  | cons row rows ih =>
      obtain ⟨first, rest, hrow, hrest, rfl⟩ := exists_of_readAll_cons hread
      obtain ⟨hfirst, hothers⟩ := List.forall_mem_cons.1 hrows
      obtain rfl | hmem := List.mem_cons.1 hmem
      · exact ⟨row.1, read_of_find? (SortedMap.mem_entries_iff.1 hfirst) hrow⟩
      · exact ih hrest hmem hothers

/-- What a search finds was read from a row. -/
theorem finds_of_query {name : String} {value : Value} {records : List Record}
    (hquery : backend.query store table name value = .ok records) (hmem : record ∈ records) :
    backend.Finds store table record := by
  unfold query at hquery
  dsimp only at hquery
  split at hquery
  · cases hquery
  split at hquery
  · exact finds_of_mem_readAll hquery hmem fun row hrow => (List.mem_filter.1 hrow).1
  split at hquery
  · cases hquery
  · cases hread : backend.readAll ((store.rows table.name).entries.filter fun row =>
        backend.candidate (row.2.get? name) value) with
    | error error =>
        rw [hread] at hquery
        cases hquery
    | ok found =>
        rw [hread] at hquery
        cases hquery
        exact finds_of_mem_readAll hread (List.mem_filter.1 hmem).1 fun row hrow =>
          (List.mem_filter.1 hrow).1

/-- What a page shows was read from a row. -/
theorem finds_of_page {limit : Nat} {start : Option Key} {page : Page}
    (hpage : backend.page store table limit start = .ok page) (hmem : record ∈ page.records) :
    backend.Finds store table record := by
  rw [page_eq_map] at hpage
  cases hread : backend.readAll (backend.pageRows store table limit start) with
  | error error =>
      rw [hread] at hpage
      cases hpage
  | ok records =>
      rw [hread] at hpage
      cases hpage
      exact finds_of_mem_readAll hread hmem fun row => mem_of_mem_pageRows

end Backend

namespace Scan

variable {backend : Backend} {store : Store} {table : Table} {scan : Scan}

/-- A scan leaves the store alone, and what it fetches and hands out was read from rows. -/
theorem next_finds (hbuffer : ∀ record ∈ scan.buffer, backend.Finds store table record) (fuel : Nat) :
    ∃ item? next, scan.next (.ofEngine backend.perform table) fuel store = (item?, next, store) ∧
      (∀ record ∈ next.buffer, backend.Finds store table record) ∧
      ∀ record, item? = some (.record record) → backend.Finds store table record := by
  induction fuel generalizing scan with
  | zero =>
      refine ⟨none, scan, rfl, hbuffer, ?_⟩
      rintro record ⟨⟩
  | succ fuel ih =>
      rw [next]
      cases hfetched : scan.buffer with
      | cons record buffer =>
          rw [step_of_buffer hfetched]
          rw [hfetched] at hbuffer
          obtain ⟨hrecord, hrest⟩ := List.forall_mem_cons.1 hbuffer
          refine ⟨some (.record record), { scan with buffer }, rfl, hrest, ?_⟩
          rintro _ ⟨⟩
          exact hrecord
      | nil =>
          cases hexhausted : scan.exhausted with
          | true =>
              rw [step_of_exhausted hfetched hexhausted]
              refine ⟨some .finished, scan, rfl, hbuffer, ?_⟩
              rintro record ⟨⟩
          | false =>
              rw [step_of_page hfetched hexhausted]
              cases hread : backend.readAll (backend.pageRows store table scan.pageSize scan.start) with
              | error error =>
                  refine ⟨some (.failure error), scan.failed, rfl, ?_, ?_⟩
                  · intro record hmem
                    exact absurd hmem List.not_mem_nil
                  · rintro record ⟨⟩
              | ok records =>
                  refine ih fun record hmem => ?_
                  exact Backend.finds_of_mem_readAll hread hmem fun row => Backend.mem_of_mem_pageRows

/-- Whatever a scan of a store that is left alone hands out was read from a row. -/
theorem finds_of_mem_calls {fuel count : Nat} {asked : Call Store} {record : Record}
    (hbuffer : ∀ record ∈ scan.buffer, backend.Finds store table record)
    (hmem : asked ∈ scan.calls backend.perform table fuel store (.replicate count id))
    (hitem : asked.item? = some (.record record)) : backend.Finds store table record := by
  induction count generalizing scan with
  | zero => cases hmem
  | succ count ih =>
      obtain ⟨item?, next, hnext, hrest, hfound⟩ := next_finds hbuffer fuel
      simp only [List.replicate_succ, calls, List.mem_cons, call, id, hnext] at hmem
      obtain rfl | hmem := hmem
      · exact hfound record hitem
      · exact ih hrest hmem

end Scan

/-- A record that is got was read from a row. -/
theorem Backend.Obtains.finds {backend : Backend} {store : Store} {table : Table} {record : Record}
    (h : backend.Obtains store table record) : backend.Finds store table record := by
  cases h with
  | get h => exact ⟨_, h⟩
  | query h hmem => exact finds_of_query h hmem
  | page h hmem => exact finds_of_page h hmem
  | scan hcall hitem =>
      -- Nothing is in the buffer of a scan that has not started.
      exact Scan.finds_of_mem_calls (fun _ hmem => absurd hmem List.not_mem_nil) hcall hitem

/-! ## Putting records back -/

/-- A put of a record under a key replaces the row of the key by the record, which was there before, and no row
comes or goes. -/
structure Backend.PutsBack (backend : Backend) (store : Store) (table : Table) (record : Record) (key : Key)
    (condition : Option Condition) : Prop where
  previous : (backend.perform store (.put table record condition)).1 = .ok (some record)
  row : ((backend.perform store (.put table record condition)).2.rows table.name).find?
    (backend.address key) = some record
  others : ∀ name row, (name = table.name → row ≠ backend.address key) →
    ((backend.perform store (.put table record condition)).2.rows name).find? row =
      (store.rows name).find? row
  keys : ∀ name row, ((backend.perform store (.put table record condition)).2.rows name).contains row =
    (store.rows name).contains row

/-- A record that is got goes back into the row from which it was read. -/
theorem Store.FiledByKey.putsBack {backend : Backend} {store : Store} {table : Table} {record : Record}
    (h : store.FiledByKey backend table) (hkeeps : backend.KeepsKeys table)
    (hfinds : backend.Finds store table record) :
    ∃ key, table.keyOf record = .ok key ∧
      backend.read store table (backend.address key) = .ok (some record) ∧
      ∀ condition, Condition.allows condition (some record) = true →
        backend.PutsBack store table record key condition := by
  obtain ⟨row, hread⟩ := hfinds
  obtain ⟨-, hholds, haddress⟩ := h.read hkeeps hread
  have hkey := hholds.keyOf
  rw [← haddress] at hread
  refine ⟨backend.shown table row, hkey, hread, fun condition hallows => ?_⟩
  have hput := Backend.perform_put_of_read hkey hread condition
  rw [if_pos hallows] at hput
  obtain ⟨held, hheld, -⟩ := Backend.exists_of_read hread
  refine ⟨?_, ?_, ?_, ?_⟩
  · rw [hput]
  · rw [hput, Backend.find?_write, if_pos ⟨rfl, rfl⟩]
  · intro name other hother
    rw [hput, Backend.find?_write, if_neg fun hsame => hother hsame.1 hsame.2]
  · intro name other
    rw [hput, SortedMap.contains, SortedMap.contains, Backend.find?_write]
    split
    · next hsame => rw [hsame.1, hsame.2, hheld, Option.isSome_some, Option.isSome_some]
    · rfl

/-- Rows stay filed under their own keys, whatever is put, updated and deleted, as long as the name of the table
stands for the same key attributes throughout, keys have a sort value exactly if the table has a sort attribute,
and updates set no key attribute: the key of every record is the one that is shown for its row, also when the
record is read back. So a record that is got goes back into its own row, and nothing else changes. -/
theorem filed_by_key (backend : Backend) (hbackend : backend = .memory ∨ backend = .database) (table : Table)
    (hdistinct : table.sort ≠ some table.partition) (requests : List Request)
    (hrequests : ∀ request ∈ requests, request.table.name = table.name → request.RespectsKeys table) :
    let store := backend.perform.after {} requests
    (∀ row record, (store.rows table.name).find? row = some record →
      table.keyOf record = .ok (backend.shown table row) ∧
      backend.address (backend.shown table row) = row ∧
      ∀ read, backend.reread record = .ok read → table.keyOf read = .ok (backend.shown table row)) ∧
    ∀ record, backend.Obtains store table record → ∃ key, table.keyOf record = .ok key ∧
      backend.read store table (backend.address key) = .ok (some record) ∧
      ∀ condition, Condition.allows condition (some record) = true →
        backend.PutsBack store table record key condition := by
  intro store
  have hkeeps : backend.KeepsKeys table := by
    obtain rfl | rfl := hbackend
    · exact Backend.keepsKeys_memory table
    · exact Backend.keepsKeys_database table
  have hfiled : store.FiledByKey backend table :=
    (Store.FiledByKey.empty backend table).after hkeeps hdistinct hrequests
  refine ⟨?_, fun record hobtains => hfiled.putsBack hkeeps hobtains.finds⟩
  intro row record hfind
  obtain ⟨hsound, hholds, haddress⟩ := hfiled row record hfind
  refine ⟨hholds.keyOf, haddress, fun read hreread => ?_⟩
  have hread := hholds.of_texts fun name text _ => hkeeps.texts record read hsound hreread name text
  exact hread.keyOf

/-- An update of an absent key creates a row in a database, and the record that is got from there goes back. -/
theorem filed_by_key_created :
    let table : Table := { name := "Things", partition := "Id", sort := some "Part" }
    let key : Key := ⟨"1", some "a"⟩
    let record := (table.keyRecord key).insert "State" (.string "on")
    let store := Backend.database.perform.after {} [.update table key [("State", .string "on")] none]
    (store.rows "Things").find? key = some record ∧ table.keyOf record = .ok key ∧
      Backend.database.PutsBack store table record key none := by
  intro table key record store
  have hrequests : ∀ request ∈ [Request.update table key [("State", .string "on")] none],
      request.table.name = table.name → request.RespectsKeys table := by
    intro request hmem _
    obtain rfl := List.mem_singleton.1 hmem
    refine ⟨rfl, rfl, nofun, ?_⟩
    rintro _ _ _ _ ⟨⟩
    refine ⟨rfl, List.forall_mem_singleton.2 ⟨trivial, ?_⟩⟩
    rintro (hname | hname) <;> revert hname <;> decide
  have hfiled := filed_by_key .database (.inr rfl) table (by decide) _ hrequests
  have hstore : store = Backend.write {} table key record := rfl
  have hfind : (store.rows "Things").find? key = some record := by
    rw [hstore, Backend.find?_write, if_pos ⟨rfl, rfl⟩]
  have hrecord : Backend.database.reread record = .ok record :=
    Backend.reread_of_texts (by decide +kernel) (by decide +kernel)
  have hread : Backend.database.read store table key = .ok (some record) :=
    Backend.read_of_find? hfind hrecord
  have hget : (Backend.database.perform store (.get table key)).1 = .ok (some record) := hread
  obtain ⟨own, hown, -, hputs⟩ := hfiled.2 record (.get hget)
  have hkey : table.keyOf record = .ok key := (hfiled.1 key record hfind).1
  have hsame : own = key := Except.ok.inj (hown.symm.trans hkey)
  refine ⟨hfind, hkey, ?_⟩
  rw [← hsame]
  exact hputs none rfl

end AccountPool
