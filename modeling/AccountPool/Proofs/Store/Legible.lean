import AccountPool.Proofs.Entity.Carried
import AccountPool.Proofs.Json.RoundTrip
import AccountPool.Proofs.Store.Equivalence
import AccountPool.Proofs.Store.Nesting
import AccountPool.Proofs.Store.Texts

/-!
# Records that are read from their texts

A database keeps the text of a record, and what it reads from the text is the record as seen. A record is
legible if it is one that a text can denote and is not nested too deep; then it is seen with the same
outline, so the entity that it carries is seen, up to the floating-point numbers in the metadata of an
account. A database with legible records answers as one that reads every record as it was filed and has
the records as seen, `Store.Legible.perform_seen`, and the same is done to the rows of both.
-/

namespace AccountPool

open Json (Value)

/-! ## Records -/

namespace Record

/-- A text can denote the record, and the record is not nested too deep to be read. -/
structure Legible (record : Record) : Prop where
  sound : record.toValue.Sound
  depth_le : record.toValue.depth ≤ Json.Reader.maxDepth

/-- The record that a database reads from the text of a record. -/
def seen (record : Record) : Record :=
  match Backend.ofText record with
  | .ok read => read
  | .error _ => record

namespace Legible

variable {record : Record}

/-- A legible record is read, and what is read is legible and has the same outline. -/
theorem ofText (h : record.Legible) :
    Backend.ofText record = .ok record.seen ∧ record.seen.Legible ∧
      record.seen.toValue.outline = record.toValue.outline := by
  obtain ⟨value, hparse, hsound, houtline⟩ := Value.exists_parse_compact h.sound h.depth_le
  -- Only an object has the outline of an object.
  obtain ⟨members, rfl⟩ : ∃ members, value = .ofMembers members := by
    cases value with
    | object members => exact Value.exists_ofMembers hsound
    | _ => cases houtline
  have hread : Backend.ofText record = .ok ⟨members⟩ := by
    have hrecord : ofValue (.ofMembers members) = .ok ⟨members⟩ :=
      congrArg (fun members => Except.ok (Record.mk members)) (SortedMap.ofList_entries members)
    rw [Backend.ofText, hparse]
    show (ofValue (.ofMembers members)).mapError _ = _
    rw [hrecord]
    rfl
  have hseen : record.seen = ⟨members⟩ := by
    rw [seen, hread]
  rw [hseen]
  refine ⟨hread, ⟨hsound, ?_⟩, houtline⟩
  rw [← Value.depth_outline, show (Record.mk members).toValue.outline = _ from houtline,
    Value.depth_outline]
  exact h.depth_le

/-- The record as seen is legible. -/
theorem seen (h : record.Legible) : record.seen.Legible :=
  h.ofText.2.1

/-- Attributes are seen with the same outlines. -/
theorem get?_outline (h : record.Legible) (name : String) :
    (record.seen.get? name).map Value.outline = (record.get? name).map Value.outline :=
  Value.find?_outline h.ofText.2.2 name

/-- An attribute that is all there is to its outline, or is absent, is seen as it is. -/
theorem get?_seen (h : record.Legible) {name : String} {held : Option Value}
    (hheld : ∀ value, held = some value → ∀ other : Value, other.outline = value.outline → other = value)
    (hget : record.get? name = held) : record.seen.get? name = held := by
  have houtline := h.get?_outline name
  rw [hget] at houtline
  cases hseen : record.seen.get? name with
  | none =>
      rw [hseen] at houtline
      cases held with
      | none => rfl
      | some value => cases houtline
  | some other =>
      rw [hseen] at houtline
      cases held with
      | none => cases houtline
      | some value => rw [hheld value rfl other (Option.some.inj houtline)]

/-- A text that may be absent is seen as it is. -/
theorem get?_seen_optional (h : record.Legible) {name : String} {held : Option String}
    (hget : record.get? name = held.map .string) : record.seen.get? name = held.map .string := by
  refine h.get?_seen ?_ hget
  rintro value hvalue other houtline
  obtain ⟨text, -, rfl⟩ := Option.map_eq_some_iff.1 hvalue
  exact Value.outline_eq_string.1 houtline

/-- A text is seen as it is. -/
theorem get?_seen_string (h : record.Legible) {name text : String}
    (hget : record.get? name = some (.string text)) : record.seen.get? name = some (.string text) :=
  h.get?_seen_optional (show record.get? name = (some text).map .string from hget)

/-- A signed integer is seen as it is. -/
theorem get?_seen_int64 (h : record.Legible) {name : String} {n : Int64}
    (hget : record.get? name = some (.int64 n)) : record.seen.get? name = some (.int64 n) := by
  refine h.get?_seen ?_ hget
  rintro value ⟨⟩ other houtline
  exact Value.outline_eq_integer.1 houtline

/-- A record as seen holds the texts that the record holds. -/
theorem holds_seen (h : record.Legible) (name text : String) :
    record.seen.holds name (.string text) = record.holds name (.string text) := by
  rw [Bool.eq_iff_iff, holds_string, holds_string]
  refine ⟨fun hseen => ?_, h.get?_seen_string⟩
  have houtline := h.get?_outline name
  rw [hseen] at houtline
  obtain ⟨value, hget, hvalue⟩ := Option.map_eq_some_iff.1 houtline.symm
  rw [hget, Value.outline_eq_string.1 hvalue]

/-- An account is seen, maybe with other numbers in its metadata. -/
theorem carries_account (h : record.Legible) {account : Account} (hcarries : record.Carries account) :
    ∃ metadata, record.seen.Carries { account with metadata } := by
  obtain ⟨hid, hstatus, hrole, hhash, hmodified, hmetadata⟩ := Account.carries_iff.1 hcarries
  have hseen (metadata : Json.Members)
      (hholds : Shape.metadata.Holds (record.seen.get? Account.metadataName) metadata) :
      record.seen.Carries { account with metadata } :=
    Account.carries_iff.2 ⟨h.get?_seen_string hid,
      h.get?_seen_string hstatus, h.get?_seen_optional hrole,
      h.get?_seen_optional hhash, h.get?_seen_int64 hmodified, hholds⟩
  obtain hget | ⟨hget, hempty⟩ := hmetadata
  · have houtline := h.get?_outline Account.metadataName
    rw [hget] at houtline
    obtain ⟨value, hvalue, hobject⟩ := Option.map_eq_some_iff.1 houtline
    have hsound : value.Sound := Value.sound_ofMembers.1 h.seen.sound _ _ hvalue
    obtain ⟨members, rfl⟩ : ∃ members, value = .ofMembers members := by
      cases value with
      | object members => exact Value.exists_ofMembers hsound
      | _ => cases hobject
    exact ⟨members, hseen members (.inl hvalue)⟩
  · exact ⟨account.metadata, hseen _ (.inr ⟨h.get?_seen (by nofun) hget, hempty⟩)⟩

/-- A lease is seen as it is. -/
theorem carries_lease (h : record.Legible) {lease : Lease} (hcarries : record.Carries lease) :
    record.seen.Carries lease := by
  obtain ⟨haccount, hprincipal, hstatus, hcreated, hmodified, hstatusModified⟩ :=
    Lease.carries_iff.1 hcarries
  exact Lease.carries_iff.2 ⟨h.get?_seen_string haccount,
    h.get?_seen_string hprincipal, h.get?_seen_string hstatus,
    h.get?_seen_int64 hcreated, h.get?_seen_int64 hmodified, h.get?_seen_int64 hstatusModified⟩

end Legible

/-! ## Records that are legible -/

/-- A record that is read from a text is legible. -/
theorem legible_of_ofText {held record : Record} (hread : Backend.ofText held = .ok record) :
    record.Legible := by
  unfold Backend.ofText at hread
  cases hparse : Value.parse held.toValue.compact with
  | error fault =>
      rw [hparse] at hread
      cases hread
  | ok value =>
      rw [hparse] at hread
      cases value with
      | object members =>
          cases hread
          exact ⟨Value.sound_ofList (Value.parse_sound hparse).2,
            Nat.le_trans (Value.depth_ofList_le members) (Value.parse_depth hparse)⟩
      | _ => cases hread

/-- Setting attributes to sound values keeps a record sound. -/
theorem sound_assign {record : Record} (h : record.toValue.Sound) {assignments : Assignments}
    (hassign : ∀ assignment ∈ assignments, assignment.2.Sound) :
    (record.assign assignments).toValue.Sound := by
  induction assignments generalizing record with
  | nil => exact h
  | cons assignment assignments ih =>
      refine ih ?_ fun other hmem => hassign other (List.mem_cons_of_mem _ hmem)
      exact Value.sound_insert h _ (hassign assignment List.mem_cons_self)

/-- Setting attributes to values that can be read keeps a record legible. -/
theorem Legible.assign {record : Record} (h : record.Legible) {assignments : Assignments}
    (hassign : ∀ assignment ∈ assignments,
      assignment.2.Sound ∧ assignment.2.depth < Json.Reader.maxDepth) :
    (record.assign assignments).Legible where
  sound := sound_assign h.sound fun assignment hmem => (hassign assignment hmem).1
  depth_le := depth_assign_le h.depth_le fun assignment hmem => (hassign assignment hmem).2

end Record

/-- A record that holds a key and nothing else is legible. -/
theorem Table.legible_keyRecord (table : Table) (key : Key) : (table.keyRecord key).Legible where
  sound := by
    have htext (record : Record) (name text : String) (h : record.toValue.Sound) :
        (record.insert name (.string text)).toValue.Sound := Value.sound_insert h name trivial
    have hempty : Record.empty.toValue.Sound := ⟨.nil, trivial⟩
    unfold keyRecord
    dsimp only
    split
    · exact htext _ _ _ (htext _ _ _ hempty)
    · exact htext _ _ _ hempty
  depth_le := Nat.le_trans (table.depth_keyRecord_le key) (by decide)

/-! ## Stores -/

/-- Every record of the store is legible. -/
def Store.Legible (store : Store) : Prop :=
  ∀ name row record, (store.rows name).find? row = some record → record.Legible

/-- The store with all records as they are seen. -/
def Store.seen (store : Store) : Store :=
  ⟨store.tables.mapValues fun rows => rows.mapValues Record.seen⟩

namespace Store

/-- The rows of a table with the records as seen. -/
theorem rows_seen (store : Store) (name : String) :
    store.seen.rows name = (store.rows name).mapValues Record.seen := by
  unfold rows seen
  rw [SortedMap.find?_mapValues]
  cases store.tables.find? name with
  | none => rfl
  | some rows => rfl

/-- A row with its record as seen. -/
theorem find?_rows_seen (store : Store) (name : String) (row : Key) :
    (store.seen.rows name).find? row = ((store.rows name).find? row).map Record.seen := by
  rw [rows_seen, SortedMap.find?_mapValues]

/-- The records of an empty store are legible. -/
theorem legible_empty : ({} : Store).Legible := by
  intro name row record hfind
  rw [rows_empty] at hfind
  cases hfind

end Store

/-! ## Changes of rows -/

/-- What a request does to the rows of a store. -/
inductive Change where
  | keep
  | write (table : Table) (row : Key) (record : Record)
  | remove (table : Table) (row : Key)

namespace Change

/-- The store after a change. -/
def apply : Change → Store → Store
  | keep, store => store
  | write table row record, store => Backend.write store table row record
  | remove table row, store => Backend.remove store table row

/-- The record that is written, if there is one, is legible. -/
def Legible : Change → Prop
  | keep | remove .. => True
  | write _ _ record => record.Legible

/-- A change that writes a legible record keeps all records legible. -/
theorem Legible.apply {change : Change} (h : change.Legible) {store : Store} (hstore : store.Legible) :
    (change.apply store).Legible := by
  intro name row record hfind
  cases change with
  | keep => exact hstore name row record hfind
  | write table other written =>
      rw [Change.apply, Backend.find?_write] at hfind
      split at hfind
      · cases hfind
        exact h
      · exact hstore name row record hfind
  | remove table other =>
      rw [Change.apply, Backend.find?_remove] at hfind
      split at hfind
      · cases hfind
      · exact hstore name row record hfind

end Change

/-- The request makes legible records of legible ones, and looks for texts only. -/
def Request.Legible : Request → Prop
  | put _ record _ => record.Legible
  | update _ _ assignments _ => ∀ assignment ∈ assignments,
      assignment.2.Sound ∧ assignment.2.depth < Json.Reader.maxDepth
  | query _ _ value => ∃ text, value = .string text
  | get .. | delete .. | page .. => True

/-! ## Answers -/

namespace Backend

/-- A database that reads every record as it was filed. -/
def faithful : Backend :=
  .databaseWith .ok columnMatches

/-- Every store is read as it was filed. -/
theorem readsBack_faithful (store : Store) : store.ReadsBack faithful :=
  fun _ _ _ _ => rfl

section Seen

variable {store : Store} (h : store.Legible)

include h

/-- A row is read as it is seen. -/
theorem read_seen (table : Table) (row : Key) :
    database.read store table row = faithful.read store.seen table row := by
  unfold read
  rw [Store.find?_rows_seen]
  cases hfind : (store.rows table.name).find? row with
  | none => rfl
  | some record =>
      have hread : database.reread record = .ok record.seen := (h _ _ _ hfind).ofText.1
      simp only [hread]
      rfl

/-- Conditions are checked against records as they are seen. -/
theorem guarded_seen (table : Table) (row : Key) (condition : Option Condition) :
    database.guarded store table row condition = faithful.guarded store.seen table row condition := by
  rw [guarded, read_seen h]
  rfl

/-- Rows are read as they are seen. -/
theorem readAll_seen {name : String} {rows : List (Key × Record)}
    (hrows : ∀ row ∈ rows, row ∈ (store.rows name).entries) :
    database.readAll rows = .ok (rows.map fun row => row.2.seen) := by
  unfold readAll
  induction rows with
  | nil => rfl
  | cons row rows ih =>
      have hrow := SortedMap.mem_entries_iff.1 (hrows row List.mem_cons_self)
      have hread : database.reread row.2 = .ok row.2.seen := (h _ _ _ hrow).ofText.1
      rw [List.mapM_cons, hread, ih fun other hmem => hrows other (List.mem_cons_of_mem _ hmem)]
      rfl

/-- A page shows the records as they are seen. -/
theorem page_seen (table : Table) (limit : Nat) (start : Option Key) :
    database.page store table limit start = faithful.page store.seen table limit start := by
  have hrows : faithful.pageRows store.seen table limit start =
      (database.pageRows store table limit start).map fun row => (row.1, row.2.seen) := by
    unfold pageRows
    rw [Store.rows_seen, SortedMap.after_mapValues, ← List.map_take]
    rfl
  rw [page_eq (readsBack_faithful _), hrows, List.map_map, List.length_map, List.getLast?_map,
    Option.map_map]
  show (database.readAll (database.pageRows store table limit start) >>= _) = _
  rw [readAll_seen h fun row => mem_of_mem_pageRows]
  rfl

omit h in
/-- If all records that are seen to hold a text are among those that a search finds, then nothing else is
left of them. -/
theorem filter_seen (rows : List (Key × Record)) (candidate : Key × Record → Bool) (name text : String)
    (hcandidate : ∀ row ∈ rows, row.2.seen.holds name (.string text) = true → candidate row = true) :
    ((rows.filter candidate).map fun row => row.2.seen).filter
        (fun record => record.holds name (.string text)) =
      (rows.map fun row => row.2.seen).filter fun record => record.holds name (.string text) := by
  rw [List.filter_map, List.filter_filter, List.filter_map]
  refine congrArg _ (List.filter_congr fun row hmem => ?_)
  show (row.2.seen.holds name (.string text) && candidate row) = row.2.seen.holds name (.string text)
  cases hrow : row.2.seen.holds name (.string text) with
  | false => rfl
  | true => exact hcandidate row hmem hrow

/-- A text is looked for in the records as they are seen. -/
theorem query_seen (table : Table) (name text : String) :
    database.query store table name (.string text) =
      faithful.query store.seen table name (.string text) := by
  have hentries : (store.seen.rows table.name).entries =
      (store.rows table.name).entries.map fun row => (row.1, row.2.seen) := by
    rw [Store.rows_seen]
    rfl
  have hread (keep : Key × Record → Bool) :
      database.readAll ((store.rows table.name).entries.filter keep) =
        .ok (((store.rows table.name).entries.filter keep).map fun row => row.2.seen) :=
    readAll_seen h fun row hmem => (List.mem_filter.1 hmem).1
  rw [query_eq (readsBack_faithful _), hentries]
  unfold query
  cases table.isQueryable name with
  | false => rfl
  | true =>
      simp only [Bool.not_true, Bool.false_eq_true, if_false, if_true]
      split
      · rw [hread, List.filter_map, List.map_map]
        rfl
      · have hsearchable : faithful.searchable name = database.searchable name := rfl
        rw [hsearchable]
        cases database.searchable name with
        | false => rfl
        | true =>
            simp only [Bool.not_true, Bool.false_eq_true, if_false, if_true, hread]
            -- Columns find the text, whether they are extracted from records as they are or as seen.
            have hcolumn {record : Record} (hholds : record.holds name (.string text) = true) :
                columnMatches (record.get? name) (.string text) = true := by
              rw [Record.holds_string.1 hholds]
              exact columnMatches_string (Value.same_string.2 rfl)
            have hstored := filter_seen (store.rows table.name).entries
              (fun row => columnMatches (row.2.get? name) (.string text)) name text
              fun row hmem hseen => by
                rw [(h _ _ _ (SortedMap.mem_entries_iff.1 hmem)).holds_seen] at hseen
                exact hcolumn hseen
            have hseen := filter_seen (store.rows table.name).entries
              (fun row => columnMatches (row.2.seen.get? name) (.string text)) name text
              fun row _ hseen => hcolumn hseen
            refine congrArg Except.ok (hstored.trans (hseen.symm.trans ?_))
            rw [List.filter_map (l := (store.rows table.name).entries), List.map_map]
            rfl

/-- A write that is granted for what is seen in its row does the same to both stores. -/
theorem settle_seen {ρ : Type} (table : Table) (row : Key) (condition : Option Condition)
    (effect : Option Record → ρ × Change)
    (heffect : ∀ current, (∀ record, current = some record → record.Legible) →
      (effect current).2.Legible) :
    ∃ (answer : Except StoreError ρ) (change : Change), change.Legible ∧
      settle store (database.guarded store table row condition >>= fun current =>
        pure ((effect current).1, (effect current).2.apply store)) = (answer, change.apply store) ∧
      settle store.seen (faithful.guarded store.seen table row condition >>= fun current =>
        pure ((effect current).1, (effect current).2.apply store.seen)) =
          (answer, change.apply store.seen) := by
  rw [guarded_seen h]
  cases hguarded : faithful.guarded store.seen table row condition with
  | error error => exact ⟨.error error, .keep, trivial, rfl, rfl⟩
  | ok current =>
      refine ⟨.ok (effect current).1, (effect current).2, heffect current ?_, rfl, rfl⟩
      rintro record rfl
      rw [guarded_eq (readsBack_faithful _), Store.find?_rows_seen] at hguarded
      split at hguarded
      · obtain ⟨held, hheld, rfl⟩ := Option.map_eq_some_iff.1 (Except.ok.inj hguarded)
        exact (h _ _ _ hheld).seen
      · cases hguarded

/-- A request is answered alike with the records as they are and as they are seen, and the same is done to
the rows. -/
theorem perform_seen {request : Request} (hrequest : request.Legible) :
    ∃ (answer : request.Answer) (change : Change), change.Legible ∧
      database.perform store request = (answer, change.apply store) ∧
      faithful.perform store.seen request = (answer, change.apply store.seen) := by
  cases request with
  | get table key =>
      refine ⟨_, .keep, trivial, rfl, ?_⟩
      exact congrArg (·, store.seen) (read_seen h table (columns key)).symm
  | put table record condition =>
      simp only [perform, put]
      cases table.keyOf record with
      | error error => exact ⟨.error error, .keep, trivial, rfl, rfl⟩
      | ok key =>
          exact settle_seen h table (columns key) condition
            (fun current => (current, .write table (columns key) record)) fun _ _ => hrequest
  | update table key assignments condition =>
      refine settle_seen h table (columns key) condition
        (fun current =>
          ((current.getD (table.keyRecord key)).assign assignments, .write table (columns key)
            ((current.getD (table.keyRecord key)).assign assignments)))
        fun current hcurrent => Record.Legible.assign ?_ hrequest
      cases current with
      | none => exact table.legible_keyRecord key
      | some record => exact hcurrent record rfl
  | delete table key condition =>
      exact settle_seen h table (columns key) condition
        (fun current => (current, .remove table (columns key))) fun _ _ => trivial
  | query table name value =>
      obtain ⟨text, rfl⟩ := hrequest
      refine ⟨_, .keep, trivial, rfl, ?_⟩
      exact congrArg (·, store.seen) (query_seen h table name text).symm
  | page table limit start =>
      refine ⟨_, .keep, trivial, rfl, ?_⟩
      exact congrArg (·, store.seen) (page_seen h table limit start).symm

end Seen

end Backend

end AccountPool
