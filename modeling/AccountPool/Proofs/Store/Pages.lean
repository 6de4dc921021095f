import AccountPool.Proofs.Store.Rows
import AccountPool.Store.Scan

/-!
# Pages of a table

A page shows the first rows after a key and names the key to resume after. `Backend.rowsAfter_eq_append`
says that nothing is lost or shown twice between a page and what follows the key that it names, provided
that every row is addressed by the key that is shown for it. The steps of a scan are given in terms of the
rows: `Scan.remaining` are those that it has not fetched.
-/

namespace AccountPool

/-! ## Entries after a key -/

/-- What stands in a list whose elements are related in order is the last element or related to it. -/
theorem eq_or_rel_of_getLast? {α : Type} {rel : α → α → Prop} {list : List α}
    (hlist : list.Pairwise rel) {last : α} (hlast : list.getLast? = some last) {element : α}
    (hmem : element ∈ list) : element = last ∨ rel element last := by
  obtain ⟨before, rfl⟩ := List.getLast?_eq_some_iff.1 hlast
  obtain hbefore | hsame := List.mem_append.1 hmem
  · exact .inr ((List.pairwise_append.1 hlist).2.2 element hbefore last List.mem_cons_self)
  · exact .inl (List.mem_singleton.1 hsame)

/-- Keys that increase are different. -/
theorem nodup_of_increasing {α κ : Type} [Ord κ] [Std.ReflOrd κ] {key : α → κ} {list : List α}
    (hlist : list.Pairwise fun earlier later => compare (key earlier) (key later) = .lt) :
    (list.map key).Nodup := by
  refine List.pairwise_map.2 (hlist.imp ?_)
  intro earlier later hlt hsame
  rw [hsame] at hlt
  simp at hlt

namespace SortedMap

variable {κ ν : Type} [Ord κ]

/-- The entries after a key are in order. -/
theorem pairwise_after (map : SortedMap κ ν) (start : Option κ) :
    (map.after start).Pairwise fun earlier later => compare earlier.1 later.1 = .lt := by
  cases start with
  | none => exact map.sorted
  | some start => exact map.sorted.filter _

/-- What comes after a key is greater. -/
theorem mem_after_some {map : SortedMap κ ν} {start : κ} {entry : κ × ν} :
    entry ∈ map.after (some start) ↔ entry ∈ map.entries ∧ compare start entry.1 = .lt := by
  simp [after]

variable [Std.TransOrd κ]

/-- What comes after a later key comes after an earlier one too. -/
theorem after_eq_filter (map : SortedMap κ ν) {start : Option κ} {later : κ}
    (hstart : ∀ key ∈ start, (compare key later).isLE) :
    map.after (some later) = (map.after start).filter fun entry => compare later entry.1 == .lt := by
  cases start with
  | none => rfl
  | some start =>
      rw [after, after, List.filter_filter]
      refine List.filter_congr fun entry _ => ?_
      cases horder : compare later entry.1 with
      | lt => simp [Std.TransCmp.lt_of_isLE_of_lt (hstart start rfl) horder]
      | eq | gt => rfl

/-- After the last one of the first entries come the others. -/
theorem after_of_append {map : SortedMap κ ν} {start : Option κ} {taken rest : List (κ × ν)}
    {last : κ × ν} (hsplit : map.after start = taken ++ rest) (hlast : taken.getLast? = some last) :
    map.after (some last.1) = rest := by
  have hmem := List.mem_of_getLast? hlast
  have hsorted := map.pairwise_after start
  rw [hsplit] at hsorted
  obtain ⟨htaken, -, hcross⟩ := List.pairwise_append.1 hsorted
  have hlater : map.after (some last.1) =
      (map.after start).filter fun entry => compare last.1 entry.1 == .lt := by
    refine map.after_eq_filter ?_
    rintro key rfl
    have hafter : last ∈ map.after (some key) := hsplit ▸ List.mem_append_left rest hmem
    rw [(mem_after_some.1 hafter).2]
    rfl
  have hnone : taken.filter (fun entry => compare last.1 entry.1 == .lt) = [] := by
    refine List.filter_eq_nil_iff.2 fun entry hentry => ?_
    obtain rfl | hlt := eq_or_rel_of_getLast? htaken hlast hentry
    · simp
    · rw [Std.OrientedCmp.gt_of_lt hlt]
      decide
  have hall : rest.filter (fun entry => compare last.1 entry.1 == .lt) = rest := by
    refine List.filter_eq_self.2 fun entry hentry => ?_
    simp [hcross last hmem entry hentry]
  rw [hlater, hsplit, List.filter_append, hnone, hall, List.nil_append]

end SortedMap

/-! ## Pages -/

namespace Backend

variable (backend : Backend) (store : Store) (table : Table)

/-- The key that is shown for a row addresses the row. -/
def LeadsBack (row : Key) : Prop :=
  backend.address (backend.shown table row) = row

instance (row : Key) : Decidable (backend.LeadsBack table row) :=
  inferInstanceAs (Decidable (_ = _))

/-- The rows of a table after a key. -/
def rowsAfter (start : Option Key) : List (Key × Record) :=
  (store.rows table.name).after (start.map backend.address)

/-- The key that a page names: that of its last row, if the page is full. -/
def pageLast (limit : Nat) (start : Option Key) : Option Key :=
  if (backend.pageRows store table limit start).length = max limit 1 then
    (backend.pageRows store table limit start).getLast?.map fun row => backend.shown table row.1
  else none

variable {backend store table} {limit : Nat} {start : Option Key}

/-- In memory the key shown for a row is the row's. -/
theorem leadsBack_memory (table : Table) (row : Key) : memory.LeadsBack table row :=
  rfl

/-- In a database the key shown for a row addresses it if the table has a sort attribute or the sort value
is empty. -/
theorem leadsBack_databaseWith {reread : Record → Except Json.Fault Record}
    {candidate : Option Json.Value → Json.Value → Bool} {row : Key} :
    (databaseWith reread candidate).LeadsBack table row ↔
      (table.sort.isSome ∧ row.sort.isSome) ∨ row.sort = some "" := by
  obtain ⟨partition, sort⟩ := row
  cases hsort : table.sort with
  | none =>
      have hshown : (databaseWith reread candidate).shown table ⟨partition, sort⟩ =
          ⟨partition, none⟩ := by
        simp [databaseWith, hsort]
      rw [LeadsBack, hshown]
      exact ⟨fun hlead => .inr (congrArg Key.sort hlead).symm, by rintro (⟨⟨⟩, -⟩ | rfl); rfl⟩
  | some name =>
      have hshown : (databaseWith reread candidate).shown table ⟨partition, sort⟩ =
          ⟨partition, sort⟩ := by
        simp [databaseWith, hsort]
      rw [LeadsBack, hshown]
      cases sort with
      | none =>
          refine ⟨fun hlead => ?_, by simp⟩
          have hsame : some "" = none := congrArg Key.sort hlead
          cases hsame
      | some sort => exact ⟨fun _ => .inl ⟨rfl, rfl⟩, fun _ => rfl⟩

/-- A page is read from its rows, and names its last key. -/
theorem page_eq_map (limit : Nat) (start : Option Key) :
    backend.page store table limit start =
      (backend.readAll (backend.pageRows store table limit start)).map fun records =>
        ⟨records, backend.pageLast store table limit start⟩ := by
  show (backend.readAll (backend.pageRows store table limit start) >>= _) = _
  cases backend.readAll (backend.pageRows store table limit start) <;> rfl

/-- The rows of a page are the first ones after its start. -/
theorem pageRows_eq_take :
    backend.pageRows store table limit start =
      (backend.rowsAfter store table start).take (max limit 1) :=
  rfl

/-- A page that names no key shows all rows after its start. -/
theorem pageRows_of_last_none (hlast : backend.pageLast store table limit start = none) :
    backend.pageRows store table limit start = backend.rowsAfter store table start := by
  rw [pageRows_eq_take]
  refine List.take_of_length_le (Nat.le_of_not_lt fun hlong => ?_)
  have hfull : (backend.pageRows store table limit start).length = max limit 1 := by
    rw [pageRows_eq_take, List.length_take]
    omega
  rw [pageLast, if_pos hfull, Option.map_eq_none_iff, List.getLast?_eq_none_iff] at hlast
  rw [hlast] at hfull
  simp only [List.length_nil] at hfull
  omega

/-- A page that names a key is full and shows it for its last row. -/
theorem pageLast_eq_some {key : Key} :
    backend.pageLast store table limit start = some key ↔
      (backend.pageRows store table limit start).length = max limit 1 ∧
        ∃ row, (backend.pageRows store table limit start).getLast? = some row ∧
          backend.shown table row.1 = key := by
  rw [pageLast]
  split
  · next hfull => simp [hfull, Option.map_eq_some_iff]
  · next hshort => simp [hshort]

/-- The rows after a start are those of the page and those after the key that the page names. -/
theorem rowsAfter_eq_append
    (hlead : ∀ row ∈ (store.rows table.name).entries, backend.LeadsBack table row.1) (limit : Nat)
    (start : Option Key) :
    backend.rowsAfter store table start =
      backend.pageRows store table limit start ++
        if (backend.pageLast store table limit start).isNone then []
        else backend.rowsAfter store table (backend.pageLast store table limit start) := by
  cases hlast : backend.pageLast store table limit start with
  | none => simp [pageRows_of_last_none hlast]
  | some key =>
      obtain ⟨-, row, hrow, rfl⟩ := pageLast_eq_some.1 hlast
      have hback := hlead row (mem_of_mem_pageRows (List.mem_of_getLast? hrow))
      have hsplit : (store.rows table.name).after (start.map backend.address) =
          backend.pageRows store table limit start ++
            (backend.rowsAfter store table start).drop (max limit 1) :=
        (List.take_append_drop _ _).symm
      have hrest : backend.rowsAfter store table (some (backend.shown table row.1)) =
          (store.rows table.name).after (some row.1) :=
        congrArg (fun key => (store.rows table.name).after (some key)) hback
      rw [Option.isNone_some, if_neg Bool.false_ne_true, hrest, SortedMap.after_of_append hsplit hrow]
      exact hsplit

end Backend

/-! ## Reading rows -/

namespace Backend

variable {backend : Backend}

/-- Reading no rows gives no records. -/
@[simp] theorem readAll_nil : backend.readAll [] = .ok [] :=
  rfl

/-- Rows are read one part after the other. -/
theorem readAll_append (first second : List (Key × Record)) :
    backend.readAll (first ++ second) =
      match backend.readAll first with
      | .error error => .error error
      | .ok records => (backend.readAll second).map (records ++ ·) := by
  unfold readAll
  rw [List.mapM_append]
  cases List.mapM (m := Except StoreError) _ first with
  | error error => rfl
  | ok records => cases List.mapM (m := Except StoreError) _ second <;> rfl

/-- Rows that can all be read give their records. -/
theorem exists_readAll {rows : List (Key × Record)}
    (hrows : ∀ row ∈ rows, ∃ record, backend.reread row.2 = .ok record) :
    ∃ records, backend.readAll rows = .ok records := by
  induction rows with
  | nil => exact ⟨[], rfl⟩
  | cons row rows ih =>
      obtain ⟨record, hrecord⟩ := hrows row List.mem_cons_self
      obtain ⟨records, hrest⟩ := ih fun other hmem => hrows other (List.mem_cons_of_mem _ hmem)
      rw [readAll] at hrest ⊢
      rw [List.mapM_cons, hrecord, hrest]
      exact ⟨record :: records, rfl⟩

/-- A row that cannot be read is one too many. -/
theorem exists_readAll_error {rows : List (Key × Record)} {row : Key × Record} {fault : Json.Fault}
    (hmem : row ∈ rows) (hfault : backend.reread row.2 = .error fault) :
    ∃ fault, backend.readAll rows = .error (.unreadable fault) := by
  induction rows with
  | nil => cases hmem
  | cons head rows ih =>
      rw [readAll, List.mapM_cons]
      cases hhead : backend.reread head.2 with
      | error fault => exact ⟨fault, rfl⟩
      | ok record =>
          obtain rfl | hrest := List.mem_cons.1 hmem
          · rw [hfault] at hhead
            cases hhead
          · obtain ⟨fault, hrows⟩ := ih hrest
            rw [readAll] at hrows
            rw [hrows]
            exact ⟨fault, rfl⟩

/-- If rows are read, the first one is read and the others are. -/
theorem exists_of_readAll_cons {row : Key × Record} {rows : List (Key × Record)} {records : List Record}
    (hread : backend.readAll (row :: rows) = .ok records) :
    ∃ first rest, backend.reread row.2 = .ok first ∧ backend.readAll rows = .ok rest ∧
      records = first :: rest := by
  unfold readAll at hread ⊢
  rw [List.mapM_cons] at hread
  cases hrow : backend.reread row.2 with
  | error fault =>
      rw [hrow] at hread
      cases hread
  | ok first =>
      rw [hrow] at hread
      cases hrest : rows.mapM fun other => (backend.reread other.2).mapError StoreError.unreadable with
      | error error =>
          rw [hrest] at hread
          cases hread
      | ok rest =>
          rw [hrest] at hread
          cases hread
          exact ⟨first, rest, rfl, rfl, rfl⟩

/-- Each row that is read gives one record. -/
theorem length_readAll {rows : List (Key × Record)} {records : List Record}
    (hread : backend.readAll rows = .ok records) : records.length = rows.length := by
  induction rows generalizing records with
  | nil =>
      cases hread
      rfl
  | cons row rows ih =>
      obtain ⟨first, rest, -, hrest, rfl⟩ := exists_of_readAll_cons hread
      exact congrArg (· + 1) (ih hrest)

end Backend

end AccountPool
