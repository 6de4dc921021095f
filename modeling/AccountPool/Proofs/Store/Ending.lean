import AccountPool.Proofs.Store.Drain
import AccountPool.Proofs.Store.Target

/-!
# Whether scans end

A scan that nobody disturbs ends if every row is addressed by the key that is shown for it, and then it
fetches no row twice: `Scan.fetchedBy_prefix`. A database shows the rows of a table without sort attribute by
their partition alone. Rows with a sort value are stranded in such a table: a page that ends with one of them
is followed by a page that starts again at the first of its partition. The scan gets over them if every
partition has fewer of them than a page has rows, `Scan.ends_of_not_crowded`, and otherwise it goes round for
ever, `Scan.not_ends_of_crowded`.
-/

namespace AccountPool

/-! ## Keys of one partition -/

namespace Key

/-- Keys are compared by their partitions first. -/
theorem compare_of_partition_lt {first second : Key}
    (hpartition : compare first.partition second.partition = .lt) : compare first second = .lt := by
  rw [compare_def, hpartition]
  rfl

/-- The partition of a key that does not come after another one does not either. -/
theorem partition_lt_or_eq {first second : Key} (hle : (compare first second).isLE) :
    compare first.partition second.partition = .lt ∨ first.partition = second.partition := by
  rw [compare_def] at hle
  cases hpartition : compare first.partition second.partition with
  | lt => exact .inl rfl
  | eq => exact .inr (Std.LawfulEqOrd.eq_of_compare hpartition)
  | gt =>
      rw [hpartition] at hle
      cases hle

/-- In a partition the empty sort value comes before the others. -/
theorem compare_empty_sort {partition text : String} (htext : text ≠ "") :
    compare (⟨partition, some ""⟩ : Key) ⟨partition, some text⟩ = .lt := by
  have hlt : compare (some "") (some text) = .lt := by
    show compare "" text = .lt
    rw [show compare "" text = compareOfLessAndEq "" text from rfl, compareOfLessAndEq_eq_lt,
      String.lt_iff]
    cases hlist : text.toList with
    | nil => exact absurd (String.toList_eq_nil_iff.1 hlist) htext
    | cons c rest => exact List.nil_lt_cons c rest
  rw [compare_def, hlt]
  simp

end Key

/-! ## Pages that go on -/

namespace Backend

variable {backend : Backend} {store : Store} {table : Table} {limit : Nat} {start : Option Key}

/-- The rows of a partition that are not addressed by the keys shown for them. -/
def stranded (backend : Backend) (store : Store) (table : Table) (partition : String) :
    List (Key × Record) :=
  (store.rows table.name).entries.filter fun row =>
    row.1.partition = partition ∧ ¬ backend.LeadsBack table row.1

/-- Some partition has as many stranded rows as a page has rows. -/
def Crowded (backend : Backend) (store : Store) (table : Table) (limit : Nat) : Prop :=
  ∃ partition, max limit 1 ≤ (backend.stranded store table partition).length

/-- A page that names a key after one of its rows leaves fewer rows. -/
theorem length_rowsAfter_lt {key : Key} {row : Key × Record}
    (hmem : row ∈ backend.pageRows store table limit start)
    (hle : (compare row.1 (backend.address key)).isLE) :
    (backend.rowsAfter store table (some key)).length <
      (backend.rowsAfter store table start).length := by
  have hrow : row ∈ backend.rowsAfter store table start := List.mem_of_mem_take hmem
  have hfilter : backend.rowsAfter store table (some key) =
      (backend.rowsAfter store table start).filter fun other =>
        compare (backend.address key) other.1 == .lt := by
    refine SortedMap.after_eq_filter _ ?_
    intro earlier hearlier
    rw [rowsAfter, hearlier] at hrow
    exact Std.TransCmp.isLE_trans (by rw [(SortedMap.mem_after_some.1 hrow).2]; rfl) hle
  rw [hfilter, List.length_filter_lt_length_iff_exists]
  refine ⟨row, hrow, ?_⟩
  intro hlater
  have hgt := Std.OrientedCmp.gt_of_lt (beq_iff_eq.1 hlater)
  rw [hgt] at hle
  cases hle

/-- The stranded rows of a partition are found among the rows after a key that comes before them. -/
theorem filter_rowsAfter {partition : String}
    (hstart : ∀ row ∈ backend.stranded store table partition,
      row ∈ backend.rowsAfter store table start) :
    (backend.rowsAfter store table start).filter (fun row =>
        row.1.partition = partition ∧ ¬ backend.LeadsBack table row.1) =
      backend.stranded store table partition := by
  unfold rowsAfter at hstart ⊢
  cases hkey : start.map backend.address with
  | none => rfl
  | some key =>
      rw [hkey] at hstart
      rw [SortedMap.after, List.filter_filter, stranded]
      refine List.filter_congr fun row hmem => ?_
      cases hstranded : decide (row.1.partition = partition ∧ ¬ backend.LeadsBack table row.1) with
      | false => rfl
      | true =>
          have hafter := hstart row (List.mem_filter.2 ⟨hmem, hstranded⟩)
          rw [(SortedMap.mem_after_some.1 hafter).2]
          rfl

/-- A full page that starts before the stranded rows of a crowded partition does not get past the
partition, for then it would show all of them and another row. -/
theorem not_past_crowded {partition : String}
    (hcrowded : max limit 1 ≤ (backend.stranded store table partition).length)
    (hstart : ∀ row ∈ backend.stranded store table partition,
      row ∈ backend.rowsAfter store table start)
    {last : Key × Record}
    (hlast : (backend.pageRows store table limit start).getLast? = some last) :
    compare partition last.1.partition ≠ .lt := by
  intro hpast
  obtain ⟨before, hpage⟩ := List.getLast?_eq_some_iff.1 hlast
  let later := (backend.rowsAfter store table start).drop (max limit 1)
  have hsplit : backend.rowsAfter store table start = before ++ [last] ++ later := by
    rw [← hpage]
    exact (List.take_append_drop _ _).symm
  have hsorted : (backend.rowsAfter store table start).Pairwise fun earlier later =>
      compare earlier.1 later.1 = .lt := SortedMap.pairwise_after _ _
  rw [hsplit] at hsorted
  -- A row of the partition comes before the last row of the page.
  have hnone : ([last] ++ later).filter (fun row =>
      row.1.partition = partition ∧ ¬ backend.LeadsBack table row.1) = [] := by
    refine List.filter_eq_nil_iff.2 fun row hmem hstranded => ?_
    obtain ⟨rfl, -⟩ := of_decide_eq_true hstranded
    have hbefore := Key.compare_of_partition_lt hpast
    obtain hsame | hlater := List.mem_append.1 hmem
    · obtain rfl := List.mem_singleton.1 hsame
      simp at hbefore
    · have hafter := (List.pairwise_append.1 hsorted).2.2 last (by simp) row hlater
      rw [Std.OrientedCmp.gt_of_lt hafter] at hbefore
      cases hbefore
  have hall := filter_rowsAfter hstart
  rw [hsplit, List.append_assoc, List.filter_append, hnone, List.append_nil] at hall
  have hfew := List.length_filter_le (fun row =>
    row.1.partition = partition ∧ ¬ backend.LeadsBack table row.1) before
  have hlength := congrArg List.length hpage
  rw [pageRows_eq_take, List.length_take, List.length_append, List.length_singleton] at hlength
  rw [hall] at hfew
  omega

end Backend

/-! ## Scans that end -/

namespace Scan

variable {backend : Backend} {store : Store} {table : Table} {scan : Scan}

/-- The scan comes to an end or a failure if it makes enough steps. -/
def Ends (backend : Backend) (store : Store) (table : Table) (scan : Scan) : Prop :=
  ∃ bound, ∀ keep fuel kept, bound ≤ fuel →
    (scan.drain (.ofEngine backend.perform table) keep fuel store kept).1.isSome

/-- A scan that is exhausted ends. -/
theorem ends_of_exhausted (hbuffer : scan.buffer = []) (hover : scan.exhausted = true) :
    scan.Ends backend store table := by
  refine ⟨1, ?_⟩
  intro keep fuel kept hfuel
  obtain ⟨fuel, rfl⟩ := Nat.exists_eq_add_of_le' hfuel
  rw [drain, step_of_exhausted hbuffer hover]
  rfl

/-- A scan ends if it ends after it has handed out its buffer. -/
theorem ends_of_buffer (hends : Ends backend store table { scan with buffer := [] }) :
    scan.Ends backend store table := by
  obtain ⟨pageSize, start, buffer, exhausted⟩ := scan
  induction buffer with
  | nil => exact hends
  | cons record buffer ih =>
      obtain ⟨bound, hbound⟩ := ih hends
      refine ⟨bound + 1, ?_⟩
      intro keep fuel kept hfuel
      obtain ⟨fuel, rfl⟩ := Nat.exists_eq_add_of_le' (Nat.le_of_add_left_le hfuel)
      rw [drain, step_of_buffer rfl]
      exact hbound keep fuel _ (Nat.le_of_succ_le_succ hfuel)

/-- A scan ends if it ends after its next page. -/
theorem ends_of_page (hbuffer : scan.buffer = []) (hgoes : scan.exhausted = false)
    (hends : ∀ records, (scan.refilled backend store table records).Ends backend store table) :
    scan.Ends backend store table := by
  have hstep : scan.step (.ofEngine backend.perform table) store = _ := step_of_page hbuffer hgoes
  cases hread : backend.readAll (backend.pageRows store table scan.pageSize scan.start) with
  | error error =>
      rw [hread] at hstep
      refine ⟨1, ?_⟩
      intro keep fuel kept hfuel
      obtain ⟨fuel, rfl⟩ := Nat.exists_eq_add_of_le' hfuel
      rw [drain, hstep]
      rfl
  | ok records =>
      rw [hread] at hstep
      obtain ⟨bound, hbound⟩ := hends records
      refine ⟨bound + 1, ?_⟩
      intro keep fuel kept hfuel
      obtain ⟨fuel, rfl⟩ := Nat.exists_eq_add_of_le' (Nat.le_of_add_left_le hfuel)
      rw [drain, hstep]
      exact hbound keep fuel kept (Nat.le_of_succ_le_succ hfuel)

/-- A scan ends if every page that names a key leaves fewer rows. -/
theorem ends_of_progress {limit : Nat}
    (hprogress : ∀ start key, backend.pageLast store table limit start = some key →
      (backend.rowsAfter store table (some key)).length <
        (backend.rowsAfter store table start).length)
    (hlimit : scan.pageSize = limit) : scan.Ends backend store table := by
  -- The rows after the key to resume after become fewer with every page.
  induction hlength : (backend.rowsAfter store table scan.start).length using Nat.strongRecOn
    generalizing scan with
  | ind length ih =>
      refine ends_of_buffer ?_
      cases hexhausted : scan.exhausted with
      | true => exact ends_of_exhausted rfl rfl
      | false =>
          refine ends_of_page rfl rfl fun records => ?_
          cases hlast : backend.pageLast store table scan.pageSize scan.start with
          | none =>
              refine ends_of_buffer (ends_of_exhausted rfl ?_)
              simp [refilled, hlast]
          | some key =>
              have hfewer := hprogress scan.start key (hlimit ▸ hlast)
              refine ih _ (hlength ▸ hfewer) hlimit ?_
              simp [refilled, hlast]

/-! ## No row is fetched twice -/

/-- The rows of the pages that a scan asks for in a number of steps. -/
def fetchedBy (backend : Backend) (store : Store) (table : Table) : Nat → Scan → List (Key × Record)
  | 0, _ => []
  | count + 1, scan =>
      let next := (scan.step (.ofEngine backend.perform table) store).2.1
      if scan.fetches then
        backend.pageRows store table scan.pageSize scan.start ++
          fetchedBy backend store table count next
      else fetchedBy backend store table count next

/-- A scan fetches the rows that remain one after the other. -/
theorem fetchedBy_prefix
    (hlead : ∀ row ∈ (store.rows table.name).entries, backend.LeadsBack table row.1) (count : Nat)
    (scan : Scan) :
    scan.fetchedBy backend store table count <+: scan.remaining backend store table := by
  induction count generalizing scan with
  | zero => exact List.nil_prefix
  | succ count ih =>
      rw [fetchedBy]
      cases hfetches : scan.fetches with
      | true =>
          obtain ⟨hbuffer, hgoes⟩ := fetches_iff.1 hfetches
          rw [if_pos rfl, step_of_page hbuffer hgoes]
          cases hread : backend.readAll (backend.pageRows store table scan.pageSize scan.start) with
          | error error =>
              -- After a page that could not be read there is no other one.
              have hnone : scan.failed.fetchedBy backend store table count = [] :=
                List.prefix_nil.1 (ih scan.failed)
              rw [remaining_eq_append hlead hgoes []]
              simp [hnone]
          | ok records =>
              rw [remaining_eq_append hlead hgoes records]
              exact (List.prefix_append_right_inj _).2 (ih _)
      | false =>
          rw [if_neg Bool.false_ne_true]
          cases hbuffer : scan.buffer with
          | cons record buffer =>
              rw [step_of_buffer hbuffer]
              exact ih { scan with buffer }
          | nil =>
              have hover : scan.exhausted = true := by simpa [fetches, hbuffer] using hfetches
              rw [step_of_exhausted hbuffer hover]
              exact ih scan

end Scan

/-! ## Tables without sort attribute in a database -/

section Stranded

variable {reread : Record → Except Json.Fault Record} {candidate : Option Json.Value → Json.Value → Bool}
  {store : Store} {table : Table} (hsort : table.sort = none)

include hsort

/-- A row is shown by its partition, so that a scan resumes after the empty sort value. -/
theorem Backend.address_shown (row : Key) :
    (databaseWith reread candidate).address ((databaseWith reread candidate).shown table row) =
      ⟨row.partition, some ""⟩ := by
  simp [databaseWith, columns, hsort]

/-- The rows that lead back are those without a sort value. -/
theorem Backend.leadsBack_iff {row : Key} :
    (databaseWith reread candidate).LeadsBack table row ↔ row.sort = some "" := by
  rw [leadsBack_databaseWith, hsort]
  simp

/-- A page that is not made of stranded rows of one partition has a row that does not come after the key
that the page names. -/
theorem Backend.exists_le_of_not_crowded {limit : Nat} {start : Option Key} {key : Key}
    (hfree : ¬ (databaseWith reread candidate).Crowded store table limit)
    (hlast : (databaseWith reread candidate).pageLast store table limit start = some key) :
    ∃ row ∈ (databaseWith reread candidate).pageRows store table limit start,
      (compare row.1 ((databaseWith reread candidate).address key)).isLE := by
  let backend := databaseWith reread candidate
  obtain ⟨hfull, last, hrow, rfl⟩ := pageLast_eq_some.1 hlast
  let partition := last.1.partition
  let page := backend.pageRows store table limit start
  have hsublist : page.Sublist (store.rows table.name).entries := by
    refine (List.take_sublist _ _).trans ?_
    cases start with
    | none => exact List.Sublist.refl _
    | some start => exact List.filter_sublist
  -- Fewer rows of the partition are stranded than the page has.
  have hfew : (page.filter fun row =>
      row.1.partition = partition ∧ ¬ backend.LeadsBack table row.1).length < page.length := by
    have hle := (hsublist.filter fun row =>
      row.1.partition = partition ∧ ¬ backend.LeadsBack table row.1).length_le
    have hlt : (backend.stranded store table partition).length < max limit 1 :=
      Nat.lt_of_not_le fun hcrowded => hfree ⟨partition, hcrowded⟩
    rw [show page.length = max limit 1 from hfull]
    exact Nat.lt_of_le_of_lt hle hlt
  obtain ⟨row, hmem, hnot⟩ := List.length_filter_lt_length_iff_exists.1 hfew
  refine ⟨row, hmem, ?_⟩
  rw [address_shown hsort]
  by_cases hpartition : row.1.partition = partition
  · have hback : backend.LeadsBack table row.1 := Decidable.byContradiction fun hstranded =>
      hnot (decide_eq_true ⟨hpartition, hstranded⟩)
    have hrow : row.1 = ⟨partition, some ""⟩ := by
      rw [← hpartition, ← (leadsBack_iff hsort).1 hback]
    rw [hrow, Std.ReflCmp.isLE_rfl]
  · have hsorted : page.Pairwise fun earlier later => compare earlier.1 later.1 = .lt :=
      (SortedMap.pairwise_after _ _).sublist (List.take_sublist _ _)
    obtain rfl | hlt := eq_or_rel_of_getLast? hsorted hrow hmem
    · exact absurd rfl hpartition
    · have hle : (compare row.1 last.1).isLE := by rw [hlt]; rfl
      have hbefore : compare row.1 ⟨partition, some ""⟩ = .lt :=
        Key.compare_of_partition_lt ((Key.partition_lt_or_eq hle).resolve_right hpartition)
      rw [hbefore]
      rfl

/-- A scan ends if every partition has fewer stranded rows than a page has rows. -/
theorem Scan.ends_of_not_crowded {scan : Scan}
    (hfree : ¬ (Backend.databaseWith reread candidate).Crowded store table scan.pageSize) :
    scan.Ends (.databaseWith reread candidate) store table := by
  refine ends_of_progress (fun start key hlast => ?_) rfl
  obtain ⟨row, hmem, hle⟩ := Backend.exists_le_of_not_crowded hsort hfree hlast
  exact Backend.length_rowsAfter_lt hmem hle

/-! ## Scans that go round for ever -/

variable (haddressed : store.AddressedBy (.databaseWith reread candidate) fun _ _ => True)

include haddressed

/-- A row that is stranded has a sort value. -/
theorem Backend.sort_of_stranded {partition : String} {row : Key × Record}
    (hrow : row ∈ (databaseWith reread candidate).stranded store table partition) :
    ∃ text, text ≠ "" ∧ row.1 = ⟨partition, some text⟩ := by
  obtain ⟨hmem, hstranded⟩ := List.mem_filter.1 hrow
  obtain ⟨rfl, hback⟩ := of_decide_eq_true hstranded
  obtain ⟨key, -, hkey⟩ := haddressed table.name row.1 row.2 (SortedMap.mem_entries_iff.1 hmem)
  refine ⟨key.sort.getD "", fun hempty => hback ?_, ?_⟩
  · rw [leadsBack_iff hsort, ← hkey]
    exact congrArg some hempty
  · rw [← hkey]
    rfl

/-- A page that starts before the stranded rows of a crowded partition names a key before them. -/
theorem Backend.stranded_after {partition : String} {limit : Nat} {start : Option Key}
    (hcrowded : max limit 1 ≤ ((databaseWith reread candidate).stranded store table partition).length)
    (hstart : ∀ row ∈ (databaseWith reread candidate).stranded store table partition,
      row ∈ (databaseWith reread candidate).rowsAfter store table start) :
    ∃ key, (databaseWith reread candidate).pageLast store table limit start = some key ∧
      ∀ row ∈ (databaseWith reread candidate).stranded store table partition,
        row ∈ (databaseWith reread candidate).rowsAfter store table (some key) := by
  let backend := databaseWith reread candidate
  have hfull : (backend.pageRows store table limit start).length = max limit 1 := by
    have hmany := List.length_filter_le (fun row =>
      row.1.partition = partition ∧ ¬ backend.LeadsBack table row.1)
      (backend.rowsAfter store table start)
    rw [filter_rowsAfter hstart] at hmany
    rw [pageRows_eq_take, List.length_take]
    omega
  cases hlast : (backend.pageRows store table limit start).getLast? with
  | none =>
      rw [List.getLast?_eq_none_iff.1 hlast, List.length_nil] at hfull
      omega
  | some last =>
      refine ⟨backend.shown table last.1, pageLast_eq_some.2 ⟨hfull, last, hlast, rfl⟩, ?_⟩
      intro row hrow
      obtain ⟨text, htext, hkey⟩ := sort_of_stranded hsort haddressed hrow
      have hafter : compare (backend.address (backend.shown table last.1)) row.1 = .lt := by
        rw [address_shown hsort, hkey]
        cases horder : compare last.1.partition partition with
        | lt => exact Key.compare_of_partition_lt horder
        | eq =>
            rw [Std.LawfulEqOrd.eq_of_compare horder]
            exact Key.compare_empty_sort htext
        | gt => exact absurd (Std.OrientedCmp.lt_of_gt horder) (not_past_crowded hcrowded hstart hlast)
      exact SortedMap.mem_after_some.2 ⟨(List.mem_filter.1 hrow).1, hafter⟩

/-- A scan that has not passed a crowded partition is asked in vain if the rows can be read. -/
theorem Scan.drain_of_crowded
    (hread : ∀ row ∈ (store.rows table.name).entries, ∃ record, reread row.2 = .ok record)
    {partition : String} {scan : Scan} (hgoes : scan.exhausted = false)
    (hcrowded : max scan.pageSize 1 ≤
      ((Backend.databaseWith reread candidate).stranded store table partition).length)
    (hstart : ∀ row ∈ (Backend.databaseWith reread candidate).stranded store table partition,
      row ∈ (Backend.databaseWith reread candidate).rowsAfter store table scan.start)
    (keep : Record → Bool) (fuel : Nat) (kept : List Record) :
    (scan.drain (.ofEngine (Backend.databaseWith reread candidate).perform table) keep fuel store
      kept).1 = none := by
  -- Whatever page is asked for, the stranded rows still come after the key that it names.
  induction fuel generalizing scan kept with
  | zero => rfl
  | succ fuel ih =>
      rw [drain]
      cases hbuffer : scan.buffer with
      | cons record buffer =>
          rw [step_of_buffer hbuffer]
          exact @ih { scan with buffer } hgoes hcrowded hstart _
      | nil =>
          obtain ⟨key, hlast, hafter⟩ := Backend.stranded_after hsort haddressed hcrowded hstart
          obtain ⟨records, hrecords⟩ : ∃ records, (Backend.databaseWith reread candidate).readAll
              (Backend.pageRows _ store table scan.pageSize scan.start) = .ok records :=
            Backend.exists_readAll fun row hmem => hread row (Backend.mem_of_mem_pageRows hmem)
          rw [step_of_page hbuffer hgoes, hrecords]
          refine @ih (refilled _ store table scan _) ?_ hcrowded ?_ kept
          · simp [refilled, hlast]
          · simpa [refilled, hlast] using hafter

/-- A scan of a crowded table does not end if the rows can be read. -/
theorem Scan.not_ends_of_crowded
    (hread : ∀ row ∈ (store.rows table.name).entries, ∃ record, reread row.2 = .ok record)
    {pageSize : Nat} (hcrowded : (Backend.databaseWith reread candidate).Crowded store table pageSize)
    (keep : Record → Bool) (fuel : Nat) :
    ((begin pageSize).drain (.ofEngine (Backend.databaseWith reread candidate).perform table) keep fuel
      store []).1 = none := by
  obtain ⟨partition, hpartition⟩ := hcrowded
  have hlimit : max (begin pageSize).pageSize 1 ≤ max pageSize 1 :=
    Nat.max_le.2 ⟨Nat.le_refl _, Nat.le_max_right _ _⟩
  exact drain_of_crowded hsort haddressed hread rfl (Nat.le_trans hlimit hpartition)
    (fun row hrow => (List.mem_filter.1 hrow).1) keep fuel []

end Stranded

end AccountPool
