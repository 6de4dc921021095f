import AccountPool.Proofs.Store.Pages
import AccountPool.Proofs.Store.Target
import AccountPool.Proofs.Text.Utf8
import Mathlib.Order.Defs.Unbundled

/-!
# The order of keys and of rows

A memory orders its rows by their keys, and a database by the bytes of their two texts. Bytes order texts as
characters do, so both orders are one as long as keys agree on having a sort value. `keys_in_byte_order`
says this, that the order is strict and total, where keys without a sort value stand in it, and that the
pages of both stores are cut from the rows in this order.
-/

namespace AccountPool

/-! ## Keys -/

namespace Key

/-- Keys are compared by the bytes of their partition values, then by those of their sort values; a key
without a sort value comes first. -/
def compareBytes (first second : Key) : Ordering :=
  (compare (Text.bytes first.partition) (Text.bytes second.partition)).then
    (compare (first.sort.map Text.bytes) (second.sort.map Text.bytes))

/-- The rows of a database are compared by the bytes of their two texts; a missing sort value is an empty
one. -/
def compareColumns (first second : Key) : Ordering :=
  (compare (Text.bytes first.partition) (Text.bytes second.partition)).then
    (compare (Text.bytes (first.sort.getD "")) (Text.bytes (second.sort.getD "")))

/-- Texts are compared by their bytes. -/
theorem compare_text (first second : String) :
    compare (Text.bytes first) (Text.bytes second) = compare first second :=
  (Text.compare_bytes first second).trans (Text.compare_codePoints first second)

/-- Keys are compared by their bytes. -/
theorem compareBytes_eq (first second : Key) : first.compareBytes second = compare first second := by
  have hsort : compare (first.sort.map Text.bytes) (second.sort.map Text.bytes) =
      compare first.sort second.sort := by
    cases first.sort with
    | none => cases second.sort <;> rfl
    | some sort =>
        cases second.sort with
        | none => rfl
        | some sort' => exact compare_text sort sort'
  rw [compareBytes, compare_text, hsort, compare_def]

/-- The rows of a database are compared as the columns of keys. -/
theorem compareColumns_eq (first second : Key) :
    first.compareColumns second = compare (Backend.columns first) (Backend.columns second) := by
  rw [compareColumns, compare_text, compare_text, compare_def]
  rfl

/-- A key comes before another one by its partition value, or by its sort value in one partition. -/
theorem compare_eq_lt {first second : Key} :
    compare first second = .lt ↔ compare first.partition second.partition = .lt ∨
      first.partition = second.partition ∧ compare first.sort second.sort = .lt := by
  rw [compare_def, Ordering.then_eq_lt, Std.LawfulEqOrd.compare_eq_iff_eq]

/-- What stands between two keys of one partition is a key of this partition. -/
theorem partition_eq_of_between {lower key upper : Key} (hsame : lower.partition = upper.partition)
    (hlower : compare lower key = .lt) (hupper : compare key upper = .lt) :
    key.partition = lower.partition := by
  rcases compare_eq_lt.1 hlower with hlt | ⟨heq, -⟩
  · rcases compare_eq_lt.1 hupper with hlt' | ⟨heq', -⟩
    · have hself : compare lower.partition lower.partition = .lt := by
        rw [← hsame] at hlt'
        exact Std.TransCmp.lt_trans hlt hlt'
      simp at hself
    · rw [heq', hsame]
  · exact heq.symm

/-- Keys are strictly and totally ordered. -/
theorem isStrictTotalOrder : IsStrictTotalOrder Key fun first second => compare first second = .lt where
  irrefl key := by
    intro hlt
    simp at hlt
  trans _ _ _ := Std.TransCmp.lt_trans
  trichotomous first second hnot hnot' := by
    cases horder : compare first second with
    | lt => exact absurd horder hnot
    | eq => exact Std.LawfulEqOrd.eq_of_compare horder
    | gt => exact absurd (Std.OrientedCmp.lt_of_gt horder) hnot'

end Key

/-! ## Rows -/

/-- Rows stay addressed by keys throughout a run. -/
theorem Store.AddressedBy.run {backend : Backend} {store : Store}
    (h : store.AddressedBy backend fun _ _ => True) (requests : List Request) :
    (backend.perform.after store requests).AddressedBy backend fun _ _ => True :=
  backend.perform.after_induction (fun store => store.AddressedBy backend fun _ _ => True)
    (fun _ _ _ hstore => hstore.perform fun _ _ => trivial) h

namespace Backend

/-- The rows of every table stand in an order, and a page shows the first ones of those that come after a
key in this order. -/
def PagesBy (backend : Backend) (order : Key → Key → Ordering) (store : Store) : Prop :=
  ∀ (table : Table) (limit : Nat) (start : Option Key),
    let rows := ((store.rows table.name).entries.filter fun row =>
      start.all fun key => order key row.1 == .lt).take (max limit 1)
    (store.rows table.name).entries.Pairwise (fun earlier later => order earlier.1 later.1 = .lt) ∧
      backend.page store table limit start = (backend.readAll rows).map fun records =>
        ⟨records, if rows.length = max limit 1 then
          rows.getLast?.map fun row => backend.shown table row.1 else none⟩

/-- Pages are cut from the rows in an order that is the order of keys among rows and after a row. -/
theorem pagesBy_of_compare {backend : Backend} {order : Key → Key → Ordering} {store : Store}
    (horder : ∀ name, ∀ row ∈ (store.rows name).entries, ∀ key,
      order key row.1 = compare (backend.address key) row.1)
    (haddress : ∀ name, ∀ row ∈ (store.rows name).entries, backend.address row.1 = row.1) :
    backend.PagesBy order store := by
  intro table limit start rows
  refine ⟨?_, ?_⟩
  · refine (store.rows table.name).sorted.imp_of_mem ?_
    intro earlier later hearlier hlater hlt
    rw [horder table.name later hlater, haddress table.name earlier hearlier]
    exact hlt
  · have hrows : rows = backend.pageRows store table limit start := by
      show List.take _ _ = List.take _ _
      congr 1
      cases start with
      | none => exact List.filter_eq_self.2 fun row _ => rfl
      | some start =>
          refine List.filter_congr fun row hmem => ?_
          show (order start row.1 == .lt) = _
          rw [horder table.name row hmem]
    rw [page_eq_map, hrows]
    rfl

/-- A memory has its rows in the order of the bytes of their keys. -/
theorem pagesBy_memory (store : Store) : memory.PagesBy Key.compareBytes store :=
  pagesBy_of_compare (fun _ row _ key => Key.compareBytes_eq key row.1) fun _ _ _ => rfl

/-- A database has its rows in the order of the bytes of their texts. -/
theorem pagesBy_databaseWith {reread : Record → Except Json.Fault Record}
    {candidate : Option Json.Value → Json.Value → Bool} {store : Store}
    (h : store.AddressedBy (databaseWith reread candidate) fun _ _ => True) :
    (databaseWith reread candidate).PagesBy Key.compareColumns store := by
  have hrow (name : String) (row : Key × Record) (hmem : row ∈ (store.rows name).entries) :
      columns row.1 = row.1 := by
    obtain ⟨key, -, hkey⟩ := h name row.1 row.2 (SortedMap.mem_entries_iff.1 hmem)
    rw [← hkey]
    rfl
  refine pagesBy_of_compare (fun name row hmem key => ?_) hrow
  rw [Key.compareColumns_eq, hrow name row hmem]
  rfl

end Backend

/-- Texts are ordered by bytes as by code points, and keys by the bytes of their texts. Keys that agree on
having a sort value are ordered as the rows of a database are. The order is strict and total; in a
partition the key without a sort value comes first, and no key of another partition stands between two of
its keys. The pages of a memory and of a database show rows in their orders, whatever was asked before. -/
theorem keys_in_byte_order :
    (∀ first second : String, compare (Text.bytes first) (Text.bytes second) =
      compare (Text.codePoints first) (Text.codePoints second)) ∧
    (∀ first second : Key, compare first second = first.compareBytes second) ∧
    (∀ first second : Key, first.sort.isSome = second.sort.isSome →
      compare first second = first.compareColumns second) ∧
    IsStrictTotalOrder Key (fun first second => compare first second = .lt) ∧
    (∀ partition sort : String, compare (⟨partition, none⟩ : Key) ⟨partition, some sort⟩ = .lt) ∧
    (∀ lower key upper : Key, lower.partition = upper.partition → compare lower key = .lt →
      compare key upper = .lt → key.partition = lower.partition) ∧
    (∀ requests : List Request,
      Backend.memory.PagesBy Key.compareBytes (Backend.memory.perform.after {} requests)) ∧
    (∀ reread candidate, ∀ requests : List Request,
      (Backend.databaseWith reread candidate).PagesBy Key.compareColumns
        ((Backend.databaseWith reread candidate).perform.after {} requests)) := by
  refine ⟨Text.compare_bytes, fun first second => (first.compareBytes_eq second).symm, ?_,
    Key.isStrictTotalOrder, ?_, ?_, ?_, ?_⟩
  · intro first second hsort
    rw [Key.compareColumns_eq, Backend.compare_columns hsort]
  · intro partition sort
    exact Key.compare_eq_lt.2 (.inr ⟨rfl, rfl⟩)
  · intro lower key upper hsame hlower hupper
    exact Key.partition_eq_of_between hsame hlower hupper
  · intro requests
    exact Backend.pagesBy_memory _
  · intro reread candidate requests
    exact Backend.pagesBy_databaseWith ((Store.addressedBy_empty _ _).run requests)

/-- A character beyond the first 65536 has four bytes and comes after one of three bytes, so the row of its
key does too; between two keys of a partition stands a key of this partition. -/
theorem keys_in_byte_order_astral :
    let first : Key := ⟨"\uffff", some ""⟩
    let second : Key := ⟨"😀", some "a"⟩
    let third : Key := ⟨"😀", some "a\u0000"⟩
    let fourth : Key := ⟨"😀", some "b"⟩
    first.sort.isSome = second.sort.isSome ∧ first.compareColumns second = .lt ∧
      second.partition = fourth.partition ∧ compare second third = .lt ∧ compare third fourth = .lt ∧
      third.partition = second.partition := by
  intro first second third fourth
  obtain ⟨-, -, hcolumns, -, -, hbetween, -, -⟩ := keys_in_byte_order
  have hlt : compare first second = .lt := by decide
  have hlower : compare second third = .lt := by decide
  have hupper : compare third fourth = .lt := by decide
  refine ⟨rfl, ?_, rfl, hlower, hupper, hbetween second third fourth rfl hlower hupper⟩
  rw [← hcolumns first second rfl]
  exact hlt

end AccountPool
