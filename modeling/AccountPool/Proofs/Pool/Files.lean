import AccountPool.Proofs.Pool.Edit
import AccountPool.Proofs.Store.Rows

/-!
# Tables that file entities

A table files entities if under every label there is a record that carries the entity with this label, or
nothing if there is no such entity, and no other row is used. `Files.write` and `Files.remove` keep this
up, and the lemmas on `Backend.perform` say what a store answers about entities. Both backends will do:
`Backend.Provided` says which they are.
-/

namespace AccountPool

/-- The backends that a pool is used with: a memory, or a database with any reader of texts and any
index search. -/
inductive Backend.Provided : Backend → Prop where
  | memory : Provided .memory
  | database (reread : Record → Except Json.Fault Record)
      (candidate : Option Json.Value → Json.Value → Bool) : Provided (.databaseWith reread candidate)

/-- Keys that agree on having a sort value address rows of their own. -/
theorem Backend.Provided.address_injective {backend : Backend} (h : backend.Provided)
    {first second : Key} (hsort : first.sort.isSome = second.sort.isSome)
    (hsame : backend.address first = backend.address second) : first = second := by
  cases h with
  | memory => exact hsame
  | database => exact Backend.columns_injective hsort hsame

/-- Entities that are filed in tables, one under each label. -/
class Filed (α : Type) (ι : outParam Type) [Entity α] where
  /-- The table with a given name. -/
  table : String → Table
  name_table : ∀ name, (table name).name = name
  /-- The key that a label stands for. -/
  key : ι → Key
  sort_key : ∀ first second, (key first).sort.isSome = (key second).sort.isSome
  key_injective : ∀ first second, key first = key second → first = second
  /-- The label that an entity bears. -/
  label : α → ι
  keyOf_table : ∀ {record : Record} {entity : α}, record.Carries entity → ∀ name,
    (table name).keyOf record = .ok (key (label entity))

attribute [simp] Filed.name_table

instance : Filed Account String where
  table := Pool.accountTable
  name_table _ := rfl
  key := Pool.accountKey
  sort_key _ _ := rfl
  key_injective _ _ := congrArg Key.partition
  label := Account.id
  keyOf_table := Pool.keyOf_account

instance : Filed Lease (String × String) where
  table := Pool.leaseTable
  name_table _ := rfl
  key label := Pool.leaseKey label.1 label.2
  sort_key _ _ := rfl
  key_injective _ _ hsame :=
    Prod.ext (congrArg Key.partition hsame) (Option.some.inj (congrArg Key.sort hsame))
  label lease := (lease.accountId, lease.principalId)
  keyOf_table := Pool.keyOf_lease

section Files

variable {α ι : Type} [Entity α] [Filed α ι]

/-- The row that a label addresses. -/
def Backend.row (α : Type) {ι : Type} [Entity α] [Filed α ι] (backend : Backend) (label : ι) : Key :=
  backend.address (Filed.key α label)

/-- Labels address rows of their own. -/
theorem Backend.row_inj {backend : Backend} (hbackend : backend.Provided) {first second : ι} :
    backend.row α first = backend.row α second ↔ first = second := by
  refine ⟨fun hsame => ?_, fun hsame => hsame ▸ rfl⟩
  exact Filed.key_injective first second
    (hbackend.address_injective (Filed.sort_key first second) hsame)

/-- The record in a row carries the entity that bears a label, or both are missing. -/
def Found (label : ι) (current : Option Record) (held : Option α) : Prop :=
  Option.Rel (fun record entity => record.Carries entity ∧ Filed.label entity = label) current held

/-- The rows of a table carry the entities that are found by their labels. -/
structure Files (backend : Backend) (store : Store) (name : String) (find : ι → Option α) : Prop where
  found : ∀ label, Found label ((store.rows name).find? (backend.row α label)) (find label)
  addressed : ∀ row record, (store.rows name).find? row = some record →
    ∃ label, row = backend.row α label

variable {backend : Backend} {store : Store} {name : String} {find : ι → Option α}

/-- What is found in a row is read as the entity that it carries. -/
theorem Found.decode? [LawfulEntity α] {label : ι} {current : Option Record} {held : Option α}
    (h : Found label current held) (table : Table) : Pool.decode? table current = .ok held := by
  cases h with
  | none => rfl
  | some hcarries =>
      rw [Pool.decode?, hcarries.1.decode]
      rfl

namespace Files

/-- A table without rows files nothing. -/
theorem empty (backend : Backend) (name : String) : Files (α := α) backend {} name fun _ => none where
  found _ := .none
  addressed row record hfind := by
    rw [Store.rows_empty] at hfind
    cases hfind

/-- What a table files depends on its rows only. -/
theorem congr (h : Files backend store name find) {next : Store} {find' : ι → Option α}
    (hrows : next.rows name = store.rows name) (hfind : ∀ label, find' label = find label) :
    Files backend next name find' where
  found label := by
    rw [hrows, hfind]
    exact h.found label
  addressed := by
    rw [hrows]
    exact h.addressed

/-- What is found under a label bears this label. -/
theorem label_eq (h : Files backend store name find) {label : ι} {entity : α}
    (hentity : find label = some entity) : Filed.label entity = label := by
  have hfound := h.found label
  rw [hentity] at hfound
  generalize (store.rows name).find? (backend.row α label) = current at hfound
  cases hfound with
  | some hcarries => exact hcarries.2

/-- Every row of the table carries an entity. -/
theorem exists_carries (h : Files backend store name find) {row : Key} {record : Record}
    (hrow : (store.rows name).find? row = some record) : ∃ entity : α, record.Carries entity := by
  obtain ⟨label, rfl⟩ := h.addressed row record hrow
  have hfound := h.found label
  rw [hrow] at hfound
  generalize find label = held at hfound
  cases hfound with
  | some hcarries => exact ⟨_, hcarries.1⟩

/-! ## Writes -/

section Writes

variable [DecidableEq ι]

/-- After a record was written under the label of the entity that it carries, the table files this
entity. -/
theorem write (h : Files backend store name find) (hbackend : backend.Provided) {record : Record}
    {entity : α} (hcarries : record.Carries entity) :
    Files backend
      (Backend.write store (Filed.table α name) (backend.row α (Filed.label entity)) record) name
      fun other => if other = Filed.label entity then some entity else find other where
  found label := by
    rw [Backend.find?_write, Filed.name_table]
    simp only [true_and, Backend.row_inj hbackend]
    split
    · next hlabel => exact .some ⟨hcarries, hlabel.symm⟩
    · exact h.found label
  addressed row found hfind := by
    rw [Backend.find?_write, Filed.name_table] at hfind
    split at hfind
    · next hrow => exact ⟨_, hrow.2⟩
    · exact h.addressed row found hfind

/-- After a row was removed the table files nothing under its label. -/
theorem remove (h : Files backend store name find) (hbackend : backend.Provided) (label : ι) :
    Files backend (Backend.remove store (Filed.table α name) (backend.row α label)) name
      fun other => if other = label then none else find other where
  found other := by
    rw [Backend.find?_remove, Filed.name_table]
    simp only [true_and, Backend.row_inj hbackend]
    split
    · exact .none
    · exact h.found other
  addressed row found hfind := by
    rw [Backend.find?_remove, Filed.name_table] at hfind
    split at hfind
    · cases hfind
    · exact h.addressed row found hfind

end Writes

/-! ## Answers -/

variable (h : Files backend store name find) (hread : store.ReadsBack backend)

include h hread

/-- A look-up gives the record of the entity. -/
theorem perform_get (label : ι) :
    ∃ current, Found label current (find label) ∧
      backend.perform store (.get (Filed.table α name) (Filed.key α label)) =
        (.ok current, store) := by
  refine ⟨_, h.found label, ?_⟩
  show (backend.read store (Filed.table α name) (backend.row α label), store) = _
  rw [Backend.read_eq hread, Filed.name_table]

/-- A put files the record of an entity and gives the record of the one that it replaces. -/
theorem perform_put [LawfulEntity α] (entity : α) :
    ∃ current, Found (Filed.label entity) current (find (Filed.label entity)) ∧
      backend.perform store (.put (Filed.table α name) (.ofEntity entity) none) =
        (.ok current, Backend.write store (Filed.table α name)
          (backend.row α (Filed.label entity)) (.ofEntity entity)) := by
  refine ⟨_, h.found _, ?_⟩
  have hkey := Filed.keyOf_table (Record.carries_ofEntity entity) name
  rw [Backend.perform_put hread hkey rfl none, Filed.name_table]
  rfl

/-- An edit that may be made is made, and gives the record of the changed entity. -/
theorem perform_update (edit : Edit α) {label : ι} {entity : α} (hentity : find label = some entity)
    (hallows : edit.allows entity = true) :
    Filed.label entity = label ∧ ∃ record : Record, record.Carries (edit.change entity) ∧
      backend.perform store (.update (Filed.table α name) (Filed.key α label) edit.assignments
          (some edit.guard)) =
        (.ok record, Backend.write store (Filed.table α name) (backend.row α label) record) := by
  have hfound := h.found label
  rw [hentity] at hfound
  generalize hcurrent : (store.rows name).find? (backend.row α label) = current at hfound
  cases hfound with
  | some hcarries =>
      rw [← Filed.name_table (α := α) name] at hcurrent
      refine ⟨hcarries.2, _, edit.carries_assign hcarries.1, ?_⟩
      rw [Backend.perform_update hread hcurrent]
      simp only [Condition.allows, edit.evaluate_some hcarries.1, hallows, if_true]
      rfl

/-- An edit that may not be made is refused. -/
theorem perform_update_refused (edit : Edit α) (label : ι)
    (hrefused : ∀ entity, find label = some entity → edit.allows entity = false) :
    backend.perform store (.update (Filed.table α name) (Filed.key α label) edit.assignments
        (some edit.guard)) =
      (.error (.conditionFailed name), store) := by
  have hfound := h.found label
  generalize hcurrent : (store.rows name).find? (backend.row α label) = current at hfound
  generalize hheld : find label = held at hfound
  rw [← Filed.name_table (α := α) name] at hcurrent
  rw [Backend.perform_update hread hcurrent]
  cases hfound with
  | none => simp [Condition.allows, edit.evaluate_none]
  | some hcarries =>
      simp [Condition.allows, edit.evaluate_some hcarries.1, hrefused _ hheld]

/-- A delete that is not guarded removes the record of the entity and gives it. -/
theorem perform_delete (label : ι) :
    ∃ current, Found label current (find label) ∧
      backend.perform store (.delete (Filed.table α name) (Filed.key α label) none) =
        (.ok current, Backend.remove store (Filed.table α name) (backend.row α label)) := by
  refine ⟨_, h.found label, ?_⟩
  rw [Backend.perform_delete hread rfl, Filed.name_table]
  rfl

end Files

end Files

end AccountPool
