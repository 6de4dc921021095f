import AccountPool.Proofs.Pool.Requests

/-!
# Searches agree with each other

A table that files entities lists them in the order of their keys: `Files.exists_listing`. A scan with a
test, a search by the partition attribute and a search by an index each find the entities of this list that
pass a test, in the same order. So every search gives what can be read off the lists of all accounts and of
all leases: `search_eq_answer`.
-/

namespace AccountPool

open Program (Result)

/-- What a search finds if these are all accounts and all leases. -/
def Search.answer (accounts : List Account) (leases : List Lease) : (search : Search) → search.Reply
  | listAccounts => accounts
  | accountsByStatus status => accounts.filter fun account => account.status = status
  | firstReadyAccount => (accounts.filter fun account => account.status = .ready).head?
  | accountsNotReady => accounts.filter fun account => account.status ≠ .ready
  | accountsByRole roleArn => accounts.filter fun account => account.roleArn = some roleArn
  | listLeases => leases
  | leasesByAccount accountId => leases.filter fun lease => lease.accountId = accountId
  | leasesByPrincipal principalId => leases.filter fun lease => lease.principalId = principalId
  | leasesByStatus status => leases.filter fun lease => lease.status = status

/-! ## The size of a store -/

/-- A sum is at least the number that it starts from. -/
theorem le_foldl_add {α : Type} (size : α → Nat) (list : List α) (start : Nat) :
    start ≤ list.foldl (fun count element => count + size element) start := by
  induction list generalizing start with
  | nil => exact Nat.le_refl _
  | cons head rest ih => exact Nat.le_trans (Nat.le_add_right _ _) (ih _)

/-- A sum is at least each of its terms. -/
theorem size_le_foldl_add {α : Type} (size : α → Nat) {list : List α} {element : α}
    (hmem : element ∈ list) (start : Nat) :
    size element ≤ list.foldl (fun count element => count + size element) start := by
  induction list generalizing start with
  | nil => cases hmem
  | cons head rest ih =>
      obtain rfl | hrest := List.mem_cons.1 hmem
      · exact Nat.le_trans (Nat.le_add_left _ _) (le_foldl_add size rest _)
      · exact ih hrest _

/-- A table has no more rows than all tables together. -/
theorem Store.size_rows_le (store : Store) (name : String) : (store.rows name).size ≤ store.size := by
  unfold rows
  cases hfind : store.tables.find? name with
  | none => exact Nat.zero_le _
  | some rows => exact size_le_foldl_add (fun entry => entry.2.size) (SortedMap.mem_entries_iff.2 hfind) 0

/-- A scan of rows that lead back reads all of them and keeps the records that pass the test. -/
theorem Pool.run_scanWhere {α : Type} [Entity α] (pool : Pool) {backend : Backend} {store : Store}
    {table : Table} (hlead : ∀ row ∈ (store.rows table.name).entries, backend.LeadsBack table row.1)
    (keep : Record → Bool) (time : Clock) :
    (scanWhere (α := α) pool table keep).run backend.perform (fun store => Scan.steps store.size) store
        time =
      (some (lift ((backend.readAll (store.rows table.name).entries).map fun records =>
        records.filter keep) (decodeAll table)), store, time) := by
  have hfuel : (Scan.begin pool.scanPageSize).rounds backend store table ≤ Scan.steps store.size := by
    refine Nat.le_trans (Scan.rounds_begin_le _) ?_
    have hsize := store.size_rows_le table.name
    show 2 * _ + 3 ≤ 2 * _ + 3
    omega
  rw [scanWhere, Program.run, Scan.drain_eq hlead keep [] hfuel, Scan.remaining_begin]
  rfl

/-! ## The entities of a table in order -/

/-- The key that is shown for a row leads back to it if the row's key suits the table. -/
theorem Backend.Provided.leadsBack {backend : Backend} (h : backend.Provided) {table : Table} {key : Key}
    (hsort : key.sort.isSome = table.sort.isSome) : backend.LeadsBack table (backend.address key) := by
  cases h with
  | memory => rfl
  | database => exact congrArg Backend.columns (Backend.shown_columns hsort)

/-- Keys that agree on having a sort value are ordered as their rows are. -/
theorem Backend.Provided.compare_address {backend : Backend} (h : backend.Provided) {first second : Key}
    (hsort : first.sort.isSome = second.sort.isSome) :
    compare (backend.address first) (backend.address second) = compare first second := by
  cases h with
  | memory => rfl
  | database => exact Backend.compare_columns hsort

/-- A row has the partition of its key. -/
theorem Backend.Provided.partition_address {backend : Backend} (h : backend.Provided) (key : Key) :
    (backend.address key).partition = key.partition := by
  cases h <;> rfl

section Listing

variable {α ι : Type} [Entity α] [Filed α ι] {backend : Backend} {store : Store} {name : String}
  {find : ι → Option α}

/-- The records of a table with the entities that they carry, in the order of the rows. -/
structure Listing (backend : Backend) (store : Store) (name : String) (find : ι → Option α)
    (filed : List (Record × α)) : Prop where
  rows : (store.rows name).entries =
    filed.map fun pair => (backend.row α (Filed.label pair.2), pair.1)
  carries : ∀ pair ∈ filed, pair.1.Carries pair.2
  found : ∀ entity, entity ∈ filed.map Prod.snd ↔ find (Filed.label entity) = some entity

namespace Files

/-- Every row of a table that files entities carries one that is found by its label. -/
theorem exists_filed (h : Files backend store name find) {row : Key × Record}
    (hmem : row ∈ (store.rows name).entries) :
    ∃ entity : α, row.1 = backend.row α (Filed.label entity) ∧ row.2.Carries entity ∧
      find (Filed.label entity) = some entity := by
  have hrow := SortedMap.mem_entries_iff.1 hmem
  obtain ⟨label, haddress⟩ := h.addressed row.1 row.2 hrow
  have hfound := h.found label
  rw [← haddress, hrow] at hfound
  generalize hheld : find label = held at hfound
  cases hfound with
  | some hcarries =>
      obtain ⟨hcarries, rfl⟩ := hcarries
      exact ⟨_, haddress, hcarries, hheld⟩

/-- The rows of a table that files entities are listed with the entities. -/
theorem exists_listing (h : Files backend store name find) (hbackend : backend.Provided) :
    ∃ filed, Listing backend store name find filed := by
  -- Each row is paired with its entity, one after the other.
  have hpairs : ∀ rows : List (Key × Record), (∀ row ∈ rows, row ∈ (store.rows name).entries) →
      ∃ filed : List (Record × α),
        rows = filed.map (fun pair => (backend.row α (Filed.label pair.2), pair.1)) ∧
        ∀ pair ∈ filed, pair.1.Carries pair.2 ∧ find (Filed.label pair.2) = some pair.2 := by
    intro rows hrows
    induction rows with
    | nil => exact ⟨[], rfl, by simp⟩
    | cons row rows ih =>
        obtain ⟨entity, haddress, hcarries, hfind⟩ := h.exists_filed (hrows row List.mem_cons_self)
        obtain ⟨filed, hfiled, hall⟩ := ih fun other hmem => hrows other (List.mem_cons_of_mem _ hmem)
        refine ⟨(row.2, entity) :: filed, ?_, ?_⟩
        · rw [List.map_cons, ← hfiled, ← haddress]
        · intro pair hmem
          obtain rfl | hrest := List.mem_cons.1 hmem
          · exact ⟨hcarries, hfind⟩
          · exact hall pair hrest
  obtain ⟨filed, hrows, hall⟩ := hpairs _ fun _ hmem => hmem
  refine ⟨filed, hrows, fun pair hmem => (hall pair hmem).1, fun entity => ⟨?_, fun hfind => ?_⟩⟩
  · intro hmem
    obtain ⟨pair, hpair, rfl⟩ := List.mem_map.1 hmem
    exact (hall pair hpair).2
  · -- The row of the entity's label carries it, so it is the one that the row is listed with.
    have hfound := h.found (Filed.label entity)
    rw [hfind] at hfound
    generalize hcurrent : (store.rows name).find? (backend.row α (Filed.label entity)) = current
      at hfound
    cases hfound with
    | some hcarries =>
        have hmem := SortedMap.mem_entries_iff.2 hcurrent
        rw [hrows] at hmem
        obtain ⟨pair, hpair, hrow⟩ := List.mem_map.1 hmem
        have hlabel := (Backend.row_inj hbackend).1 (congrArg Prod.fst hrow)
        have hsame := (hall pair hpair).2
        rw [hlabel, hfind] at hsame
        exact List.mem_map.2 ⟨pair, hpair, (Option.some.inj hsame).symm⟩

end Files

namespace Listing

variable {filed : List (Record × α)} (h : Listing backend store name find filed)

include h

/-- The entities are listed in the order of their keys. -/
theorem increasing (hbackend : backend.Provided) :
    (filed.map Prod.snd).Pairwise fun earlier later =>
      compare (Filed.key α (Filed.label earlier)) (Filed.key α (Filed.label later)) = .lt := by
  have hsorted := (store.rows name).sorted
  rw [h.rows] at hsorted
  refine List.pairwise_map.2 ((List.pairwise_map.1 hsorted).imp ?_)
  intro earlier later hlt
  rwa [Backend.row, Backend.row, hbackend.compare_address (Filed.sort_key _ _)] at hlt

/-- Every row leads back. -/
theorem leadsBack (hbackend : backend.Provided) :
    ∀ row ∈ (store.rows (Filed.table α name).name).entries,
      backend.LeadsBack (Filed.table α name) row.1 := by
  rw [Filed.name_table, h.rows]
  intro row hmem
  obtain ⟨pair, hpair, rfl⟩ := List.mem_map.1 hmem
  exact hbackend.leadsBack (Table.keyOf_sort (Filed.keyOf_table (h.carries pair hpair) name))

/-- The records of rows that pass a test are read as the entities that pass a test that means the same. -/
theorem decodeAll_filter [LawfulEntity α] {keepRow : Key × Record → Bool} {keep : α → Bool}
    (hkeep : ∀ pair ∈ filed,
      keepRow (backend.row α (Filed.label pair.2), pair.1) = keep pair.2) (table : Table) :
    Pool.decodeAll table (((store.rows name).entries.filter keepRow).map Prod.snd) =
      .ok ((filed.map Prod.snd).filter keep) := by
  rw [h.rows]
  have hcarries := h.carries
  clear h
  induction filed with
  | nil => rfl
  | cons pair filed ih =>
      have hrest := ih (fun other hmem => hkeep other (List.mem_cons_of_mem _ hmem))
        fun other hmem => hcarries other (List.mem_cons_of_mem _ hmem)
      have hhead := hkeep pair List.mem_cons_self
      rw [Pool.decodeAll] at hrest ⊢
      simp only [List.map_cons, List.filter_cons, hhead]
      cases keep pair.2 with
      | false => simpa using hrest
      | true =>
          simp only [if_true, List.map_cons, List.mapM_cons, hrest,
            (hcarries pair List.mem_cons_self).decode table]
          rfl

/-! ## Searches -/

variable [LawfulEntity α] (hread : store.ReadsBack backend) (pool : Pool) (time : Clock)
  {keep : α → Bool}

include hread

/-- A search by an index finds the entities whose attribute is the text. -/
theorem findByIndex {field text : String}
    (hcandidate : backend.candidate (some (.string text)) (.string text) = true)
    (hindex : (Filed.table α name).isQueryable field = true)
    (hfield : field ≠ (Filed.table α name).partition) (hsearchable : backend.searchable field = true)
    (hkeep : ∀ (record : Record) (entity : α), record.Carries entity →
      record.holds field (.string text) = keep entity) :
    (Pool.findBy (α := α) pool (Filed.table α name) field text).run backend.perform
        (fun store => Scan.steps store.size) store time =
      (some (.ok ((filed.map Prod.snd).filter keep)), store, time) := by
  -- The index holds every record with the text, so the test leaves what it would leave of all rows.
  have hquery : backend.query store (Filed.table α name) field (.string text) =
      .ok (((store.rows name).entries.filter fun row =>
        row.2.holds field (.string text)).map Prod.snd) := by
    have hsame : (store.rows name).entries.filter (fun row =>
          row.2.holds field (.string text) && backend.candidate (row.2.get? field) (.string text)) =
        (store.rows name).entries.filter fun row => row.2.holds field (.string text) := by
      refine List.filter_congr fun row _ => ?_
      cases hholds : row.2.holds field (.string text) with
      | false => rfl
      | true => rw [Record.holds_string.1 hholds, hcandidate, Bool.true_and]
    rw [Backend.query_eq hread, if_pos hindex, if_neg hfield, if_pos hsearchable, Filed.name_table,
      List.filter_map, List.filter_filter]
    exact congrArg (fun rows => Except.ok (rows.map Prod.snd)) hsame
  simp only [Pool.findBy, hindex, if_true, Program.run, Backend.perform, hquery, Pool.lift]
  rw [h.decodeAll_filter (fun pair hmem => hkeep _ _ (h.carries pair hmem))]

variable (hbackend : backend.Provided)

include hbackend

/-- A scan with a test finds the entities that pass it. -/
theorem scanWhere {keepRecord : Record → Bool}
    (hkeep : ∀ (record : Record) (entity : α), record.Carries entity → keepRecord record = keep entity) :
    (Pool.scanWhere (α := α) pool (Filed.table α name) keepRecord).run backend.perform
        (fun store => Scan.steps store.size) store time =
      (some (.ok ((filed.map Prod.snd).filter keep)), store, time) := by
  have hall : backend.readAll (store.rows (Filed.table α name).name).entries =
      .ok ((store.rows name).entries.map Prod.snd) := by
    rw [Filed.name_table]
    exact Backend.readAll_eq hread fun row hmem => hmem
  have hfilter : ((store.rows name).entries.map Prod.snd).filter keepRecord =
      ((store.rows name).entries.filter fun row => keepRecord row.2).map Prod.snd :=
    List.filter_map
  rw [Pool.run_scanWhere pool (h.leadsBack hbackend), hall]
  simp only [Except.map, Pool.lift, hfilter]
  rw [h.decodeAll_filter (fun pair hmem => hkeep _ _ (h.carries pair hmem))]

/-- A search by the partition attribute finds the entities with the text in their keys. -/
theorem findByPartition (text : String)
    (hkeep : ∀ entity : α, decide ((Filed.key α (Filed.label entity)).partition = text) = keep entity) :
    (Pool.findBy (α := α) pool (Filed.table α name) (Filed.table α name).partition text).run
        backend.perform (fun store => Scan.steps store.size) store time =
      (some (.ok ((filed.map Prod.snd).filter keep)), store, time) := by
  have hindex : (Filed.table α name).isQueryable (Filed.table α name).partition = true := by
    simp [Table.isQueryable]
  have hquery : backend.query store (Filed.table α name) (Filed.table α name).partition (.string text) =
      .ok (((store.rows name).entries.filter fun row =>
        Json.Value.string? (.string text) == some row.1.partition).map Prod.snd) := by
    rw [Backend.query_eq hread, if_pos hindex, if_pos rfl, Filed.name_table]
  simp only [Pool.findBy, hindex, if_true, Program.run, Backend.perform, hquery, Pool.lift]
  rw [h.decodeAll_filter fun pair _ => ?_]
  rw [← hkeep, Backend.row, hbackend.partition_address, Bool.eq_iff_iff, beq_iff_eq,
    decide_eq_true_iff]
  exact ⟨fun hsame => (Option.some.inj hsame).symm, fun hsame => congrArg some hsame.symm⟩

end Listing

end Listing

/-! ## What the tests of the pool mean -/

namespace Record

/-- The test for a status is the test of the carried account's status. -/
theorem Carries.holds_accountStatus {record : Record} {account : Account} (h : record.Carries account)
    (status : AccountStatus) :
    record.holds Account.statusName (.string status.name) = decide (account.status = status) := by
  rw [Bool.eq_iff_iff, holds_string, (Account.carries_iff.1 h).2.1]
  simp only [Option.some.injEq, Json.Value.string.injEq, decide_eq_true_eq]
  exact Status.name_inj (α := AccountStatus)

/-- The test for a role is the test of the carried account's role. -/
theorem Carries.holds_role {record : Record} {account : Account} (h : record.Carries account)
    (roleArn : String) :
    record.holds Account.roleArnName (.string roleArn) = decide (account.roleArn = some roleArn) := by
  rw [Bool.eq_iff_iff, holds_string, (Account.carries_iff.1 h).2.2.1]
  simp

/-- The test for a principal is the test of the carried lease's principal. -/
theorem Carries.holds_principal {record : Record} {lease : Lease} (h : record.Carries lease)
    (principalId : String) :
    record.holds Lease.principalIdName (.string principalId) =
      decide (lease.principalId = principalId) := by
  rw [Bool.eq_iff_iff, holds_string, (Lease.carries_iff.1 h).2.1]
  simp

/-- The test for a status is the test of the carried lease's status. -/
theorem Carries.holds_leaseStatus {record : Record} {lease : Lease} (h : record.Carries lease)
    (status : LeaseStatus) :
    record.holds Lease.statusName (.string status.name) = decide (lease.status = status) := by
  rw [Bool.eq_iff_iff, holds_string, (Lease.carries_iff.1 h).2.2.1]
  simp only [Option.some.injEq, Json.Value.string.injEq, decide_eq_true_eq]
  exact Status.name_inj (α := LeaseStatus)

end Record

/-- The attributes that are indexed can be searched. -/
theorem Backend.Provided.searchable {backend : Backend} (h : backend.Provided) {field : String}
    (hplain : Backend.isPlainName field = true) : backend.searchable field = true := by
  cases h with
  | memory => rfl
  | database => exact hplain

/-- Every search gives what can be read off the lists of all accounts and of all leases, and leaves the store
alone. -/
theorem Search.run_eq {backend : Backend} (settings : PoolSettings) {store : Store}
    {inventory : Inventory} (hbackend : backend.Provided) (hread : store.ReadsBack backend)
    (hcandidate : ∀ text, backend.candidate (some (.string text)) (.string text) = true)
    {accounts : List (Record × Account)} {leases : List (Record × Lease)}
    (haccounts : Listing backend store settings.accountTable inventory.accounts.find? accounts)
    (hleases : Listing backend store settings.leaseTable
      (fun label => inventory.lease? label.1 label.2) leases)
    (time : Clock) (search : Search) :
    (search.program (.ofSettings settings)).run backend.perform (fun store => Scan.steps store.size)
        store time =
      (some (.ok (search.answer (accounts.map Prod.snd) (leases.map Prod.snd))), store, time) := by
  let pool := Pool.ofSettings settings
  have hstatus (status : AccountStatus) :
      (pool.accountsByStatus status).run backend.perform (fun store => Scan.steps store.size) store
        time = (some (.ok ((accounts.map Prod.snd).filter fun account => account.status = status)),
          store, time) :=
    haccounts.findByIndex hread pool time (hcandidate status.name) rfl
      (show Account.statusName ≠ Account.idName by decide) (hbackend.searchable (by decide))
      fun record account hcarries => hcarries.holds_accountStatus status
  have hall {α : Type} (entities : List α) : entities = entities.filter fun _ => true :=
    (List.filter_eq_self.2 fun _ _ => rfl).symm
  cases search with
  | listAccounts =>
      refine (haccounts.scanWhere hread pool time hbackend fun _ _ _ => rfl).trans ?_
      rw [← hall]
      rfl
  | accountsByStatus status => exact hstatus status
  | firstReadyAccount =>
      refine (Program.run_bind _ _ _ _ _ _).trans ?_
      rw [hstatus]
      rfl
  | accountsNotReady =>
      refine haccounts.scanWhere hread pool time hbackend fun record account hcarries => ?_
      rw [hcarries.holds_accountStatus .ready]
      simp
  | accountsByRole roleArn =>
      rw [Search.program, Pool.accountsByRole_eq_scan]
      exact haccounts.scanWhere hread pool time hbackend fun record account hcarries =>
        hcarries.holds_role roleArn
  | listLeases =>
      refine (hleases.scanWhere hread pool time hbackend fun _ _ _ => rfl).trans ?_
      rw [← hall]
      rfl
  | leasesByAccount accountId =>
      exact hleases.findByPartition hread pool time hbackend accountId fun _ => rfl
  | leasesByPrincipal principalId =>
      exact hleases.findByIndex hread pool time (hcandidate principalId) rfl
        (show Lease.principalIdName ≠ Lease.accountIdName by decide)
        (hbackend.searchable (by decide)) fun record lease hcarries =>
          hcarries.holds_principal principalId
  | leasesByStatus status =>
      exact hleases.findByIndex hread pool time (hcandidate status.name) rfl
        (show Lease.statusName ≠ Lease.accountIdName by decide)
        (hbackend.searchable (by decide)) fun record lease hcarries =>
          hcarries.holds_leaseStatus status

/-- In every state that operations reach there is a list of all accounts in the order of their identifiers,
and one of all leases in the order of their accounts and principals. An entity is in its list exactly if it is
got by its key, and every search gives what can be read off the lists, whatever the page size is. -/
theorem search_eq_answer {backend : Backend} (hbackend : backend.Provided)
    (hcandidate : ∀ text, backend.candidate (some (.string text)) (.string text) = true)
    {settings : PoolSettings} (hnames : settings.accountTable ≠ settings.leaseTable)
    (fuel : Store → Nat) (clock : Clock) (operations : List Operation)
    (hread : ∀ before, before <+: operations →
      (Operation.after backend fuel (.ofSettings settings) ({}, clock) before).1.ReadsBack backend) :
    let state := Operation.after backend fuel (.ofSettings settings) ({}, clock) operations
    let answer (access : Access) :=
      ((access.program (.ofSettings settings)).run backend.perform fuel state.1 state.2).1
    ∃ (accounts : List Account) (leases : List Lease),
      accounts.Pairwise (fun earlier later => compare earlier.id later.id = .lt) ∧
      leases.Pairwise (fun earlier later => (compare earlier.accountId later.accountId).then
        (compare earlier.principalId later.principalId) = .lt) ∧
      (∀ account, account ∈ accounts ↔ answer (.getAccount account.id) = some (.ok (some account))) ∧
      (∀ lease, lease ∈ leases ↔
        answer (.getLease lease.accountId lease.principalId) = some (.ok (some lease))) ∧
      ∀ (pageSize : Nat) (search : Search),
        (search.program (.ofSettings { settings with scanPageSize := pageSize })).run backend.perform
            (fun store => Scan.steps store.size) state.1 state.2 =
          (some (.ok (search.answer accounts leases)), state) := by
  intro state answer
  have hempty : Represents backend settings {} (TypedPool.inventory ⟨{}, clock⟩) := .empty _ _
  obtain ⟨hrepresents, -⟩ := hempty.after hbackend hnames fuel operations hread
  have hstate : state.1.ReadsBack backend := hread operations List.prefix_rfl
  let inventory := (TypedPool.after ⟨{}, clock⟩ operations).inventory
  have hanswer (access : Access) :
      answer access = some (inventory.perform state.2.now access).1 := by
    obtain ⟨next, hrun, -⟩ := hrepresents.run_access hbackend hnames hstate fuel state.2 access
    exact congrArg Prod.fst hrun
  obtain ⟨accounts, haccounts⟩ := hrepresents.accounts.exists_listing hbackend
  obtain ⟨leases, hleases⟩ := hrepresents.leases.exists_listing hbackend
  refine ⟨accounts.map Prod.snd, leases.map Prod.snd, ?_, ?_, ?_, ?_, ?_⟩
  · refine (haccounts.increasing hbackend).imp ?_
    intro earlier later hlt
    -- Neither key has a sort value, so the identifiers decide.
    have hsame : compare (Pool.accountKey earlier.id) (Pool.accountKey later.id) =
        compare earlier.id later.id := by
      simp [Key.compare_def, Pool.accountKey]
    exact hsame ▸ hlt
  · exact hleases.increasing hbackend
  · intro account
    rw [haccounts.found, hanswer, Option.some.injEq, Inventory.perform, Except.ok.injEq]
    rfl
  · intro lease
    rw [hleases.found, hanswer, Option.some.injEq, Inventory.perform, Except.ok.injEq]
    rfl
  · intro pageSize search
    exact Search.run_eq { settings with scanPageSize := pageSize } hbackend hstate hcandidate haccounts
      hleases state.2 search

/-- Two accounts that were put in a database in the wrong order are listed in order, page by page, and the
one that is leased is found by its role. -/
theorem search_eq_answer_two :
    let backend := Backend.databaseWith .ok Backend.columnMatches
    let operations : List Operation :=
      [.one (.putAccount { id := "2", status := .ready }),
        .one (.putAccount { id := "1", status := .leased, roleArn := some "r" })]
    let state := Operation.after backend Store.size (.ofSettings {}) ({}, ⟨7, 1⟩) operations
    ∃ accounts : List Account,
      accounts.map Account.id = ["1", "2"] ∧
      ((Search.accountsByRole "r").program (.ofSettings { scanPageSize := 1 })).run backend.perform
          (fun store => Scan.steps store.size) state.1 state.2 =
        (some (.ok (accounts.filter fun account => account.roleArn = some "r")), state) := by
  intro backend operations state
  have hcandidate : ∀ text, backend.candidate (some (.string text)) (.string text) = true :=
    fun text => columnMatches_string (Json.Value.same_string.2 rfl)
  have hread (store : Store) : store.ReadsBack backend := fun _ _ _ _ => rfl
  have hnames : ({} : PoolSettings).accountTable ≠ ({} : PoolSettings).leaseTable := by decide
  obtain ⟨accounts, leases, -, -, -, -, hsearch⟩ := search_eq_answer
    (.database .ok Backend.columnMatches) hcandidate hnames Store.size ⟨7, 1⟩ operations fun _ _ => hread _
  refine ⟨accounts, ?_, hsearch 1 (.accountsByRole "r")⟩
  have hids : (((Search.listAccounts.program (.ofSettings { scanPageSize := 1 })).run backend.perform
      (fun store => Scan.steps store.size) state.1 state.2).1.map fun result =>
        result.toOption.map (List.map Account.id)) = some (some ["1", "2"]) := by
    decide +kernel
  rw [hsearch 1 .listAccounts] at hids
  exact Option.some.inj (Option.some.inj hids)

end AccountPool
