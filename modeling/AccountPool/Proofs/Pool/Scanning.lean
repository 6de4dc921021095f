import AccountPool.Proofs.Pool.Requests
import AccountPool.Proofs.Store.Ending

/-!
# Whether searches by scan end

Four searches scan a table. They end in memory, for leases, and whenever accounts and leases have tables of
their own, and then no row is fetched twice. If a database keeps both under one name, leases are stranded
among the accounts: `scanned_search_ends` says when the searches for accounts end then.
-/

namespace AccountPool

open Program (Result)

namespace Search

/-- The table that a search scans, if it scans one. -/
def scanned? (pool : Pool) : Search → Option Table
  | listAccounts | accountsNotReady | accountsByRole _ => some pool.accounts
  | listLeases => some pool.leases
  | accountsByStatus _ | firstReadyAccount | leasesByAccount _ | leasesByPrincipal _
  | leasesByStatus _ => none

variable {settings : PoolSettings} {search : Search} {table : Table}

/-- A search scans the table of accounts or that of leases. -/
theorem scanned?_eq_some (hscanned : search.scanned? (.ofSettings settings) = some table) :
    table = (Pool.ofSettings settings).accounts ∨ table = (Pool.ofSettings settings).leases := by
  cases search with
  | listAccounts | accountsNotReady | accountsByRole =>
      cases hscanned
      exact .inl rfl
  | listLeases =>
      cases hscanned
      exact .inr rfl
  | _ => cases hscanned

/-- A search that scans a table has its result after one scan. -/
theorem program_eq_scan (hscanned : search.scanned? (.ofSettings settings) = some table) :
    ∃ (keep : Record → Bool) (settle : Except StoreError (List Record) → Result search.Reply),
      search.program (.ofSettings settings) =
        .scan table (Pool.ofSettings settings).scanPageSize keep fun answer =>
          .done (settle answer) := by
  cases search with
  | accountsByRole roleArn =>
      cases hscanned
      exact ⟨_, _, Pool.accountsByRole_eq_scan settings roleArn⟩
  | listAccounts | accountsNotReady | listLeases =>
      cases hscanned
      exact ⟨_, _, rfl⟩
  | _ => cases hscanned

/-- The result of a search by a scan is that of the scan. -/
theorem run_scanned (backend : Backend)
    (hscanned : search.scanned? (.ofSettings settings) = some table) :
    ∃ (keep : Record → Bool) (settle : Except StoreError (List Record) → Result search.Reply),
      ∀ (fuel : Store → Nat) (store : Store) (time : Clock),
        ((search.program (.ofSettings settings)).run backend.perform fuel store time).1 =
          ((Scan.begin (Pool.ofSettings settings).scanPageSize).drain
            (.ofEngine backend.perform table) keep (fuel store) store []).1.map settle := by
  obtain ⟨keep, settle, hprogram⟩ := program_eq_scan hscanned
  refine ⟨keep, settle, fun fuel store time => ?_⟩
  rw [hprogram, Program.run]
  split <;> next hdrain =>
    rw [hdrain]
    rfl

end Search

/-- Rows with keys of accounts and leases lead back in memory, among leases, and if accounts and leases have
tables of their own. -/
theorem Store.AddressedBy.leadsBack {backend : Backend} (hbackend : backend.Provided)
    {settings : PoolSettings} {store : Store}
    (h : store.AddressedBy backend (Pool.ofSettings settings).Suits) {table : Table}
    (htable : table = (Pool.ofSettings settings).accounts ∨
      table = (Pool.ofSettings settings).leases)
    (happart : backend = .memory ∨ settings.accountTable ≠ settings.leaseTable ∨
      table = (Pool.ofSettings settings).leases) :
    ∀ row ∈ (store.rows table.name).entries, backend.LeadsBack table row.1 := by
  intro row hmem
  obtain ⟨key, hsuits, hkey⟩ := h table.name row.1 row.2 (SortedMap.mem_entries_iff.1 hmem)
  by_cases hleases : table = (Pool.ofSettings settings).leases
  · cases hbackend with
    | memory => exact Backend.leadsBack_memory table row.1
    | database =>
        refine Backend.leadsBack_databaseWith.2 (.inl ⟨by rw [hleases]; rfl, ?_⟩)
        rw [← hkey]
        rfl
  · obtain rfl := htable.resolve_right hleases
    obtain rfl | hnames := happart.imp_right fun h => h.resolve_right hleases
    · exact Backend.leadsBack_memory _ row.1
    · cases hbackend with
      | memory => exact Backend.leadsBack_memory _ row.1
      | database =>
          obtain ⟨-, hsort⟩ | ⟨hname, -⟩ := hsuits
          · refine Backend.leadsBack_databaseWith.2 (.inr ?_)
            rw [← hkey]
            show some (key.sort.getD "") = some ""
            rw [hsort]
            rfl
          · exact absurd hname hnames

/-- A table whose rows all lead back is not crowded. -/
theorem Backend.not_crowded_of_leadsBack {backend : Backend} {store : Store} {table : Table}
    (hlead : ∀ row ∈ (store.rows table.name).entries, backend.LeadsBack table row.1) (limit : Nat) :
    ¬ backend.Crowded store table limit := by
  rintro ⟨partition, hmany⟩
  have hnone : backend.stranded store table partition = [] := by
    refine List.filter_eq_nil_iff.2 fun row hmem hstranded => ?_
    exact (of_decide_eq_true hstranded).2 (hlead row hmem)
  rw [hnone, List.length_nil] at hmany
  omega

/-- In every state that operations reach, a search by scan comes to a result or an error if no partition of
its table has as many stranded rows as a page has, and to none if one has and its rows can be read. In
memory, for leases, and if the tables have names of their own, no row is stranded; then the steps are at most
two for each row and three more, and no row is fetched twice. -/
theorem scanned_search_ends {backend : Backend} (hbackend : backend.Provided) (settings : PoolSettings)
    (allowed : Store → Nat) (clock : Clock) (operations : List Operation) (search : Search) {table : Table}
    (hscanned : search.scanned? (.ofSettings settings) = some table) :
    let pool := Pool.ofSettings settings
    let store := (Operation.after backend allowed pool ({}, clock) operations).1
    (¬ backend.Crowded store table pool.scanPageSize →
      ∃ bound, ∀ (fuel : Store → Nat) (time : Clock), bound ≤ fuel store →
        ((search.program pool).run backend.perform fuel store time).1.isSome) ∧
    (backend.Crowded store table pool.scanPageSize →
      (∀ row ∈ (store.rows table.name).entries, ∃ record, backend.reread row.2 = .ok record) →
      ∀ (fuel : Store → Nat) (time : Clock),
        ((search.program pool).run backend.perform fuel store time).1 = none) ∧
    (backend = .memory ∨ settings.accountTable ≠ settings.leaseTable ∨ table = pool.leases →
      ¬ backend.Crowded store table pool.scanPageSize ∧
      (∀ (fuel : Store → Nat) (time : Clock), Scan.steps (store.rows table.name).size ≤ fuel store →
        ((search.program pool).run backend.perform fuel store time).1.isSome) ∧
      ∀ count, (((Scan.begin pool.scanPageSize).fetchedBy backend store table count).map
        Prod.fst).Nodup) := by
  intro pool store
  have htable := Search.scanned?_eq_some hscanned
  obtain ⟨keep, settle, hrun⟩ := Search.run_scanned backend hscanned
  have haddressed := Operation.addressedBy_after backend settings allowed clock operations
  have hlead := haddressed.leadsBack hbackend htable
  by_cases happart : backend = .memory ∨ settings.accountTable ≠ settings.leaseTable ∨
      table = pool.leases
  · have hrows := hlead happart
    have hfree := Backend.not_crowded_of_leadsBack hrows pool.scanPageSize
    have hends : ∀ (fuel : Store → Nat) (time : Clock),
        Scan.steps (store.rows table.name).size ≤ fuel store →
        ((search.program pool).run backend.perform fuel store time).1.isSome := by
      intro fuel time hfuel
      rw [hrun, Scan.drain_eq hrows keep [] (Nat.le_trans (Scan.rounds_begin_le _) hfuel)]
      rfl
    refine ⟨fun _ => ⟨_, hends⟩, fun hcrowded => absurd hcrowded hfree, fun _ => ⟨hfree, hends, ?_⟩⟩
    intro count
    have hfetched := Scan.fetchedBy_prefix hrows count (.begin pool.scanPageSize)
    exact (nodup_of_increasing (store.rows table.name).sorted).sublist (hfetched.map _).sublist
  · -- What is left are accounts that a database keeps under the same name as the leases.
    obtain ⟨hmemory, hrest⟩ := not_or.1 happart
    have hsort : table.sort = none := by
      rw [htable.resolve_right (not_or.1 hrest).2]
      rfl
    have hany := haddressed.mono (fun _ _ _ => trivial : ∀ name key, pool.Suits name key → True)
    cases hbackend with
    | memory => exact absurd rfl hmemory
    | database reread candidate =>
        refine ⟨fun hfree => ?_, fun hcrowded hread fuel time => ?_, fun h => absurd h happart⟩
        · have hsize : (Scan.begin pool.scanPageSize).pageSize = pool.scanPageSize :=
            Nat.max_eq_left (Nat.le_max_right _ _)
          obtain ⟨bound, hbound⟩ := Scan.ends_of_not_crowded hsort (hsize.symm ▸ hfree)
          refine ⟨bound, fun fuel time hfuel => ?_⟩
          rw [hrun, Option.isSome_map]
          exact hbound keep (fuel store) [] hfuel
        · rw [hrun, Scan.not_ends_of_crowded hsort hany hread hcrowded]
          rfl

/-- Accounts are listed when an account and a lease are stored in tables of their own. -/
theorem scanned_search_ends_listed :
    let settings : PoolSettings := { scanPageSize := 1 }
    let operations : List Operation :=
      [.one (.putAccount { id := "1", status := .ready }),
        .one (.putLease { accountId := "1", principalId := "p", status := .active })]
    let state := Operation.after Backend.database Store.size (.ofSettings settings) ({}, ⟨0, 0⟩)
      operations
    ((Search.listAccounts.program (.ofSettings settings)).run Backend.database.perform
      (fun _ => Scan.steps 1) state.1 state.2).1.isSome := by
  intro settings operations state
  have happart : Backend.database = .memory ∨ settings.accountTable ≠ settings.leaseTable ∨
      (Pool.ofSettings settings).accounts = (Pool.ofSettings settings).leases :=
    .inr (.inl (by decide))
  have hprovided : Backend.database.Provided := .database Backend.ofText Backend.columnMatches
  have hall := scanned_search_ends hprovided settings Store.size ⟨0, 0⟩ operations .listAccounts rfl
  exact (hall.2.2 happart).2.1 (fun _ => Scan.steps 1) state.2 (by decide +kernel)

/-- Accounts are not listed when a lease is stored under the same name: a page of one row that shows the
lease is followed by the same page again. -/
theorem listAccounts_endless :
    let settings : PoolSettings := { accountTable := "Pool", leaseTable := "Pool", scanPageSize := 1 }
    let pool := Pool.ofSettings settings
    let state := Operation.after Backend.database Store.size pool ({}, ⟨0, 0⟩)
      [.one (.putLease { accountId := "1", principalId := "p", status := .active })]
    (∀ (fuel : Store → Nat) (time : Clock),
      ((Search.listAccounts.program pool).run Backend.database.perform fuel state.1 time).1 = none) ∧
    ((Scan.begin pool.scanPageSize).fetchedBy .database state.1 pool.accounts 3).map Prod.fst =
      [⟨"1", some "p"⟩, ⟨"1", some "p"⟩] := by
  intro settings pool state
  have hread : ∀ row ∈ (state.1.rows pool.accounts.name).entries,
      ∃ record, Backend.ofText row.2 = .ok record := by
    have hall : (state.1.rows pool.accounts.name).entries.all
        (fun row => (Backend.ofText row.2).toOption.isSome) = true := by
      decide +kernel
    intro row hmem
    cases hrow : Backend.ofText row.2 with
    | ok record => exact ⟨record, rfl⟩
    | error fault =>
        have hsome := List.all_eq_true.1 hall row hmem
        rw [hrow] at hsome
        cases hsome
  have hcrowded : Backend.database.Crowded state.1 pool.accounts pool.scanPageSize :=
    ⟨"1", by decide +kernel⟩
  refine ⟨fun fuel time => ?_, by decide +kernel⟩
  obtain ⟨keep, settle, hrun⟩ := Search.run_scanned Backend.database
    (rfl : Search.listAccounts.scanned? (.ofSettings settings) = some pool.accounts)
  have haddressed := (Operation.addressedBy_after Backend.database settings Store.size ⟨0, 0⟩
    [.one (.putLease { accountId := "1", principalId := "p", status := .active })]).mono
    (fun _ _ _ => trivial : ∀ name key, pool.Suits name key → True)
  rw [hrun]
  exact congrArg (Option.map settle) (Scan.not_ends_of_crowded rfl haddressed hread hcrowded keep _)

end AccountPool
