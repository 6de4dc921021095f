import AccountPool.Proofs.Pool.Represents

/-!
# Operations of the pool

An operation is an access to one entity or a search for several. Searches only read:
`Represents.search_onlyReads` says that a search of a store that represents an inventory leaves the store
alone and reads every record that it meets.
-/

namespace AccountPool

open Program (Result)

/-- An operation that looks for entities. -/
inductive Search where
  | listAccounts
  | accountsByStatus (status : AccountStatus)
  | firstReadyAccount
  | accountsNotReady
  | accountsByRole (roleArn : String)
  | listLeases
  | leasesByAccount (accountId : String)
  | leasesByPrincipal (principalId : String)
  | leasesByStatus (status : LeaseStatus)

namespace Search

/-- What a search that succeeds gives. -/
abbrev Reply : Search → Type
  | listAccounts | accountsByStatus _ | accountsNotReady | accountsByRole _ => List Account
  | firstReadyAccount => Option Account
  | listLeases | leasesByAccount _ | leasesByPrincipal _ | leasesByStatus _ => List Lease

/-- The program of a search. -/
def program (pool : Pool) : (search : Search) → Program (Result search.Reply)
  | listAccounts => pool.listAccounts
  | accountsByStatus status => pool.accountsByStatus status
  | firstReadyAccount => pool.firstReadyAccount
  | accountsNotReady => pool.accountsNotReady
  | accountsByRole roleArn => pool.accountsByRole roleArn
  | listLeases => pool.listLeases
  | leasesByAccount accountId => pool.leasesByAccount accountId
  | leasesByPrincipal principalId => pool.leasesByPrincipal principalId
  | leasesByStatus status => pool.leasesByStatus status

end Search

/-- An operation of the pool, on one entity or on many. -/
inductive Operation where
  | one (access : Access)
  | many (search : Search)

namespace Operation

/-- What an operation that succeeds gives. -/
abbrev Reply : Operation → Type
  | one access => access.Reply
  | many search => search.Reply

/-- The program of an operation. -/
def program (pool : Pool) : (operation : Operation) → Program (Result operation.Reply)
  | one access => access.program pool
  | many search => search.program pool

end Operation

/-! ## Searches -/

/-- A result does not say that a record could not be read. -/
def Program.Result.Decodes {α : Type} (result : Result α) : Prop :=
  ∀ table mismatch, result ≠ .error (.undecodable table mismatch)

/-- A record is in a row of a table. -/
def Store.Has (store : Store) (name : String) (record : Record) : Prop :=
  ∃ row, (store.rows name).find? row = some record

section Search

variable {backend : Backend} {store : Store}

/-- The records that a query finds are in rows of the table. -/
theorem Backend.query_has (hread : store.ReadsBack backend) {table : Table} {name : String}
    {value : Json.Value} {records : List Record}
    (hquery : backend.query store table name value = .ok records) :
    ∀ record ∈ records, store.Has table.name record := by
  have hrow : ∀ (keep : Key × Record → Bool) (record : Record),
      record ∈ ((store.rows table.name).entries.filter keep).map Prod.snd →
        store.Has table.name record := by
    intro keep record hmem
    obtain ⟨row, hrow, rfl⟩ := List.mem_map.1 hmem
    exact ⟨row.1, SortedMap.mem_entries_iff.1 (List.mem_filter.1 hrow).1⟩
  rw [Backend.query_eq hread] at hquery
  intro record hmem
  split at hquery
  · split at hquery
    · cases hquery
      exact hrow _ record hmem
    · split at hquery
      · cases hquery
        exact hrow _ record (List.mem_filter.1 hmem).1
      · cases hquery
  · cases hquery

/-- The records of a page are in rows of the table, and reading a page never fails. -/
theorem Backend.page_has (hread : store.ReadsBack backend) (table : Table) (limit : Nat)
    (start : Option Key) :
    ∃ page, backend.page store table limit start = .ok page ∧
      ∀ record ∈ page.records, store.Has table.name record := by
  refine ⟨_, Backend.page_eq hread limit start, ?_⟩
  intro record hmem
  obtain ⟨row, hrow, rfl⟩ := List.mem_map.1 hmem
  exact ⟨row.1, SortedMap.mem_entries_iff.1 (Backend.mem_of_mem_pageRows hrow)⟩

/-- A step of a scan leaves the store alone. It hands out a record that was fetched before, asks for a
page, or comes to the end. -/
theorem Scan.step_cases (hread : store.ReadsBack backend) (table : Table) (scan : Scan) :
    (∃ record buffer, scan.buffer = record :: buffer ∧
      scan.step (.ofEngine backend.perform table) store =
        (some (.record record), { scan with buffer }, store)) ∨
    (∃ next, (∀ record ∈ next.buffer, store.Has table.name record) ∧
      scan.step (.ofEngine backend.perform table) store = (none, next, store)) ∨
    scan.step (.ofEngine backend.perform table) store = (some .finished, scan, store) := by
  cases hbuffer : scan.buffer with
  | cons record buffer =>
      refine .inl ⟨record, buffer, rfl, ?_⟩
      rw [step, hbuffer]
  | nil =>
      cases hexhausted : scan.exhausted with
      | true =>
          refine .inr (.inr ?_)
          simp only [step, hbuffer, hexhausted, if_true]
      | false =>
          obtain ⟨page, hpage, hrecords⟩ := Backend.page_has hread table scan.pageSize scan.start
          refine .inr (.inl ⟨⟨scan.pageSize, page.last, page.records, page.last.isNone⟩, hrecords, ?_⟩)
          simp [step, hbuffer, hexhausted, Fetch.ofEngine, Backend.perform, hpage]

/-- A scan leaves the store alone and hands out records of the table's rows. -/
theorem Scan.drain_has (hread : store.ReadsBack backend) (table : Table) (keep : Record → Bool)
    (fuel : Nat) (scan : Scan) (kept : List Record)
    (hbuffer : ∀ record ∈ scan.buffer, store.Has table.name record)
    (hkept : ∀ record ∈ kept, store.Has table.name record) :
    ∃ answer, scan.drain (.ofEngine backend.perform table) keep fuel store kept = (answer, store) ∧
      ∀ records, answer = some (.ok records) → ∀ record ∈ records, store.Has table.name record := by
  -- Whatever is in the buffer or is kept is a record of the table, and nothing else is handed out.
  induction fuel generalizing scan kept with
  | zero => exact ⟨none, rfl, fun _ hanswer => by cases hanswer⟩
  | succ fuel ih =>
      rw [drain]
      obtain ⟨record, buffer, hhead, hstep⟩ | ⟨next, hnext, hstep⟩ | hstep := step_cases hread table scan
      · rw [hhead] at hbuffer
        simp only [hstep]
        refine ih _ _ (fun other hmem => hbuffer other (List.mem_cons_of_mem _ hmem)) ?_
        intro other hmem
        split at hmem
        · obtain hmem | rfl := by simpa using hmem
          · exact hkept other hmem
          · exact hbuffer other List.mem_cons_self
        · exact hkept other hmem
      · simp only [hstep]
        exact ih _ _ hnext hkept
      · simp only [hstep]
        refine ⟨_, rfl, ?_⟩
        rintro records hanswer
        cases hanswer
        exact hkept

/-! ## Programs that search -/

/-- A program that is continued is executed up to its result, and then the continuation is. -/
theorem Program.run_bind {σ α β : Type} (engine : Engine σ) (fuel : σ → Nat) (program : Program α)
    (next : α → Program β) (state : σ) (time : Clock) :
    (program.bind next).run engine fuel state time =
      match program.run engine fuel state time with
      | (some result, state, time) => (next result).run engine fuel state time
      | (none, state, time) => (none, state, time) := by
  induction program generalizing state time with
  | done result => rfl
  | call request resume ih => exact ih _ _ _
  | clock resume ih => exact ih _ _ _
  | scan table pageSize keep resume ih =>
      simp only [bind, run]
      split
      · exact ih _ _ _
      · rfl

variable {α ι : Type} [Entity α] [LawfulEntity α] [Filed α ι] {name : String} {find : ι → Option α}

/-- Records of a table that files entities are read as entities. -/
theorem Files.decodeAll (h : Files backend store name find) (table : Table) {records : List Record}
    (hrecords : ∀ record ∈ records, store.Has name record) :
    ∃ entities : List α, Pool.decodeAll table records = .ok entities := by
  induction records with
  | nil => exact ⟨[], rfl⟩
  | cons record records ih =>
      obtain ⟨row, hrow⟩ := hrecords record List.mem_cons_self
      obtain ⟨entity, hcarries⟩ := h.exists_carries hrow
      obtain ⟨entities, hrest⟩ := ih fun other hmem => hrecords other (List.mem_cons_of_mem _ hmem)
      refine ⟨entity :: entities, ?_⟩
      rw [Pool.decodeAll] at hrest ⊢
      rw [List.mapM_cons, hcarries.decode, hrest]
      rfl

/-- An answer with records of a table that files entities is read without complaint. -/
theorem Files.lift_decodeAll (h : Files backend store name find) (table : Table)
    {answer : Except StoreError (List Record)}
    (hanswer : ∀ records, answer = .ok records → ∀ record ∈ records, store.Has name record) :
    (Pool.lift answer (Pool.decodeAll (α := α) table)).Decodes := by
  intro other mismatch hresult
  cases answer with
  | error error => cases hresult
  | ok records =>
      obtain ⟨entities, hentities⟩ := h.decodeAll (α := α) table (hanswer records rfl)
      rw [Pool.lift, hentities] at hresult
      cases hresult

/-- A program leaves a store and a clock alone and reads every record that it meets. -/
def Program.OnlyReads {α : Type} (program : Program (Result α)) (backend : Backend)
    (fuel : Store → Nat) (store : Store) (time : Clock) : Prop :=
  ∃ result, program.run backend.perform fuel store time = (result, store, time) ∧
    ∀ answer, result = some answer → answer.Decodes

variable (h : Files backend store name find) (hread : store.ReadsBack backend) (fuel : Store → Nat)
  (time : Clock)

include h hread

/-- A search by scan only reads. -/
theorem Files.scanWhere_onlyReads (pool : Pool) (keep : Record → Bool) :
    (Pool.scanWhere (α := α) pool (Filed.table α name) keep).OnlyReads backend fuel store time := by
  obtain ⟨answer, hdrain, hhas⟩ := Scan.drain_has hread (Filed.table α name) keep (fuel store)
    (.begin pool.scanPageSize) [] (by simp [Scan.begin]) (by simp)
  rw [Filed.name_table] at hhas
  unfold Program.OnlyReads Pool.scanWhere
  simp only [Program.run, hdrain]
  cases answer with
  | none => exact ⟨none, rfl, fun _ hresult => by cases hresult⟩
  | some answer =>
      refine ⟨_, rfl, ?_⟩
      rintro _ ⟨⟩
      refine h.lift_decodeAll _ ?_
      rintro records rfl
      exact hhas records rfl

/-- A search by an attribute only reads. -/
theorem Files.findBy_onlyReads (pool : Pool) (field text : String) :
    (Pool.findBy (α := α) pool (Filed.table α name) field text).OnlyReads backend fuel store
      time := by
  unfold Pool.findBy
  split
  · refine ⟨_, rfl, ?_⟩
    rintro _ ⟨⟩
    refine h.lift_decodeAll _ ?_
    intro records hanswer
    have hhas := Backend.query_has hread hanswer
    rwa [Filed.name_table] at hhas
  · exact h.scanWhere_onlyReads hread fuel time pool _

end Search

/-- Every search of a store that represents an inventory only reads. -/
theorem Represents.search_onlyReads {backend : Backend} {settings : PoolSettings} {store : Store}
    {inventory : Inventory} (h : Represents backend settings store inventory)
    (hread : store.ReadsBack backend) (fuel : Store → Nat) (time : Clock) (search : Search) :
    (search.program (Pool.ofSettings settings)).OnlyReads backend fuel store time := by
  let pool := Pool.ofSettings settings
  cases search with
  | listAccounts => exact h.accounts.scanWhere_onlyReads hread fuel time pool _
  | accountsByStatus status =>
      exact h.accounts.findBy_onlyReads hread fuel time pool Account.statusName status.name
  | firstReadyAccount =>
      have hready : (pool.accountsByStatus .ready).OnlyReads backend fuel store time :=
        h.accounts.findBy_onlyReads hread fuel time pool Account.statusName AccountStatus.ready.name
      obtain ⟨result, hrun, hdecodes⟩ := hready
      refine ⟨result.map (Except.map List.head?), ?_, ?_⟩
      · refine (Program.run_bind _ _ _ _ _ _).trans ?_
        rw [hrun]
        cases result with
        | none => rfl
        | some result => rfl
      · rintro answer hanswer table mismatch rfl
        obtain ⟨found, hfound, hmap⟩ := Option.map_eq_some_iff.1 hanswer
        cases found with
        | ok accounts => cases hmap
        | error error =>
            cases hmap
            exact hdecodes _ hfound table mismatch rfl
  | accountsNotReady => exact h.accounts.scanWhere_onlyReads hread fuel time pool _
  | accountsByRole roleArn =>
      exact h.accounts.findBy_onlyReads hread fuel time pool Account.roleArnName roleArn
  | listLeases => exact h.leases.scanWhere_onlyReads hread fuel time pool _
  | leasesByAccount accountId =>
      exact h.leases.findBy_onlyReads hread fuel time pool Lease.accountIdName accountId
  | leasesByPrincipal principalId =>
      exact h.leases.findBy_onlyReads hread fuel time pool Lease.principalIdName principalId
  | leasesByStatus status =>
      exact h.leases.findBy_onlyReads hread fuel time pool Lease.statusName status.name

end AccountPool
