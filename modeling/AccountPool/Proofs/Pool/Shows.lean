import AccountPool.Proofs.Pool.Lookups
import AccountPool.Proofs.Pool.Nesting
import AccountPool.Proofs.Store.Legible

/-!
# Pools in databases with legible records

A store shows an inventory if its records are legible and, as they are seen, represent the inventory. Then
every operation that files legible metadata gives what the machine over typed entities gives, and the store
shows some inventory afterwards: `Shows.run_access` and `Shows.run_search`. The inventory need not be that of
the machine, since floating-point numbers in metadata may be seen as others.
-/

namespace AccountPool

open Json (Value)
open Program (Result)

/-! ## Legible requests -/

/-- The metadata that an operation files can be read back. -/
def Operation.Legible (operation : Operation) : Prop :=
  ∀ metadata, operation.metadata? = some metadata →
    (Value.ofMembers metadata).Sound ∧ (Value.ofMembers metadata).depth < Json.Reader.maxDepth

/-- Whatever is written for each of a list of fields is sound. -/
def Field.WritesSound : (fields : List Field) → Values fields → Prop
  | [], () => True
  | field :: fields, (value, values) =>
      (∀ written, field.shape.encode value = some written → written.Sound) ∧ WritesSound fields values

/-- The members that are written for fields are sound if what is written for each field is. -/
theorem Field.WritesSound.members {fields : List Field} {values : Values fields}
    (h : WritesSound fields values) : Value.SoundMembers (Field.members fields values) := by
  induction fields with
  | nil => trivial
  | cons field fields ih =>
      obtain ⟨value, values⟩ := values
      rw [Field.members]
      cases hwritten : field.shape.encode value with
      | none => exact ih h.2
      | some written => exact ⟨h.1 written hwritten, ih h.2⟩

/-- The record of an account with legible metadata is legible. -/
theorem Account.legible_ofEntity {account : Account} (hsound : (Value.ofMembers account.metadata).Sound)
    (hdepth : (Value.ofMembers account.metadata).depth < Json.Reader.maxDepth) :
    (Record.ofEntity account).Legible where
  sound := by
    have hwrites : Field.WritesSound (Entity.fields Account) (Entity.values account) := by
      simp +contextual [Entity.fields, Entity.values, Field.WritesSound, Shape.encode, Value.Sound,
        Value.int64, Json.Number.isFinite, hsound]
    exact Value.sound_ofList hwrites.members
  depth_le := Nat.le_trans (Record.depth_ofEntity_le (Account.within (Nat.le_refl _))) hdepth

/-- The record of a lease is legible. -/
theorem Lease.legible_ofEntity (lease : Lease) : (Record.ofEntity lease).Legible where
  sound := by
    have hwrites : Field.WritesSound (Entity.fields Lease) (Entity.values lease) := by
      simp [Entity.fields, Entity.values, Field.WritesSound, Shape.encode, Value.Sound, Value.int64,
        Json.Number.isFinite]
    exact Value.sound_ofList hwrites.members
  depth_le := Nat.le_trans (Record.depth_ofEntity_le lease.within) (by decide)

/-- A transition sets attributes to values that can be read. -/
theorem Transition.legible_assignments (transition : Transition) (now : Int64) :
    ∀ assignment ∈ transition.assignments now,
      assignment.2.Sound ∧ assignment.2.depth < Json.Reader.maxDepth := by
  have hpos : 0 < Json.Reader.maxDepth := by decide
  intro assignment hmem
  obtain rfl | hstamp := List.mem_cons.1 hmem
  · exact ⟨trivial, hpos⟩
  · obtain ⟨stamp, -, rfl⟩ := List.mem_map.1 hstamp
    exact ⟨rfl, hpos⟩

/-- The request of an access that files legible metadata is legible. -/
theorem Access.legible_request {access : Access} (h : (Operation.one access).Legible) (pool : Pool)
    (now : Int64) : (access.request pool now).Legible := by
  cases access with
  | getAccount | deleteAccount | getLease | deleteLease => trivial
  | putAccount account =>
      obtain ⟨hsound, hdepth⟩ := h _ rfl
      exact Account.legible_ofEntity hsound hdepth
  | putLease lease => exact lease.legible_ofEntity
  | moveLease accountId principalId previous next => exact Transition.legible_assignments _ now
  | editAccount id edit =>
      cases edit with
      | status | policyHash => exact Transition.legible_assignments _ now
      | metadata members =>
          obtain ⟨hsound, hdepth⟩ := h _ rfl
          intro assignment hmem
          obtain rfl | hstamp := List.mem_cons.1 hmem
          · exact ⟨hsound, hdepth⟩
          · obtain rfl := List.mem_singleton.1 hstamp
            exact ⟨rfl, show 0 < Json.Reader.maxDepth by decide⟩

/-! ## Stores with the same rows -/

namespace Represents

variable {backend : Backend} {settings : PoolSettings} {store next : Store} {inventory : Inventory}

/-- What a store represents depends on its rows only. -/
theorem congr (h : Represents backend settings store inventory)
    (hrows : ∀ name, next.rows name = store.rows name) : Represents backend settings next inventory where
  accounts := h.accounts.congr (hrows _) fun _ => rfl
  leases := h.leases.congr (hrows _) fun _ => rfl

section Seen

variable (hbackend : backend.Provided) (hnames : settings.accountTable ≠ settings.leaseTable)

include hbackend hnames

/-- The record that was written last may be replaced by what is seen of it. -/
theorem write_seen {table : Table} {row : Key} {record : Record}
    (h : Represents backend settings (Backend.write store table row record) inventory)
    (hlegible : record.Legible) :
    ∃ seen, Represents backend settings (Backend.write store table row record.seen) seen := by
  have hwritten : (row, record) ∈ ((Backend.write store table row record).rows table.name).entries := by
    rw [SortedMap.mem_entries_iff, Backend.find?_write, if_pos ⟨rfl, rfl⟩]
  -- A record that is written in a row twice in a row is there as it was written last.
  have hrows {other : Table} (hother : table.name = other.name) (name : String) :
      (Backend.write store table row record.seen).rows name =
        (Backend.write (Backend.write store table row record) other row record.seen).rows name := by
    refine SortedMap.ext_find? fun key => ?_
    simp only [Backend.find?_write, ← hother]
    split <;> rfl
  by_cases haccounts : table.name = settings.accountTable
  · rw [haccounts] at hwritten
    obtain ⟨account, rfl, hcarries, -⟩ := h.accounts.exists_filed hwritten
    obtain ⟨metadata, hseen⟩ := hlegible.carries_account hcarries
    exact ⟨_, (h.writeAccount hbackend hnames hseen).congr (hrows haccounts)⟩
  by_cases hleases : table.name = settings.leaseTable
  · rw [hleases] at hwritten
    obtain ⟨lease, rfl, hcarries, -⟩ := h.leases.exists_filed hwritten
    exact ⟨_, (h.writeLease hbackend hnames (hlegible.carries_lease hcarries)).congr (hrows hleases)⟩
  · refine ⟨inventory, ?_, ?_⟩
    · refine h.accounts.congr ?_ fun _ => rfl
      rw [Backend.rows_write_of_ne _ (Ne.symm haccounts), Backend.rows_write_of_ne _ (Ne.symm haccounts)]
    · refine h.leases.congr ?_ fun _ => rfl
      rw [Backend.rows_write_of_ne _ (Ne.symm hleases), Backend.rows_write_of_ne _ (Ne.symm hleases)]

/-- A change that was made of the records as they are seen may be seen instead. -/
theorem apply_seen {change : Change} (hchange : change.Legible)
    (h : Represents backend settings (change.apply store.seen) inventory) :
    ∃ seen, Represents backend settings (change.apply store).seen seen := by
  cases change with
  | keep => exact ⟨inventory, h⟩
  | write table row record =>
      obtain ⟨seen, hseen⟩ := h.write_seen hbackend hnames hchange
      refine ⟨seen, hseen.congr fun name => SortedMap.ext_find? fun key => ?_⟩
      simp only [Change.apply, Store.find?_rows_seen, Backend.find?_write]
      split <;> rfl
  | remove table row =>
      refine ⟨inventory, h.congr fun name => SortedMap.ext_find? fun key => ?_⟩
      simp only [Change.apply, Store.find?_rows_seen, Backend.find?_remove]
      split <;> rfl

end Seen

end Represents

/-! ## Operations -/

/-- The records of a store are legible, and as they are seen they represent an inventory. -/
structure Shows (settings : PoolSettings) (store : Store) (inventory : Inventory) : Prop where
  legible : store.Legible
  represents : Represents .faithful settings store.seen inventory

namespace Shows

/-- An empty store shows an empty inventory. -/
theorem empty (settings : PoolSettings) : Shows settings {} {} where
  legible := Store.legible_empty
  represents := Represents.empty _ _

variable {settings : PoolSettings} {store : Store} {inventory : Inventory}
  (h : Shows settings store inventory) (hnames : settings.accountTable ≠ settings.leaseTable)

include h

/-- What a store shows depends on the names of the tables only. -/
theorem of_names {other : PoolSettings} (haccounts : other.accountTable = settings.accountTable)
    (hleases : other.leaseTable = settings.leaseTable) : Shows other store inventory where
  legible := h.legible
  represents := ⟨haccounts ▸ h.represents.accounts, hleases ▸ h.represents.leases⟩

include hnames

/-- A request that is answered with the records as they are seen is answered so with the records as they
are, and the store shows some inventory afterwards if it represented one. -/
theorem perform {request : Request} (hrequest : request.Legible) {answer : request.Answer} {next : Store}
    (hperform : Backend.faithful.perform store.seen request = (answer, next)) {after : Inventory}
    (hnext : Represents .faithful settings next after) :
    ∃ kept seen, Backend.database.perform store request = (answer, kept) ∧ Shows settings kept seen := by
  obtain ⟨answer', change, hchange, hstored, hseen⟩ := Backend.perform_seen h.legible hrequest
  rw [hseen] at hperform
  cases hperform
  obtain ⟨seen, hrepresents⟩ := hnext.apply_seen (.database _ _) hnames hchange
  exact ⟨_, seen, hstored, hchange.apply h.legible, hrepresents⟩

/-- The removal of an account gives the account, or changes nothing and tells why. -/
theorem run_deleteAccount (fuel : Store → Nat) (time : Clock) (id : String) :
    ∃ next seen, ((Pool.ofSettings settings).deleteAccount id).run Backend.database.perform fuel store
        time = (some (inventory.perform time.now (.deleteAccount id)).1, next, time) ∧
      Shows settings next seen := by
  have hread := Backend.readsBack_faithful store.seen
  obtain ⟨account, haccount, hfree⟩ | hleased := inventory.removable_or_not id
  · obtain ⟨record, hcarries, hperform⟩ := h.represents.perform_deleteAccount hread haccount hfree
    obtain ⟨next, seen, hstored, hnext⟩ :=
      h.perform hnames (show (Request.delete _ _ _).Legible from trivial) hperform
        (h.represents.removeAccount (.database _ _) hnames id)
    refine ⟨next, seen, (Program.run_call hstored fuel _ time).trans ?_, hnext⟩
    rw [Inventory.perform_deleteAccount haccount hfree]
    show (some (Pool.decode _ record), _) = _
    rw [hcarries.decode]
  · have hperform := h.represents.perform_deleteAccount_refused hread hleased
    obtain ⟨kept, -, hstored, -⟩ :=
      h.perform hnames (show (Request.delete _ _ _).Legible from trivial) hperform h.represents
    have hkept := Backend.perform_store_of_error (congrArg Prod.fst hstored)
    rw [hstored] at hkept
    obtain rfl : kept = store := hkept
    -- The refusal does not tell why, so the account is read.
    obtain ⟨current, hfound, hget⟩ := h.represents.accounts.perform_get hread id
    obtain ⟨next, seen, hstoredGet, hnext⟩ :=
      h.perform hnames (show (Request.get _ _).Legible from trivial) hget h.represents
    refine ⟨next, seen, (Program.run_call hstored fuel _ time).trans ?_, hnext⟩
    refine (Program.run_call hstoredGet fuel _ time).trans ?_
    rw [Inventory.perform_deleteAccount_refused hleased]
    have hdecode := hfound.decode? (Pool.ofSettings settings).accounts
    simp only [Pool.lift, hdecode]
    cases haccount : inventory.accounts.find? id with
    | none => rfl
    | some account =>
        show Program.run _ _ (if account.isLeased then _ else _) _ _ = _
        rw [if_pos (hleased account haccount)]
        rfl

/-- Every access gives what the machine gives, and the store shows some inventory afterwards. -/
theorem run_access (fuel : Store → Nat) (time : Clock) {access : Access}
    (haccess : (Operation.one access).Legible) :
    ∃ next seen, (access.program (Pool.ofSettings settings)).run Backend.database.perform fuel store
        time = (some (inventory.perform time.now access).1, next,
          if access.readsClock then time.tick else time) ∧
      Shows settings next seen := by
  have hread := Backend.readsBack_faithful store.seen
  obtain ⟨answer, after, hperform, hafter, htells⟩ :=
    h.represents.step (.database _ _) hnames hread time.now access
  obtain ⟨next, seen, hstored, hnext⟩ :=
    h.perform hnames (access.legible_request haccess _ time.now) hperform hafter
  cases access with
  | editAccount id edit =>
      rw [Access.program, AccountEdit.program_eq, Program.run]
      refine ⟨next, seen, (Program.run_call hstored fuel _ time.tick).trans ?_, hnext⟩
      exact congrArg (fun result => (some result, next, time.tick)) htells
  | moveLease accountId principalId previous status =>
      rw [Access.program, Pool.changeLeaseStatus, Transition.apply, Program.run]
      refine ⟨next, seen, (Program.run_call hstored fuel _ time.tick).trans ?_, hnext⟩
      exact congrArg (fun result => (some result, next, time.tick)) htells
  | deleteAccount id => exact h.run_deleteAccount hnames fuel time id
  | _ =>
      -- The other accesses are one request, whose answer they translate.
      refine ⟨next, seen, (Program.run_call hstored fuel _ time).trans ?_, hnext⟩
      exact congrArg (fun result => (some result, next, time)) htells

omit hnames in
/-- A search by scan finds what it would find among the records as they are seen. -/
theorem run_scanWhere {α : Type} [Entity α] (pool : Pool) {table : Table} (keep : Record → Bool)
    (time : Clock)
    (hlead : ∀ row ∈ (store.seen.rows table.name).entries, Backend.faithful.LeadsBack table row.1) :
    (Pool.scanWhere (α := α) pool table keep).run Backend.database.perform
        (fun store => Scan.steps store.size) store time =
      (((Pool.scanWhere (α := α) pool table keep).run Backend.faithful.perform
        (fun store => Scan.steps store.size) store.seen time).1, store, time) := by
  rw [Store.rows_seen] at hlead
  have hstored : ∀ row ∈ (store.rows table.name).entries, Backend.database.LeadsBack table row.1 :=
    fun row hmem => hlead (row.1, row.2.seen) (List.mem_map.2 ⟨row, hmem, rfl⟩)
  rw [← Store.rows_seen] at hlead
  rw [Pool.run_scanWhere pool hstored, Pool.run_scanWhere pool hlead,
    Backend.readAll_seen h.legible fun _ hmem => hmem,
    Backend.readAll_eq (Backend.readsBack_faithful _) fun _ hmem => hmem, Store.rows_seen]
  show _ = (some (Pool.lift (Except.ok (((List.map _ _).map _).filter _)) _), _, _)
  rw [List.map_map]
  rfl

omit hnames in
/-- A search by an attribute finds what it would find among the records as they are seen. -/
theorem run_findBy {α : Type} [Entity α] (pool : Pool) {table : Table} (name text : String) (time : Clock)
    (hlead : ∀ row ∈ (store.seen.rows table.name).entries, Backend.faithful.LeadsBack table row.1) :
    (Pool.findBy (α := α) pool table name text).run Backend.database.perform
        (fun store => Scan.steps store.size) store time =
      (((Pool.findBy (α := α) pool table name text).run Backend.faithful.perform
        (fun store => Scan.steps store.size) store.seen time).1, store, time) := by
  unfold Pool.findBy
  split
  · simp only [Program.run, Backend.perform, Backend.query_seen h.legible]
  · exact h.run_scanWhere pool _ time hlead

omit hnames in
/-- Every search gives what can be read off lists of all accounts and all leases, and changes nothing. -/
theorem run_search (time : Clock) :
    ∃ (accounts : List Account) (leases : List Lease),
      (∀ account, account ∈ accounts ↔ inventory.accounts.find? account.id = some account) ∧
      ∀ search : Search, (search.program (.ofSettings settings)).run Backend.database.perform
          (fun store => Scan.steps store.size) store time =
        (some (.ok (search.answer accounts leases)), store, time) := by
  have hprovided : Backend.faithful.Provided := .database _ _
  obtain ⟨accounts, haccounts⟩ := h.represents.accounts.exists_listing hprovided
  obtain ⟨leases, hleases⟩ := h.represents.leases.exists_listing hprovided
  refine ⟨accounts.map Prod.snd, leases.map Prod.snd, haccounts.found, fun search => ?_⟩
  let pool := Pool.ofSettings settings
  -- Every search but the last one is one look-up or one scan.
  have hfaithful {search : Search}
      (hsame : (search.program pool).run Backend.database.perform (fun store => Scan.steps store.size)
        store time = (((search.program pool).run Backend.faithful.perform
          (fun store => Scan.steps store.size) store.seen time).1, store, time)) :
      (search.program pool).run Backend.database.perform (fun store => Scan.steps store.size) store time =
        (some (.ok (search.answer (accounts.map Prod.snd) (leases.map Prod.snd))), store, time) := by
    rw [hsame, Search.run_eq settings hprovided (Backend.readsBack_faithful store.seen)
      (fun text => columnMatches_string (Value.same_string.2 rfl)) haccounts hleases time search]
  have hleadAccounts := haccounts.leadsBack hprovided
  have hleadLeases := hleases.leadsBack hprovided
  have haccountsBy (name text : String) :=
    h.run_findBy (α := Account) pool name text time hleadAccounts
  have hleasesBy (name text : String) := h.run_findBy (α := Lease) pool name text time hleadLeases
  have hstatus (status : AccountStatus) :=
    @hfaithful (.accountsByStatus status) (haccountsBy Account.statusName status.name)
  cases search with
  | listAccounts | accountsNotReady => exact hfaithful (h.run_scanWhere pool _ time hleadAccounts)
  | listLeases => exact hfaithful (h.run_scanWhere pool _ time hleadLeases)
  | accountsByStatus status => exact hstatus status
  | accountsByRole roleArn => exact hfaithful (haccountsBy Account.roleArnName roleArn)
  | leasesByAccount accountId => exact hfaithful (hleasesBy Lease.accountIdName accountId)
  | leasesByPrincipal principalId => exact hfaithful (hleasesBy Lease.principalIdName principalId)
  | leasesByStatus status => exact hfaithful (hleasesBy Lease.statusName status.name)
  | firstReadyAccount =>
      have hready : (pool.accountsByStatus .ready).run Backend.database.perform
          (fun store => Scan.steps store.size) store time = _ := hstatus .ready
      refine (Program.run_bind _ _ _ _ _ _).trans ?_
      rw [hready]
      rfl

end Shows

end AccountPool
