import AccountPool.Command.Arguments
import AccountPool.Proofs.Command.Answers
import AccountPool.Proofs.Pool.Lookups
import AccountPool.Proofs.Pool.Nesting
import AccountPool.Proofs.Pool.Scanning

/-!
# Metadata on the command line

The arguments of a command are read by the reader that also reads the records of the database, so metadata
that is accepted has no more levels than a document may have: `Arguments.depth_parseMetadata_le`. The record
of the account has one level more. So an account is served after it was given metadata below the limit,
`AccountCommand.Writes.served`, and stuck after it was given metadata as deep as the limit,
`AccountCommand.Writes.stuck`. `accepted_write_by_depth` says for every write that a database accepts whether
the record can be read again.
-/

namespace AccountPool

open Json (Value)
open Program (Result)

/-- Metadata that is accepted is not deeper than documents may be. -/
theorem Arguments.depth_parseMetadata_le {text : String} {metadata : Json.Members}
    (hparse : parseMetadata text = .ok metadata) :
    (Value.ofMembers metadata).depth ≤ Json.Reader.maxDepth := by
  unfold parseMetadata at hparse
  split at hparse
  · next members hvalue =>
      cases hparse
      exact Nat.le_trans (Value.depth_ofList_le members) (Value.parse_depth hvalue)
  · cases hparse
  · cases hparse

/-! ## Commands -/

namespace AccountCommand

/-- The command gives metadata to the account with an identifier. -/
inductive Writes (id : String) (metadata : Json.Members) : AccountCommand → Prop where
  | put (status : AccountStatus) (roleArn : Option String) :
      Writes id metadata (.put id status roleArn metadata)
  | metadata : Writes id metadata (.metadata id metadata)

/-- The account that a command is about. -/
def subject? : AccountCommand → Option String
  | get id | put id .. | metadata id _ | transition id .. | policyHash id .. | delete id => some id
  | list | ready | resetCandidates | status _ | principal _ => none

end AccountCommand

/-- The commands about an account work: it is got, listed, replaced and, unless it is leased, removed. -/
structure Account.Served (backend : Backend) (settings : PoolSettings) (state : Store × Clock)
    (account : Account) : Prop where
  get : ((AccountCommand.get account.id).run backend settings state).1 =
    some (.ok (Entity.toValue account))
  list : ∃ accounts : List Account, account ∈ accounts ∧
    (AccountCommand.list.run backend settings state).1 =
      some (.ok (.array (accounts.map Entity.toValue)))
  put : ∀ status roleArn metadata,
    ((AccountCommand.put account.id status roleArn metadata).run backend settings state).1 =
      some (.ok (Entity.toValue account))
  delete : ((AccountCommand.delete account.id).run backend settings state).1 =
    some (if account.isLeased then .error (.pool (.accountLeased account))
      else .ok (Entity.toValue account))

/-! ## Accounts that can be read -/

section Served

variable {backend : Backend} {settings : PoolSettings} {store : Store} {inventory : Inventory}
  {account : Account}

/-- An account is served by a store that represents it and reads back. -/
theorem Represents.served (h : Represents backend settings store inventory)
    (hbackend : backend.Provided) (hnames : settings.accountTable ≠ settings.leaseTable)
    (hread : store.ReadsBack backend) (haccount : inventory.accounts.find? account.id = some account)
    (time : Clock) : account.Served backend settings (store, time) := by
  have hrun (access : Access) (time : Clock) := h.run_access hbackend hnames hread
    (fun store => Scan.steps store.size) time access
  constructor
  case get =>
    obtain ⟨next, hget, -⟩ := hrun (.getAccount account.id) time
    rw [Inventory.perform, haccount] at hget
    exact Answer.found_gives (congrArg Prod.fst hget) .account account.id
  case list =>
    obtain ⟨filed, hfiled⟩ := h.accounts.exists_listing hbackend
    have hall : ∀ (record : Record) (account : Account), record.Carries account →
        (fun _ : Record => true) record = (fun _ : Account => true) account := fun _ _ _ => rfl
    have hlist := hfiled.scanWhere hread (.ofSettings settings) time hbackend hall
    refine ⟨(filed.map Prod.snd).filter fun _ => true, ?_, ?_⟩
    · exact List.mem_filter.2 ⟨(hfiled.found account).2 haccount, rfl⟩
    · exact Answer.all_gives (congrArg Prod.fst hlist)
  case put =>
    intro status roleArn metadata
    obtain ⟨next, hput, -⟩ := hrun (.putAccount
      { id := account.id, status, roleArn, metadata, lastModifiedOn := time.now }) time.tick
    rw [Inventory.perform, haccount] at hput
    exact Answer.optional_gives (congrArg Prod.fst hput)
  case delete =>
    obtain ⟨next, hdelete, -⟩ := hrun (.deleteAccount account.id) time
    refine (Answer.one_gives (congrArg Prod.fst hdelete)).trans ?_
    rw [Inventory.perform, haccount]
    dsimp only
    split <;> rfl

end Served

namespace AccountCommand

variable {backend : Backend} {settings : PoolSettings} {state : Store × Clock} {id : String}
  {metadata : Json.Members} {command : AccountCommand}

/-- A command that gives an account its metadata is an access that does, and prints something only if the
access succeeds. -/
theorem Writes.exists_access (h : command.Writes id metadata) (backend : Backend)
    (settings : PoolSettings) (state : Store × Clock) :
    ∃ (access : Access) (time : Clock), (Operation.one access).metadata? = some metadata ∧
      access.account? = some id ∧
      (command.run backend settings state).2 =
        ((access.program (.ofSettings settings)).run backend.perform
          (fun store => Scan.steps store.size) state.1 time).2 ∧
      ∀ text, (command.run backend settings state).1 = some (.ok text) →
        ∃ reply, ((access.program (.ofSettings settings)).run backend.perform
          (fun store => Scan.steps store.size) state.1 time).1 = some (.ok reply) := by
  cases h with
  | put status roleArn =>
      let account : Account :=
        { id, status, roleArn, metadata, lastModifiedOn := state.2.now }
      have hrun : (AccountCommand.put id status roleArn metadata).run backend settings state = _ :=
        Answer.run_optional backend.perform (fun store => Scan.steps store.size) state.1 state.2.tick
          ((Access.putAccount account).program (.ofSettings settings))
      refine ⟨.putAccount account, state.2.tick, rfl, rfl, congrArg Prod.snd hrun, fun text htext => ?_⟩
      rw [hrun, Prod.map_fst] at htext
      obtain ⟨result, hresult, hprinted⟩ := Option.map_eq_some_iff.1 htext
      cases result with
      | error error => cases hprinted
      | ok reply => exact ⟨reply, hresult⟩
  | metadata =>
      let access := Access.editAccount id (.metadata metadata)
      have hrun : (AccountCommand.metadata id metadata).run backend settings state = _ :=
        Answer.run_one backend.perform (fun store => Scan.steps store.size) state.1 state.2
          (access.program (.ofSettings settings))
      refine ⟨access, state.2, rfl, rfl, congrArg Prod.snd hrun, fun text htext => ?_⟩
      rw [hrun, Prod.map_fst] at htext
      obtain ⟨result, hresult, hprinted⟩ := Option.map_eq_some_iff.1 htext
      cases result with
      | error error => cases hprinted
      | ok reply => exact ⟨reply, hresult⟩

/-- Commands about an account whose record cannot be read fail. -/
theorem run_of_unreadable {record : Record} {fault : Json.Fault}
    (hrow : (state.1.rows settings.accountTable).find? (backend.row Account id) = some record)
    (hfault : backend.reread record = .error fault) (hsubject : command.subject? = some id) :
    (command.run backend settings state).1 = some (.error (.pool (.store (.unreadable fault)))) := by
  have hrun (access : Access) (h : access.account? = some id) (time : Clock) :=
    Access.run_of_unreadable hrow hfault h (fun store => Scan.steps store.size) time
  have hedit (edit : AccountEdit) := Answer.one_gives (hrun (.editAccount id edit) rfl state.2)
  cases command with
  | get =>
      cases hsubject
      exact Answer.found_gives (hrun (.getAccount id) rfl state.2) .account id
  | put _ status roleArn metadata =>
      cases hsubject
      exact Answer.optional_gives (hrun (.putAccount
        { id, status, roleArn, metadata, lastModifiedOn := state.2.now }) rfl state.2.tick)
  | metadata _ metadata =>
      cases hsubject
      exact hedit (.metadata metadata)
  | transition _ previous next =>
      cases hsubject
      exact hedit (.status previous next)
  | policyHash _ previous next =>
      cases hsubject
      exact hedit (.policyHash previous next)
  | delete =>
      cases hsubject
      exact Answer.one_gives (hrun (.deleteAccount id) rfl state.2)
  | list | ready | resetCandidates | status | principal => cases hsubject

/-- The accounts are not listed if the record of one of them cannot be read. -/
theorem run_list_of_unreadable {row : Key} {record : Record} {fault : Json.Fault}
    (hlead : ∀ row ∈ (state.1.rows (Pool.ofSettings settings).accounts.name).entries,
      backend.LeadsBack (Pool.ofSettings settings).accounts row.1)
    (hrow : (state.1.rows settings.accountTable).find? row = some record)
    (hfault : backend.reread record = .error fault) :
    ∃ fault, (AccountCommand.list.run backend settings state).1 =
      some (.error (.pool (.store (.unreadable fault)))) := by
  have hmem : (row, record) ∈ (state.1.rows (Pool.ofSettings settings).accounts.name).entries :=
    SortedMap.mem_entries_iff.2 hrow
  obtain ⟨fault, hread⟩ := Backend.exists_readAll_error hmem hfault
  have hrun := Pool.run_scanWhere (α := Account) (.ofSettings settings) hlead (fun _ => true) state.2
  rw [hread] at hrun
  exact ⟨fault, Answer.all_gives (congrArg Prod.fst hrun)⟩

end AccountCommand

/-! ## Metadata within the limit and beyond -/

/-- After an access that gives an account its metadata, the account is there with the metadata. -/
theorem Inventory.exists_metadata {inventory : Inventory} {access : Access} {id : String}
    {metadata : Json.Members} {now : Int64}
    (hmetadata : (Operation.one access).metadata? = some metadata) (h : access.account? = some id)
    {reply : access.Reply} (hreply : (inventory.perform now access).1 = .ok reply) :
    ∃ account, (inventory.perform now access).2.accounts.find? id = some account ∧
      account.metadata = metadata := by
  cases access with
  | putAccount account =>
      cases hmetadata
      cases h
      exact ⟨account, SortedMap.find?_insert_self _ _ _, rfl⟩
  | editAccount id edit =>
      cases edit with
      | metadata members =>
          cases hmetadata
          cases h
          cases haccount : inventory.accounts.find? id with
          | none =>
              rw [Inventory.perform, haccount] at hreply
              cases hreply
          | some account =>
              rw [Inventory.perform_editAccount haccount rfl]
              exact ⟨_, SortedMap.find?_insert_self _ _ _, rfl⟩
      | status | policyHash => cases hmetadata
  | getAccount | deleteAccount | getLease | putLease | moveLease | deleteLease => cases hmetadata

section Metadata

variable {backend : Backend} {limit : Nat} (hreads : backend.ReadsTo limit)
  (hbackend : backend.Provided) {settings : PoolSettings}
  (hnames : settings.accountTable ≠ settings.leaseTable) (fuel : Store → Nat) (clock : Clock)
  (operations : List Operation) {id : String} {metadata : Json.Members} {command : AccountCommand}
  (hwrites : command.Writes id metadata) {text : Value}

include hreads hbackend hnames hwrites

/-- An account with metadata that is less deep than the limit is served, if all metadata that was filed
before is less deep, too. -/
theorem AccountCommand.Writes.served (hpos : 0 < limit)
    (hfits : ∀ operation ∈ operations, operation.Fits limit)
    (hdepth : (Value.ofMembers metadata).depth < limit) :
    let before := Operation.after backend fuel (.ofSettings settings) ({}, clock) operations
    (command.run backend settings before).1 = some (.ok text) →
      ∃ account : Account, account.id = id ∧ account.metadata = metadata ∧
        account.Served backend settings (command.run backend settings before).2 := by
  intro before htext
  obtain ⟨access, time, hmetadata, hsubject, hstate, hprinted⟩ :=
    hwrites.exists_access backend settings before
  obtain ⟨reply, hreply⟩ := hprinted text htext
  -- No record was deeper than the limit at any time before, so the store represents the machine's entities.
  have hwithin (part : List Operation) (hpart : part <+: operations) (name : String) (row : Key) :
      (Operation.after backend fuel (.ofSettings settings) ({}, clock) part).1.RowWithin limit name row :=
    Operation.rowWithin_after hreads hpos (fun operation hmem => hfits operation (hpart.subset hmem))
      fuel clock (Store.rowWithin_empty limit) name row
  have hread (part : List Operation) (hpart : part <+: operations) :=
    Backend.readsBack_of_rowWithin hreads (hwithin part hpart)
  have hempty : Represents backend settings {} (TypedPool.inventory ⟨{}, clock⟩) := .empty _ _
  have hrepresents := (hempty.after hbackend hnames fuel operations hread).1
  obtain ⟨next, hrun, hnext⟩ := hrepresents.run_access hbackend hnames
    (hread operations List.prefix_rfl) (fun store => Scan.steps store.size) time access
  -- The access files the metadata, which is within the limit, too.
  have hfitting : ∀ operation ∈ [Operation.one access], operation.Fits limit := by
    intro operation hmem found hfound
    rw [List.mem_singleton.1 hmem, hmetadata] at hfound
    cases hfound
    exact hdepth
  have hlast : next.ReadsBack backend := by
    refine Backend.readsBack_of_rowWithin hreads fun name row => ?_
    have hone : (Operation.after backend (fun store => Scan.steps store.size) (.ofSettings settings)
        (before.1, time) [.one access]).1.RowWithin limit name row :=
      Operation.rowWithin_after hreads hpos hfitting _ time (hwithin operations List.prefix_rfl) name
        row
    rw [Operation.after, Operation.after, Operation.program, hrun] at hone
    exact hone
  rw [hrun] at hreply hstate
  obtain ⟨account, haccount, hsame⟩ :=
    Inventory.exists_metadata hmetadata hsubject (Option.some.inj hreply)
  obtain rfl : account.id = id := hnext.accounts.label_eq haccount
  rw [hstate]
  exact ⟨account, rfl, hsame, hnext.served hbackend hnames hlast haccount _⟩

/-- An account with metadata as deep as the limit or deeper is stuck: whatever operations follow, the commands
about it fail, and so does the listing of accounts. -/
theorem AccountCommand.Writes.stuck (hpos : 1 < limit)
    (hdepth : limit ≤ (Value.ofMembers metadata).depth) :
    let pool := Pool.ofSettings settings
    let before := Operation.after backend fuel pool ({}, clock) operations
    (command.run backend settings before).1 = some (.ok text) →
      ∀ (later : List Operation) (other : AccountCommand), other = .list ∨ other.subject? = some id →
        ∃ fault, (other.run backend settings
          (Operation.after backend fuel pool (command.run backend settings before).2 later)).1 =
            some (.error (.pool (.store (.unreadable fault)))) := by
  intro pool before htext later other hother
  obtain ⟨access, time, hmetadata, hsubject, hstate, hprinted⟩ :=
    hwrites.exists_access backend settings before
  obtain ⟨reply, hreply⟩ := hprinted text htext
  obtain ⟨record, hholds, hrow⟩ := Access.exists_holds_metadata hmetadata hsubject _ time hreply
  have hdeep : limit < record.toValue.depth := by
    obtain hget | ⟨-, rfl⟩ := hholds
    · exact Nat.lt_of_le_of_lt hdepth (Record.depth_lt_of_get? hget)
    · exact absurd hpos (Nat.not_lt_of_le hdepth)
  obtain ⟨fault, hfault⟩ := hreads.deep record hdeep
  rw [← hstate] at hrow
  let after := (command.run backend settings before).2
  have hstuck : ((Operation.after backend fuel pool after later).1.rows settings.accountTable).find?
      (backend.row Account id) = some record :=
    Operation.find?_after_of_unreadable hrow hfault fuel after.2 later
  obtain rfl | habout := hother
  · -- The access before and the operations after keep every row at a key of its table.
    have hone := (Operation.addressedBy_after backend settings fuel clock operations).after
      (fun store => Scan.steps store.size) time [.one access]
    rw [Operation.after, Operation.after, Operation.program, ← hstate] at hone
    have hlead := (hone.after fuel after.2 later).leadsBack hbackend (.inl rfl) (.inr (.inl hnames))
    exact AccountCommand.run_list_of_unreadable hlead hstuck hfault
  · exact ⟨fault, AccountCommand.run_of_unreadable hstuck hfault habout⟩

end Metadata

/-! ## Nested arrays -/

/-- The characters of metadata that holds arrays nested in one another. -/
def nestedChars (arrays : Nat) : List Char :=
  "\x7b\"a\":".toList ++ List.replicate arrays '[' ++ List.replicate arrays ']' ++ ['\x7d']

/-- A first account that is put in a store is filed, whatever its metadata is. -/
theorem AccountCommand.run_put_empty (backend : Backend) (settings : PoolSettings) (clock : Clock)
    (id : String) (status : AccountStatus) (roleArn : Option String) (metadata : Json.Members) :
    let account : Account := { id, status, roleArn, metadata, lastModifiedOn := clock.now }
    (AccountCommand.put id status roleArn metadata).run backend settings ({}, clock) =
      (some (.ok .null), Backend.write {} (Pool.accountTable settings.accountTable)
        (backend.row Account id) (.ofEntity account), clock.tick) := by
  intro account
  have hempty := Files.empty (α := Account) backend settings.accountTable
  obtain ⟨current, hfound, hperform⟩ :=
    hempty.perform_put (Store.readsBack_empty backend) account
  cases hfound
  have hrun := Program.run_call hperform (fun store => Scan.steps store.size)
    (fun answer => .done (Pool.lift answer (Pool.decode? (α := Account)
      (Pool.ofSettings settings).accounts))) clock.tick
  refine (Answer.run_optional backend.perform (fun store => Scan.steps store.size) {} clock.tick
    ((Pool.ofSettings settings).putAccount account)).trans ?_
  exact congrArg (Prod.map (Option.map _) fun rest => rest) hrun

/-- Metadata is accepted if an object is read from its characters. -/
theorem Arguments.parseMetadata_of_object? {chars : List Char} {members : List (String × Value)}
    (h : Json.Reader.object? chars = some members) :
    parseMetadata (String.ofList chars) = .ok (.ofList members) := by
  rw [parseMetadata, Value.parse_of_object? h]

/-- The account that is put with nested metadata. -/
def nestedAccount (metadata : Json.Members) : Account :=
  { id := "1", status := .ready, metadata, lastModifiedOn := 7 }

/-- A database reads a record back from its text. -/
theorem Backend.reread_database : Backend.database.reread = Backend.ofText :=
  rfl

/-- Metadata with 126 arrays can be read, but the record of an account with it cannot. -/
theorem exists_nested_unreadable :
    ∃ metadata, Arguments.parseMetadata (String.ofList (nestedChars 126)) = .ok metadata ∧
      ∃ fault, Backend.database.reread (.ofEntity (nestedAccount metadata)) = .error fault := by
  let stored (members : List (String × Value)) : List Char :=
    (Record.ofEntity (nestedAccount (.ofList members))).toValue.compactChars
  have hcheck : (Json.Reader.object? (nestedChars 126)).map (fun members =>
      (Json.Reader.document ⟨stored members, 0⟩).toOption.isNone) = some true := by decide +kernel
  obtain ⟨members, hread, hnone⟩ := Option.map_eq_some_iff.1 hcheck
  refine ⟨.ofList members, Arguments.parseMetadata_of_object? hread, ?_⟩
  cases hstored : Json.Reader.document ⟨stored members, 0⟩ with
  | ok found =>
      rw [hstored] at hnone
      cases hnone
  | error stop =>
      obtain ⟨fault, hfault⟩ := Value.exists_parse_ofList_error hstored
      refine ⟨fault, ?_⟩
      rw [Backend.reread_database, Backend.ofText, Value.compact, hfault]

/-- The reader of a database on the records of nested accounts: those of at most `Json.Reader.maxDepth` levels
are read as they were filed, and deeper ones are refused as their texts are. -/
def nestedReader (record : Record) : Except Json.Fault Record :=
  if record.toValue.depth ≤ Json.Reader.maxDepth then .ok record
  else
    match Backend.ofText record with
    | .ok _ => .error ⟨.tooDeep, none⟩
    | .error fault => .error fault

/-- Metadata with one array or with 126 of them can be read and has one level more. -/
theorem exists_nested {arrays : Nat} (harrays : arrays ∈ [1, 126]) :
    ∃ metadata, Arguments.parseMetadata (String.ofList (nestedChars arrays)) = .ok metadata ∧
      (Value.ofMembers metadata).depth = arrays + 1 := by
  have hcheck : ∀ arrays ∈ [1, 126], (Json.Reader.object? (nestedChars arrays)).map (fun members =>
      (Value.ofMembers (.ofList members)).depth) = some (arrays + 1) := by decide +kernel
  obtain ⟨members, hread, hdepth⟩ := Option.map_eq_some_iff.1 (hcheck arrays harrays)
  exact ⟨.ofList members, Arguments.parseMetadata_of_object? hread, hdepth⟩

/-! ## Accepted writes -/

/-- In a database that reads what a document may have, a record that was accepted is given back and its row
stays open to writes exactly if it is no deeper than a document may be; a deeper record shuts its row. All
metadata that is accepted on the command line is no deeper than a document may be. After a command has given
it to an account, the account is served if it is less deep than that; else its record is too deep, and neither
is the account got, replaced or removed, nor are the accounts listed. -/
theorem accepted_write_by_depth {reread : Record → Except Json.Fault Record}
    {candidate : Option Value → Value → Bool}
    (hreads : (Backend.databaseWith reread candidate).ReadsTo Json.Reader.maxDepth) :
    let backend := Backend.databaseWith reread candidate
    (∀ (store next : Store) (request : Request) (reply : request.Reply) (record : Record),
      backend.perform store request = (.ok reply, next) → request.written? reply = some record →
      ∃ key, request.target? = some key ∧
        (record.toValue.depth ≤ Json.Reader.maxDepth →
          backend.Serves Json.Reader.maxDepth request.table.name (backend.address key) record next) ∧
        (Json.Reader.maxDepth < record.toValue.depth →
          ∃ fault, backend.Shuts request.table.name (backend.address key) fault next)) ∧
    ∀ (text : String) (metadata : Json.Members), Arguments.parseMetadata text = .ok metadata →
      (Value.ofMembers metadata).depth ≤ Json.Reader.maxDepth ∧
      ∀ settings : PoolSettings, settings.accountTable ≠ settings.leaseTable →
      ∀ (fuel : Store → Nat) (clock : Clock) (operations : List Operation) (id : String)
        (command : AccountCommand) (printed : Value), command.Writes id metadata →
      let pool := Pool.ofSettings settings
      let before := Operation.after backend fuel pool ({}, clock) operations
      let after := (command.run backend settings before).2
      (command.run backend settings before).1 = some (.ok printed) →
      ((Value.ofMembers metadata).depth < Json.Reader.maxDepth →
        (∀ operation ∈ operations, operation.Fits Json.Reader.maxDepth) →
        ∃ account : Account, account.id = id ∧ account.metadata = metadata ∧
          account.Served backend settings after) ∧
      ((Value.ofMembers metadata).depth = Json.Reader.maxDepth →
        ∀ (later : List Operation) (other : AccountCommand), other = .list ∨ other.subject? = some id →
          ∃ fault, (other.run backend settings (Operation.after backend fuel pool after later)).1 =
            some (.error (.pool (.store (.unreadable fault))))) := by
  intro backend
  have hpos : 1 < Json.Reader.maxDepth := by decide
  have hbackend : backend.Provided := .database reread candidate
  refine ⟨fun store next request reply record hperform hwritten => ?_, fun text metadata hparse => ?_⟩
  · obtain ⟨key, hkey, hrow⟩ := Backend.find?_of_written hperform hwritten
    exact ⟨key, hkey, Backend.serves_of_depth_le hreads (Nat.lt_of_succ_lt hpos) hrow,
      Backend.shuts_of_depth_gt hreads hrow⟩
  · refine ⟨Arguments.depth_parseMetadata_le hparse, ?_⟩
    intro settings hnames fuel clock operations id command printed hwrites pool before after hprinted
    refine ⟨fun hdepth hfits => ?_, fun hdepth later other hother => ?_⟩
    · exact hwrites.served hreads hbackend hnames fuel clock operations (Nat.lt_of_succ_lt hpos) hfits
        hdepth hprinted
    · exact hwrites.stuck hreads hbackend hnames fuel clock operations hpos (Nat.le_of_eq hdepth.symm)
        hprinted later other hother

/-- A record without nesting is given back. An account whose metadata has an array is got after it was put,
and one whose metadata has 126 nested arrays is not. -/
theorem accepted_write_by_depth_nested :
    let backend := Backend.databaseWith nestedReader Backend.columnMatches
    let table : Table := { name := "Things", partition := "Id" }
    let record := Record.empty.insert "Id" (.string "1")
    let get (metadata : Json.Members) :=
      ((AccountCommand.get "1").run backend {}
        ((AccountCommand.put "1" .ready none metadata).run backend {} ({}, ⟨7, 1⟩)).2).1
    (backend.perform (backend.perform {} (.put table record none)).2 (.get table ⟨"1", none⟩)).1 =
      .ok (some record) ∧
    (∃ (metadata : Json.Members) (account : Account),
      Arguments.parseMetadata (String.ofList (nestedChars 1)) = .ok metadata ∧
        account.metadata = metadata ∧ get metadata = some (.ok (Entity.toValue account))) ∧
    ∃ (metadata : Json.Members) (fault : Json.Fault),
      Arguments.parseMetadata (String.ofList (nestedChars 126)) = .ok metadata ∧
        get metadata = some (.error (.pool (.store (.unreadable fault)))) := by
  intro backend table record get
  have hreads : backend.ReadsTo Json.Reader.maxDepth := by
    refine ⟨fun record hdepth => if_pos hdepth, fun record hdepth => ?_⟩
    show ∃ fault, nestedReader record = .error fault
    rw [nestedReader, if_neg (Nat.not_le_of_lt hdepth)]
    split <;> exact ⟨_, rfl⟩
  obtain ⟨hstore, hcommand⟩ := accepted_write_by_depth hreads
  have hnames : ({} : PoolSettings).accountTable ≠ ({} : PoolSettings).leaseTable := by decide
  have hfile (metadata : Json.Members) : ((AccountCommand.put "1" .ready none metadata).run backend {}
      ({}, ⟨7, 1⟩)).1 = some (.ok .null) :=
    congrArg Prod.fst (AccountCommand.run_put_empty backend {} ⟨7, 1⟩ "1" .ready none metadata)
  refine ⟨?_, ?_, ?_⟩
  · have hid : record.getText? "Id" = some "1" :=
      Record.getText?_of_get? (Record.get?_insert_self _ _ _)
    have hkey : table.keyOf record = .ok ⟨"1", none⟩ := by
      simp only [Table.keyOf, Table.keyAttribute, table, hid]
      rfl
    have hput := Backend.perform_put (Store.readsBack_empty backend) hkey rfl none
    obtain ⟨key, htarget, hserves, -⟩ := hstore {} _ (.put table record none) none record hput rfl
    obtain rfl : ⟨"1", none⟩ = key :=
      Option.some.inj ((congrArg Except.toOption hkey).symm.trans htarget)
    have hdepth : record.toValue.depth ≤ Json.Reader.maxDepth := by decide +kernel
    rw [hput]
    exact (hserves hdepth).get table ⟨"1", none⟩ rfl rfl
  · obtain ⟨metadata, hparse, hdepth⟩ := exists_nested (by simp : 1 ∈ [1, 126])
    obtain ⟨account, hid, hsame, hserved⟩ := ((hcommand _ metadata hparse).2 {} hnames Store.size ⟨7, 1⟩
      [] "1" _ .null (.put .ready none) (hfile metadata)).1 (by rw [hdepth]; decide) (by simp)
    have hget := hserved.get
    rw [hid] at hget
    exact ⟨metadata, account, hparse, hsame, hget⟩
  · obtain ⟨metadata, hparse, hdepth⟩ := exists_nested (by simp : 126 ∈ [1, 126])
    obtain ⟨fault, hfault⟩ := ((hcommand _ metadata hparse).2 {} hnames Store.size ⟨7, 1⟩ [] "1" _ .null
      (.put .ready none) (hfile metadata)).2 hdepth [] (.get "1") (.inr rfl)
    exact ⟨metadata, fault, hparse, hfault⟩

/-- Metadata with 126 arrays is accepted and put in a database, but then every command about the account
fails, be it to get the account, to put it again or to remove it. -/
theorem accountsPut_unreadable :
    ∃ metadata, Arguments.parseMetadata (String.ofList (nestedChars 126)) = .ok metadata ∧
      let put := (AccountCommand.put "1" .ready none metadata).run .database {} ({}, ⟨7, 1⟩)
      put.1 = some (.ok .null) ∧
      ∀ command : AccountCommand, command.subject? = some "1" →
        ∃ fault, (command.run .database {} put.2).1 =
          some (.error (.pool (.store (.unreadable fault)))) := by
  obtain ⟨metadata, hparse, fault, hfault⟩ := exists_nested_unreadable
  refine ⟨metadata, hparse, ?_⟩
  rw [AccountCommand.run_put_empty .database {} ⟨7, 1⟩ "1" .ready none metadata]
  refine ⟨rfl, fun command hsubject => ⟨fault, ?_⟩⟩
  refine AccountCommand.run_of_unreadable ?_ hfault hsubject
  rw [Backend.find?_write, if_pos ⟨rfl, rfl⟩]
  rfl

end AccountPool
