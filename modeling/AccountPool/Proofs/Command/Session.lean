import AccountPool.Command.Session
import AccountPool.Proofs.Command.ExitCodes
import AccountPool.Proofs.Database.Faults
import AccountPool.Proofs.Database.Stored

/-!
# Exit codes of sessions

A database that was only ever used by sessions with the same two tables shows an inventory, whatever their
arguments were: `Session.Reachable.shows`. So the exit code of the next session tells what was there, and
unless it is 0 the rows stay: `Session.code_iff_of_reachable`.
-/

namespace AccountPool

open Json (Value)

/-! ## Metadata that is filed -/

/-- The operation of a command files the metadata of the command. -/
theorem Command.metadata?_operation {command : Command} {now : Int64} {operation : Operation}
    (h : command.operation? now = some operation) : operation.metadata? = command.metadata? := by
  cases command with
  | help => cases h
  | accounts command => cases h; cases command <;> rfl
  | leases command => cases h; cases command <;> rfl

/-- A command but a call for help stands for an operation. -/
theorem Command.exists_operation {command : Command} (h : command ≠ .help) (now : Int64) :
    ∃ operation, command.operation? now = some operation := by
  cases command with
  | help => exact absurd rfl h
  | accounts command => exact ⟨_, rfl⟩
  | leases command => exact ⟨_, rfl⟩

/-- The metadata that a command files can be read back with its record. -/
def Command.Shallow (command : Command) : Prop :=
  ∀ metadata, command.metadata? = some metadata → (Value.ofMembers metadata).depth ≤ 126

namespace Session

/-! ## Sessions that open a database -/

/-- The settings of the pool, the database that they name and the file system after it is opened, if the
settings resolve and the database opens. -/
def opened? (surroundings : Surroundings) (named : Option String) :
    Option (PoolSettings × Database × FileTree) := do
  let settings ← (Session.settings surroundings named).toOption
  match settings.place with
  | .memory => none
  | .database path busyTimeout =>
      let (database, files) := connect path busyTimeout surroundings.files
      database.toOption.map (settings.pool, ·, files)

/-- A database that opens was connected. -/
theorem exists_connect_of_opened? {surroundings : Surroundings} {named : Option String}
    {pool : PoolSettings} {database : Database} {files : FileTree}
    (h : opened? surroundings named = some (pool, database, files)) :
    ∃ settings path busyTimeout, Session.settings surroundings named = .ok settings ∧
      settings.pool = pool ∧ settings.place = .database path busyTimeout ∧
      connect path busyTimeout surroundings.files = (.ok database, files) := by
  unfold opened? at h
  cases hsettings : Session.settings surroundings named with
  | error failure =>
      rw [hsettings] at h
      cases h
  | ok settings =>
      rw [hsettings] at h
      change (match settings.place with | .memory => none | .database path busyTimeout => _) = _ at h
      split at h
      · cases h
      · next path busyTimeout hplace =>
          cases hconnect : connect path busyTimeout surroundings.files with
          | mk result next =>
              rw [hconnect] at h
              cases result with
              | error failure => cases h
              | ok found =>
                  cases h
                  exact ⟨settings, path, busyTimeout, rfl, rfl, hplace, hconnect⟩

/-- A session works with two tables of the database at a place: the metadata that it files is shallow, the
database opens, and if it must not be changed then this is no fault for the session. Without a command the
database is not looked at. -/
def WorksWith (accountTable leaseTable : String) (place? : Option FilePlace)
    (surroundings : Surroundings) (arguments : List String) : Prop :=
  ∀ invocation, Invocation.parse arguments = .ok invocation → invocation.command ≠ .help →
    invocation.command.Shallow ∧
      ∃ pool database files, opened? surroundings invocation.config = some (pool, database, files) ∧
        pool.accountTable = accountTable ∧ pool.leaseTable = leaseTable ∧ database.place? = place? ∧
        (database.readOnly = true →
          ∀ fault, (result surroundings arguments).1 ≠ .error (.pool (.store (.engine fault))))

/-- A session works with the tables of a database that opens and may be changed. -/
theorem worksWith_of_opened? {accountTable leaseTable : String} {place? : Option FilePlace}
    {surroundings : Surroundings} {arguments : List String} {invocation : Invocation}
    (hparse : Invocation.parse arguments = .ok invocation) (hshallow : invocation.command.Shallow)
    (hopened : (opened? surroundings invocation.config).map (fun opened =>
      (opened.1.accountTable, opened.1.leaseTable, opened.2.1.place?, opened.2.1.readOnly)) =
        some (accountTable, leaseTable, place?, false)) :
    WorksWith accountTable leaseTable place? surroundings arguments := by
  intro found hfound _
  rw [hparse] at hfound
  cases hfound
  obtain ⟨⟨pool, database, files⟩, hfiles, hsame⟩ := Option.map_eq_some_iff.1 hopened
  simp only [Prod.mk.injEq] at hsame
  obtain ⟨haccounts, hleases, hplace, hwritable⟩ := hsame
  refine ⟨hshallow, pool, database, files, hfiles, haccounts, hleases, hplace, fun hreadOnly => ?_⟩
  rw [hwritable] at hreadOnly
  cases hreadOnly

/-- The rows that sessions with the same two tables leave behind in a database that had none at first. -/
inductive Reachable (accountTable leaseTable : String) : Store → Prop where
  | empty : Reachable accountTable leaseTable {}
  | run {place? : Option FilePlace} {surroundings : Surroundings} {arguments : List String}
      (hbefore : Reachable accountTable leaseTable (surroundings.files.stored place?))
      (hworks : WorksWith accountTable leaseTable place? surroundings arguments) :
      Reachable accountTable leaseTable ((Session.run surroundings arguments).2.stored place?)

/-! ## Databases of sessions -/

/-- A database that is connected has the rows that are stored at its place, and they are still there. -/
theorem connect_stored {path : String} {busyTimeout : Nat} {files next : FileTree} {database : Database}
    (h : connect path busyTimeout files = (.ok database, next)) :
    database.content.store = files.stored database.place? ∧
      ∀ place, database.place? = some place → next.Holds place database.content.store := by
  have hkept := ((FileAction.prepareDatabase_keeps path).andThen fun _ =>
    FileAction.openDatabase_keeps path) files (.refl files)
  unfold connect at h
  dsimp only at h
  split at h
  · cases h
  · next opened opening hopened =>
      rw [hopened] at hkept
      split at h
      · cases h
      · cases hconnect : Database.connect opened opening with
        | mk result last =>
            rw [hconnect] at h
            cases result with
            | error error => cases h
            | ok found =>
                cases h
                obtain ⟨hstore, hholds⟩ := Database.connect_stored hconnect
                refine ⟨hstore.trans ?_, hholds⟩
                cases database.place? with
                | none => rfl
                | some place => exact hkept.1 place

/-- After a session the rows are those from before or, if the database may be changed, those that the
command left. -/
theorem stored_close {files : FileTree} {database after : Database} {store : Store}
    (hholds : ∀ place, database.place? = some place → files.Holds place store)
    (hnone : database.place? = none → store = {}) (hfile : after.file = database.file) :
    (after.close files).2.stored database.place? = store ∨
      after.readOnly = false ∧ (after.close files).2.stored database.place? = after.content.store := by
  cases hplace : database.place? with
  | none => exact .inl (hnone hplace).symm
  | some place =>
      have hclose := Database.close_stored (show after.place? = some place by
        rw [← hplace, Database.place?, Database.place?, hfile]) (hholds place hplace)
      change FileTree.storeAt _ place = _ ∨ _ ∧ FileTree.storeAt _ place = _
      rw [hclose]
      cases after.readOnly with
      | true => exact .inl rfl
      | false => exact .inr ⟨rfl, rfl⟩

/-! ## Commands on open databases -/

/-- What a command comes to with a database that shows an inventory: it ends as the inventory tells, the
database shows some inventory afterwards, and unless the exit code is 0 its rows stay. -/
structure Answers (pool : PoolSettings) (inventory : Inventory) (command : Command) (database : Database)
    (result : Except Failure String) (after : Database) : Prop where
  ends : command.EndsWith inventory.accounts.find? inventory.lease? (exitCode result)
  file : after.file = database.file
  readOnly : after.readOnly = database.readOnly
  shows : database.readOnly = false → ∃ seen, Shows pool after.content.store seen
  rows : exitCode result ≠ 0 → after.content.store.rows = database.content.store.rows

section Execute

variable {command : Command} {pool : PoolSettings} {database : Database} {clock : Clock}

/-- A command that is answered prints the result of its operation. -/
theorem execute_eq {after : Database} {start last : Clock} {operation : Operation}
    {outcome : Program.Result operation.Reply}
    (hanswer : (command.answer (.ofSettings pool)).run Database.perform
        (fun database => Scan.steps database.size) database clock =
      ((operation.program (.ofSettings pool)).run Database.perform
        (fun database => Scan.steps database.size) database start).map
          (Option.map operation.printed) id)
    (hrun : (operation.program (.ofSettings pool)).run Database.perform
        (fun database => Scan.steps database.size) database start = (some outcome, after, last)) :
    execute pool command database clock = ((operation.printed outcome).map Value.indented, after) := by
  rw [hrun] at hanswer
  unfold execute
  dsimp only
  rw [hanswer]
  rfl

/-- A command is answered, unless a database that must not be changed reports a fault. -/
theorem execute_of_shows (hcommand : command ≠ .help) (hlegible : ∀ operation,
      command.operation? clock.now = some operation → operation.Legible)
    (hnames : pool.accountTable ≠ pool.leaseTable) {inventory : Inventory}
    (hshows : Shows pool database.content.store inventory) :
    (database.readOnly = true ∧ ∃ fault,
        (execute pool command database clock).1 = .error (.pool (.store (.engine fault)))) ∨
      Answers pool inventory command database (execute pool command database clock).1
        (execute pool command database clock).2 := by
  obtain ⟨operation, hoperation⟩ := Command.exists_operation hcommand clock.now
  obtain ⟨start, hanswer⟩ := Command.run_answer Database.perform
    (fun database => Scan.steps database.size) (.ofSettings pool) database clock hoperation
  obtain ⟨outcome, next, seen, last, hrun, hanswered, hnext⟩ :=
    hshows.run_operation hnames (hlegible operation hoperation) start
  obtain ⟨hreadOnly, fault, hfault⟩ | ⟨_, after, _, _, hfile, hsame, hafterReadOnly, hafterFile, hafter⟩ :=
    (operation.stops (.ofSettings pool)).run database start
  · refine .inl ⟨hreadOnly, fault, ?_⟩
    rw [execute_eq hanswer (Prod.ext hfault rfl), Operation.failed, Operation.printed_error]
    rfl
  · -- The database gives what its store gives.
    rw [hrun] at hsame
    cases hsame
    refine .inr ?_
    rw [execute_eq hanswer hfile]
    refine ⟨?_, hafterFile, hafterReadOnly, fun hwritable => ⟨seen, hafter hwritable ▸ hnext⟩, fun hne => ?_⟩
    · rw [exitCode_map]
      exact Command.endsWith hshows.labelled hoperation hanswered
    · rw [exitCode_map] at hne
      have hrows := Database.careful.rows_run (operation.spares_refuses (.ofSettings pool))
        (fun database => Scan.steps database.size) (congrArg Prod.fst hfile)
        ⟨hanswered.decodes, exists_failure_of_exitCode_ne hne⟩
      exact (congrArg (fun state => state.2.1.content.store.rows) hfile).symm.trans hrows

end Execute

/-! ## One session -/

section Run

variable {surroundings : Surroundings} {arguments : List String} {invocation : Invocation}

/-- Metadata that was accepted on the command line can be read back if it is shallow. -/
theorem legible_operation (hparse : Invocation.parse arguments = .ok invocation)
    (hshallow : invocation.command.Shallow) {now : Int64} {operation : Operation}
    (h : invocation.command.operation? now = some operation) : operation.Legible := by
  intro metadata hmetadata
  rw [Command.metadata?_operation h] at hmetadata
  exact ⟨Arguments.sound_invocation hparse metadata hmetadata,
    Nat.lt_succ_of_le (hshallow metadata hmetadata)⟩

/-- What a session comes to is what its command comes to with the database that opens. -/
theorem result_of_opened? (hparse : Invocation.parse arguments = .ok invocation)
    (hcommand : invocation.command ≠ .help) {pool : PoolSettings} {database : Database} {files : FileTree}
    (hopened : opened? surroundings invocation.config = some (pool, database, files)) :
    result surroundings arguments =
      ((execute pool invocation.command database surroundings.clock).1,
        ((execute pool invocation.command database surroundings.clock).2.close files).2) := by
  obtain ⟨settings, path, busyTimeout, hsettings, rfl, hplace, hconnect⟩ := exists_connect_of_opened? hopened
  unfold result
  rw [hparse]
  split
  · next herror => cases herror
  · next hhelp =>
      cases hhelp
      exact absurd rfl hcommand
  · next hcommand =>
      cases hcommand
      rw [hsettings]
      simp only [runCommand, hplace, hconnect]

/-- The session of a command ends as the accounts and leases in the database tell, the database shows some
inventory afterwards, and unless the exit code is 0 its rows stay. -/
theorem run_of_shows (hparse : Invocation.parse arguments = .ok invocation)
    (hcommand : invocation.command ≠ .help) (hshallow : invocation.command.Shallow)
    {pool : PoolSettings} {database : Database} {files : FileTree}
    (hopened : opened? surroundings invocation.config = some (pool, database, files))
    (hfaults : database.readOnly = true →
      ∀ fault, (result surroundings arguments).1 ≠ .error (.pool (.store (.engine fault))))
    (hnames : pool.accountTable ≠ pool.leaseTable) {inventory : Inventory}
    (hshows : Shows pool (surroundings.files.stored database.place?) inventory) :
    let before := surroundings.files.stored database.place?
    let ended := Session.run surroundings arguments
    invocation.command.EndsWith (before.account? pool.accountTable) (before.lease? pool.leaseTable)
        ended.1.code ∧
      (∃ seen, Shows pool (ended.2.stored database.place?) seen) ∧
      (ended.1.code ≠ 0 → (ended.2.stored database.place?).rows = before.rows) := by
  obtain ⟨hstored, hholds⟩ : database.content.store = surroundings.files.stored database.place? ∧
      ∀ place, database.place? = some place → files.Holds place database.content.store := by
    obtain ⟨settings, path, busyTimeout, -, -, -, hconnect⟩ := exists_connect_of_opened? hopened
    exact connect_stored hconnect
  have hresult := result_of_opened? hparse hcommand hopened
  have hcode : (Session.run surroundings arguments).1.code =
      exitCode (execute pool invocation.command database surroundings.clock).1 := by
    show (Outcome.ofExcept (result surroundings arguments).1).code = _
    rw [hresult, Outcome.code_ofExcept]
  have hfiles : (Session.run surroundings arguments).2 =
      ((execute pool invocation.command database surroundings.clock).2.close files).2 := by
    show (result surroundings arguments).2 = _
    rw [hresult]
  rw [← hstored] at hshows
  obtain ⟨hreadOnly, fault, hfault⟩ | hanswers := execute_of_shows hcommand
    (fun operation => legible_operation hparse hshallow) hnames hshows
  · refine absurd ?_ (hfaults hreadOnly fault)
    rw [hresult]
    exact hfault
  dsimp only
  rw [hcode, hfiles, ← hstored, hshows.account?_eq, hshows.lease?_eq]
  refine ⟨hanswers.ends, ?_⟩
  obtain hkept | ⟨hwritable, hleft⟩ :=
    stored_close hholds (fun hnone => by rw [hstored, hnone]; rfl) hanswers.file
  · rw [hkept]
    exact ⟨⟨inventory, hshows⟩, fun _ => rfl⟩
  · rw [hleft]
    exact ⟨hanswers.shows (hanswers.readOnly ▸ hwritable), hanswers.rows⟩

/-- Arguments that do not parse are reported, and nothing happens. -/
theorem run_of_error (surroundings : Surroundings) {error : UsageError}
    (hparse : Invocation.parse arguments = .error error) :
    (Session.run surroundings arguments).1.code = 1 ∧
      (Session.run surroundings arguments).2 = surroundings.files := by
  unfold Session.run result
  rw [hparse]
  exact ⟨rfl, rfl⟩

/-- Help is given, and nothing happens. -/
theorem run_of_help (surroundings : Surroundings)
    (hparse : Invocation.parse arguments = .ok invocation) (hhelp : invocation.command = .help) :
    (Session.run surroundings arguments).1.code = 0 ∧
      (Session.run surroundings arguments).2 = surroundings.files := by
  obtain ⟨named, command⟩ := invocation
  obtain rfl : command = .help := hhelp
  unfold Session.run result
  rw [hparse]
  exact ⟨rfl, rfl⟩

end Run

/-! ## One session after the other -/

variable {accountTable leaseTable : String}

/-- A database that was only used by sessions with the same two tables shows an inventory. -/
theorem Reachable.shows (hnames : accountTable ≠ leaseTable) {store : Store}
    (h : Reachable accountTable leaseTable store) (pool : PoolSettings)
    (haccounts : pool.accountTable = accountTable) (hleases : pool.leaseTable = leaseTable) :
    ∃ inventory, Shows pool store inventory := by
  induction h generalizing pool with
  | empty => exact ⟨{}, .empty pool⟩
  | @run place? surroundings arguments hbefore hworks ih =>
      cases hparse : Invocation.parse arguments with
      | error error =>
          rw [(run_of_error surroundings hparse).2]
          exact ih pool haccounts hleases
      | ok invocation =>
          by_cases hcommand : invocation.command = .help
          · rw [(run_of_help surroundings hparse hcommand).2]
            exact ih pool haccounts hleases
          · obtain ⟨hshallow, used, database, files, hopened, rfl, rfl, rfl, hfaults⟩ :=
              hworks invocation hparse hcommand
            obtain ⟨inventory, hshows⟩ := ih used rfl rfl
            obtain ⟨-, ⟨seen, hseen⟩, -⟩ :=
              run_of_shows hparse hcommand hshallow hopened hfaults hnames hshows
            exact ⟨seen, hseen.of_names haccounts hleases⟩

/-- A session whose arguments parse ends as the accounts and leases in the database tell, and unless the
exit code is 0 its rows stay. -/
theorem endsWith_of_reachable (hnames : accountTable ≠ leaseTable) {place? : Option FilePlace}
    {surroundings : Surroundings} {arguments : List String}
    (hbefore : Reachable accountTable leaseTable (surroundings.files.stored place?))
    (hworks : WorksWith accountTable leaseTable place? surroundings arguments) {invocation : Invocation}
    (hparse : Invocation.parse arguments = .ok invocation) :
    let before := surroundings.files.stored place?
    let ended := Session.run surroundings arguments
    invocation.command.EndsWith (before.account? accountTable) (before.lease? leaseTable) ended.1.code ∧
      (ended.1.code ≠ 0 → (ended.2.stored place?).rows = before.rows) := by
  by_cases hcommand : invocation.command = .help
  · obtain ⟨hcode, hfiles⟩ := run_of_help surroundings hparse hcommand
    dsimp only
    rw [hcode, hcommand]
    exact ⟨.done id id id, fun hne => absurd rfl hne⟩
  · obtain ⟨hshallow, pool, database, files, hopened, rfl, rfl, rfl, hfaults⟩ :=
      hworks invocation hparse hcommand
    obtain ⟨inventory, hshows⟩ := hbefore.shows hnames pool rfl rfl
    obtain ⟨hends, -, hrows⟩ := run_of_shows hparse hcommand hshallow hopened hfaults hnames hshows
    exact ⟨hends, hrows⟩

/-- Exit codes of sessions tell what was there, and failures change nothing: 1 stands for arguments that do
not parse, 2 for what is absent, 3 for a change that is rejected, 4 for an account that is protected from
its removal, and 0 for all else; unless it is 0 the rows of all tables stay. -/
theorem code_iff_of_reachable (hnames : accountTable ≠ leaseTable) {place? : Option FilePlace}
    {surroundings : Surroundings} {arguments : List String}
    (hbefore : Reachable accountTable leaseTable (surroundings.files.stored place?))
    (hworks : WorksWith accountTable leaseTable place? surroundings arguments) :
    let before := surroundings.files.stored place?
    let account? := before.account? accountTable
    let lease? := before.lease? leaseTable
    let ended := Session.run surroundings arguments
    (ended.1.code = 1 ↔ ∃ error, Invocation.parse arguments = .error error) ∧
      (ended.1.code = 2 ↔ ∃ invocation, Invocation.parse arguments = .ok invocation ∧
        invocation.command.Lacks account? lease?) ∧
      (ended.1.code = 3 ↔ ∃ invocation, Invocation.parse arguments = .ok invocation ∧
        invocation.command.Rejects account? lease?) ∧
      (ended.1.code = 4 ↔ ∃ invocation, Invocation.parse arguments = .ok invocation ∧
        invocation.command.Protects account?) ∧
      (ended.1.code = 0 ↔ ∃ invocation, Invocation.parse arguments = .ok invocation ∧
        ¬ invocation.command.Lacks account? lease? ∧ ¬ invocation.command.Rejects account? lease? ∧
          ¬ invocation.command.Protects account?) ∧
      (ended.1.code ≠ 0 → (ended.2.stored place?).rows = before.rows) := by
  cases hparse : Invocation.parse arguments with
  | error error =>
      obtain ⟨hcode, hfiles⟩ := run_of_error surroundings hparse
      dsimp only
      rw [hcode, hfiles]
      simp
  | ok invocation =>
      obtain ⟨hends, hrows⟩ := endsWith_of_reachable hnames hbefore hworks hparse
      have hparsed (good : Invocation → Prop) : (∃ found, (.ok invocation : Except UsageError Invocation) =
          .ok found ∧ good found) ↔ good invocation := by simp
      dsimp only
      refine ⟨⟨fun hone => absurd hone hends.ne_one, fun ⟨_, herror⟩ => nomatch herror⟩, ?_, ?_, ?_, ?_,
        hrows⟩
      · rw [hparsed]
        exact hends.lacks_iff
      · rw [hparsed]
        exact hends.rejects_iff
      · rw [hparsed]
        exact hends.protects_iff
      · rw [hparsed]
        exact hends.done_iff

/-- After an account was put as leased, a session that is asked to remove it ends with 4, and the account
is still there. -/
theorem code_iff_of_reachable_leased :
    let environment : Environment := ⟨.ofList [(pathVariable, "/pool.db")]⟩
    let first : Surroundings := { files := {}, environment, home := "/", clock := ⟨5, 1⟩ }
    let put := ["accounts", "put", "1", "Leased"]
    let second : Surroundings := { first with files := (Session.run first put).2 }
    let remove := ["accounts", "delete", "1"]
    let before := second.files.stored (some ["pool.db"])
    let ended := Session.run second remove
    Reachable "Accounts" "Leases" before ∧ WorksWith "Accounts" "Leases" (some ["pool.db"]) second remove ∧
      (before.account? "Accounts" "1").map (·.status) = some .leased ∧ ended.1.code = 4 ∧
      (ended.2.stored (some ["pool.db"])).rows = before.rows := by
  intro environment first put second remove before ended
  have hput : Invocation.parse put = .ok ⟨none, .accounts (.put "1" .leased none {})⟩ := rfl
  have hremove : Invocation.parse remove = .ok ⟨none, .accounts (.delete "1")⟩ := rfl
  have hfirst : WorksWith "Accounts" "Leases" (some ["pool.db"]) first put := by
    refine worksWith_of_opened? hput ?_ (by decide +kernel)
    rintro metadata ⟨⟩
    decide
  have hsecond : WorksWith "Accounts" "Leases" (some ["pool.db"]) second remove :=
    worksWith_of_opened? hremove nofun (by decide +kernel)
  have hreachable : Reachable "Accounts" "Leases" before := .run .empty hfirst
  have hleased : (before.account? "Accounts" "1").map (·.status) = some .leased := by decide +kernel
  obtain ⟨-, -, -, hprotects, -, hrows⟩ := code_iff_of_reachable (by decide) hreachable hsecond
  obtain ⟨account, haccount, hstatus⟩ := Option.map_eq_some_iff.1 hleased
  have hcode : ended.1.code = 4 :=
    hprotects.2 ⟨_, hremove, account, haccount, hstatus⟩
  exact ⟨hreachable, hsecond, hleased, hcode, hrows fun hzero => absurd (hcode.symm.trans hzero) (by decide)⟩

end Session

end AccountPool
