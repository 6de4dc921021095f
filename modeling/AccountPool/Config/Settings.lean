import AccountPool.Config.Environment
import AccountPool.Config.Expansion
import AccountPool.Config.File
import AccountPool.Files.Path
import AccountPool.Pool.Settings

/-!
# Settings

The settings of a pool and its store follow from the configuration file and the environment. A
variable that is set wins over the file, and the file over the default. References to variables are
expanded in the path that the file names, and only there.
-/

namespace AccountPool

/-- A variable that overrides a setting. -/
abbrev accountTableVariable : String := "ACCOUNT_DB"

@[inherit_doc accountTableVariable] abbrev leaseTableVariable : String := "LEASE_DB"

@[inherit_doc accountTableVariable] abbrev pathVariable : String := "SANDPOOL_DB_PATH"

@[inherit_doc accountTableVariable] abbrev scanPageSizeVariable : String :=
  "SANDPOOL_SCAN_PAGE_SIZE"

@[inherit_doc accountTableVariable] abbrev busyTimeoutVariable : String :=
  "SANDPOOL_BUSY_TIMEOUT_MS"

/-- Where records are kept. -/
inductive StorePlace where
  | memory
  /-- A database file, and how long to wait while it is busy, in milliseconds. -/
  | database (path : String) (busyTimeout : Nat)
deriving DecidableEq, Repr

/-- The settings of a pool and its store. -/
structure Settings where
  pool : PoolSettings
  place : StorePlace
deriving DecidableEq, Repr

namespace Settings

/-- How long to wait for a busy database unless set otherwise, in milliseconds. -/
def defaultBusyTimeout : Nat := 5000

/-- The directory under a home directory for the configuration and the database. -/
def folder (home : String) : String :=
  Path.join home ".sandpool"

/-- The configuration file that is read if no other is named. -/
def defaultFile (home : String) : String :=
  Path.join (folder home) "config.toml"

/-- The database file that is used if no other is named. -/
def defaultDatabase (home : String) : String :=
  Path.join (folder home) "pool.db"

/-- The settings of the pool. -/
def poolSettings (file : ConfigFile) (environment : Environment) :
    Except ConfigError PoolSettings := do
  let defaults : PoolSettings := {}
  let tables := file.tables.getD {}
  let scanPageSize ← environment.count? scanPageSizeVariable
  pure {
    accountTable := environment.get accountTableVariable
      (tables.accounts.getD defaults.accountTable)
    leaseTable := environment.get leaseTableVariable (tables.leases.getD defaults.leaseTable)
    scanPageSize := max 1 ((scanPageSize <|> tables.scanPageSize).getD defaults.scanPageSize) }

/-- The path of the database file. -/
def databasePath (store : StoreSection) (environment : Environment) (home : String) : String :=
  match environment.value? pathVariable, store.path with
  | some path, _ => path
  | none, some path => expandReferences environment.expand path
  | none, none => defaultDatabase home

/-- The place of the records. -/
def storePlace (file : ConfigFile) (environment : Environment) (home : String) :
    Except ConfigError StorePlace := do
  let store := file.store.getD {}
  match store.kind.getD .database with
  | .memory => pure .memory
  | .database => do
      let busyTimeout ← environment.count? busyTimeoutVariable
      pure (.database (databasePath store environment home)
        ((busyTimeout <|> store.busyTimeout).getD defaultBusyTimeout))

/-- The settings that follow from a configuration file and the environment. -/
def resolve (file : ConfigFile) (environment : Environment) (home : String) :
    Except ConfigError Settings := do
  let pool ← poolSettings file environment
  let place ← storePlace file environment home
  pure { pool, place }

end Settings

end AccountPool
