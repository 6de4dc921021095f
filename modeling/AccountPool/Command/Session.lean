import AccountPool.Command.Answer
import AccountPool.Command.Arguments
import AccountPool.Config.Settings
import AccountPool.Database.Connection

/-!
# Sessions

A session is the run of one command: it reads the arguments, the configuration file and the
environment, opens the database, answers the command and closes the database. Everything that the
session can see is in its `Surroundings`, and what it leaves behind is the file system.
-/

namespace AccountPool

/-- What a command sees besides its arguments. -/
structure Surroundings where
  files : FileTree
  environment : Environment
  home : String
  clock : Clock

namespace Session

/-- Answer a command with a database; it is given back as the command leaves it. -/
def execute (settings : PoolSettings) (command : Command) (database : Database) (clock : Clock) :
    Except Failure String × Database :=
  let answer := command.answer (Pool.ofSettings settings)
  match answer.run Database.perform (fun database => Scan.steps database.size) database clock with
  | (some result, database, _) => (result.map Json.Value.indented, database)
  | (none, database, _) => (.error .endlessScan, database)

/-- The configuration that a command uses. One that it names has to be there; the default one need
not. -/
def configuration (files : FileTree) (home : String) (named : Option String) :
    Except Failure ConfigFile :=
  match named with
  | some path => (ConfigFile.load path (files.readText path)).mapError .config
  | none =>
      let path := Settings.defaultFile home
      if files.contains path then (ConfigFile.load path (files.readText path)).mapError .config
      else .ok {}

/-- Open the database at a path. The time to wait is looked at when its file is open. -/
def connect (path : String) (busyTimeout : Nat) (files : FileTree) :
    Except Failure Database × FileTree :=
  let openFile : FileAction OpenedDatabase := do
    FileAction.prepareDatabase path
    FileAction.openDatabase path
  match openFile files with
  | (.error error, files) => (.error (.unopened path error), files)
  | (.ok opened, files) =>
      if Database.maxBusyTimeout < busyTimeout then (.error (.busyTimeout busyTimeout), files)
      else
        let (database, files) := Database.connect opened files
        (database.mapError (.unopened path), files)

/-- Run a command against the database that the settings name. -/
def runCommand (settings : Settings) (command : Command) (files : FileTree) (clock : Clock) :
    Except Failure String × FileTree :=
  match settings.place with
  | .memory => (.error .keepsNothing, files)
  | .database path busyTimeout =>
      match connect path busyTimeout files with
      | (.error failure, files) => (.error failure, files)
      | (.ok database, files) =>
          let (result, database) := execute settings.pool command database clock
          (result, (database.close files).2)

/-- The settings of a command. -/
def settings (surroundings : Surroundings) (named : Option String) : Except Failure Settings := do
  let file ← configuration surroundings.files surroundings.home named
  (Settings.resolve file surroundings.environment surroundings.home).mapError .settings

/-- What the arguments ask for, and the file system after it. -/
def result (surroundings : Surroundings) (arguments : List String) :
    Except Failure String × FileTree :=
  match Invocation.parse arguments with
  | .error error => (.error (.usage error), surroundings.files)
  | .ok ⟨_, .help⟩ => (.ok usage, surroundings.files)
  | .ok ⟨named, command⟩ =>
      match settings surroundings named with
      | .error failure => (.error failure, surroundings.files)
      | .ok settings => runCommand settings command surroundings.files surroundings.clock

/-- The outcome of a command line, and the file system after it. -/
def run (surroundings : Surroundings) (arguments : List String) : Outcome × FileTree :=
  let (result, files) := result surroundings arguments
  (.ofExcept result, files)

end Session

end AccountPool
