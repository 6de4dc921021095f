import AccountPool.Command.Session
import AccountPool.Database.Archive
import Std.Time.DateTime.Timestamp

/-!
# The command line program

Runs one command against the files and the environment of the process. A database is kept as an
archive; an empty file is a database without rows.
-/

namespace AccountPool.CommandLine

/-- The reason for which the operating system refused. -/
def causeOf (error : IO.Error) : FileCause :=
  match error with
  | .noFileOrDirectory .. => .notFound
  | .alreadyExists .. => .alreadyExists
  | .inappropriateType _ code _ => if code = 20 then .notDirectory else .isDirectory
  | _ => .permissionDenied

/-- Do something with files, and give the reason if it is refused. -/
def guarded {α : Type} (action : IO α) : IO (Except FileCause α) := do
  try
    let result ← action
    pure (.ok result)
  catch error => pure (.error (causeOf error))

/-- A step of opening a database, under the name that it has in messages. -/
def step {α : Type} (name path : String) (action : IO α) : ExceptT StoreError IO α := do
  match ← guarded action with
  | .ok result => pure result
  | .error cause => throw (.file name path cause)

/-- The text of a file. -/
def readText (path : String) : IO (Except FileCause String) := do
  match ← guarded (IO.FS.readBinFile path) with
  | .error cause => pure (.error cause)
  | .ok bytes =>
      match String.fromUTF8? bytes with
      | some text => pure (.ok text)
      | none => pure (.error .notText)

/-- The variables of the process with the given names. -/
def environmentOf (names : List String) : IO Environment := do
  let found ← names.mapM fun name => do
    let value ← IO.getEnv name
    pure (value.map fun value => (name, value))
  pure ⟨.ofList (found.filterMap id)⟩

/-- The variables that settings depend on. -/
def settingVariables (file : ConfigFile) : List String :=
  [accountTableVariable, leaseTableVariable, pathVariable, scanPageSizeVariable,
    busyTimeoutVariable] ++ ((file.store >>= StoreSection.path).map referencedNames).getD []

/-- The configuration that a command uses. -/
def configuration (home : String) (named : Option String) : ExceptT Failure IO ConfigFile := do
  let path := named.getD (Settings.defaultFile home)
  let content ← readText path
  match named, content with
  | none, .error .notFound => pure {}
  | _, content =>
      match ConfigFile.load path content with
      | .ok file => pure file
      | .error error => throw (.config error)

/-- Access for the owner only. -/
def ownerOnly (execution : Bool) : IO.FileRight :=
  ⟨⟨true, true, execution⟩, {}, {}⟩

/-- Make the directory and the file of a database and restrict them to their owner. -/
def prepare (path : String) : ExceptT StoreError IO Unit := do
  match Path.parent? path with
  | none | some "" => pure ()
  | some folder => do
      step "create directory" folder (IO.FS.createDirAll folder)
      step "restrict permissions of" folder (IO.setAccessRights folder (ownerOnly true))
  let handle ← step "create database file" path (IO.FS.Handle.mk path .append)
  step "restrict permissions of" path (IO.setAccessRights path (ownerOnly false))
  step "create database file" path handle.flush

/-- The text of the file that a name means; a missing one is as good as an empty one if it may be
made. -/
def openText (path : String) (name : DatabaseName) : ExceptT StoreError IO String := do
  match ← readText name.path with
  | .ok text => pure text
  | .error .notText => throw (.engine .notDatabase)
  | .error cause =>
      if cause = .notFound ∧ name.access = .create then pure ""
      else throw (.engine (.unopenable (some path)))

/-- A database with the content in the text of its file. -/
def ofText (name : DatabaseName) (text : String) : Except StoreError Database :=
  let readOnly : Bool := name.access = .readOnly || name.immutable
  if text.isEmpty then
    if readOnly then .error (.engine .readOnly) else .ok ⟨{}, none, false⟩
  else
    match DatabaseContent.ofArchive? text with
    | some content => .ok ⟨content, none, readOnly⟩
    | none => .error (.engine .notDatabase)

/-- Do something under the name that a database has in messages. -/
def opening {α : Type} (path : String) (action : ExceptT StoreError IO α) : ExceptT Failure IO α :=
  ExceptT.mk do
    let result ← action.run
    pure (result.mapError (Failure.unopened path))

/-- Open a database. -/
def openDatabase (path : String) (name : DatabaseName) (busyTimeout : Nat) :
    ExceptT Failure IO Database := do
  let text ← if name.isTransient then pure "" else opening path (openText path name)
  if Database.maxBusyTimeout < busyTimeout then throw (.busyTimeout busyTimeout)
  opening path (ExceptT.mk (pure (ofText name text)))

/-- Write the content of a database to the file that its name means. -/
def close (path : String) (name : DatabaseName) (database : Database) : ExceptT Failure IO Unit := do
  if name.isTransient || database.readOnly then pure ()
  else opening path (step "create database file" path
    (IO.FS.writeFile name.path database.content.archive))

/-- The present time, which does not advance during a command. -/
def presentTime : IO Clock := do
  let now ← Std.Time.Timestamp.now
  pure ⟨Int64.ofInt now.toSecondsSinceUnixEpoch.val, 0⟩

/-- Run a command against the database that the settings name. -/
def runCommand (settings : Settings) (command : Command) : ExceptT Failure IO String := do
  match settings.place with
  | .memory => throw .keepsNothing
  | .database path busyTimeout => do
      opening path (prepare path)
      match DatabaseName.parse path with
      | .error fault => throw (.unopened path (.engine fault))
      | .ok name => do
          let database ← openDatabase path name busyTimeout
          let (result, database) :=
            Session.execute settings.pool command database (← presentTime)
          close path name database
          match result with
          | .ok text => pure text
          | .error failure => throw failure

/-- What the arguments ask for. -/
def result (arguments : List String) : ExceptT Failure IO String := do
  match Invocation.parse arguments with
  | .error error => throw (.usage error)
  | .ok ⟨_, .help⟩ => pure usage
  | .ok ⟨named, command⟩ => do
      let home := (← IO.getEnv "HOME").getD ""
      let file ← configuration home named
      let environment ← environmentOf (settingVariables file)
      match Settings.resolve file environment home with
      | .error error => throw (.settings error)
      | .ok settings => runCommand settings command

end AccountPool.CommandLine

/-- Run the command that the arguments name; the exit code says how it ended. -/
def main (arguments : List String) : IO UInt32 := do
  let outcome := AccountPool.Outcome.ofExcept (← (AccountPool.CommandLine.result arguments).run)
  (← IO.getStdout).putStr outcome.output
  (← IO.getStderr).putStr outcome.errors
  pure outcome.code
