import AccountPool.Database.Name
import AccountPool.Files.Private

/-!
# Opening database files

The engine follows a path by its text, so a step up drops the step before it whether or not that is a
directory. Every step is looked at; nothing but its absence is accepted. A file that cannot be written
is opened for reading.
-/

namespace AccountPool

/-- The file of a database that is open. -/
structure DatabaseFile where
  place : FilePlace
  /-- The file must not be changed. -/
  readOnly : Bool
  /-- Changes may be written to a log beside the file. -/
  loggable : Bool
  /-- Nobody changes the file, so there is nothing beside it to look at. -/
  immutable : Bool

/-- An open database before its content is looked at. -/
inductive OpenedDatabase where
  | transient (readOnly : Bool)
  | file (file : DatabaseFile)

/-- An action that fails because of the engine. -/
def FileAction.fail {α : Type} (fault : EngineFault) : FileAction α :=
  throw (.engine fault)

namespace DatabaseFile

/-- The number of bytes that a path has to stay below while it is followed. -/
def stepLimit : Nat := 512

/-- The number of bytes that the path of a database may have. -/
def maxPathLength : Nat := 504

/-- The permissions of a file when the engine makes it. -/
def newFileMode : Nat := 0o644

/-- The number of bytes of the path from the root to a place. -/
def pathLength (place : FilePlace) : Nat :=
  place.foldl (fun length name => length + (1 + name.utf8ByteSize)) 0

/-- The place that is reached from another one along segments. -/
def follow? (tree : FileTree) : FilePlace → List String → Option FilePlace
  | place, [] => some place
  | place, segment :: rest =>
      if Path.isIdle segment then follow? tree place rest
      else if segment = ".." then follow? tree place.dropLast rest
      else if stepLimit ≤ pathLength (place ++ [segment]) then none
      else
        match tree.walk [] (place ++ [segment]) with
        | .ok _ | .error .notFound => follow? tree (place ++ [segment]) rest
        | .error _ => none

/-- The place that a path names. -/
def locate? (tree : FileTree) (path : String) : Option FilePlace :=
  match follow? tree [] (tree.start path ++ Path.segments path) with
  | none | some [] => none
  | some place => if maxPathLength < pathLength place then none else some place

/-- Make an empty file in a directory that is there. -/
def make (tree : FileTree) (place : FilePlace) : Except FileCause FileTree := do
  let folder ← tree.walk [] place.dropLast
  let _ ← tree.requireSearchable folder
  match place.getLast? with
  | none => throw .isDirectory
  | some name => tree.create folder name { mode := newFileMode, content := .text "" }

/-- Open the file at a place, and say whether only for reading. -/
def access? (tree : FileTree) (place : FilePlace) (access : FileAccess) :
    Option (Bool × FileTree) :=
  match tree.walk [] place, tree.lookup? place with
  | .ok _, some entry =>
      if entry.isDirectory || !tree.allows entry.readable then none
      else some (access = .readOnly || !tree.allows entry.writable, tree)
  | .error .notFound, _ =>
      if access = .create then (make tree place).toOption.map fun tree => (false, tree) else none
  | _, _ => none

/-- Open the file that a name means. -/
def ofName? (tree : FileTree) (name : DatabaseName) : Option (DatabaseFile × FileTree) := do
  let place ← locate? tree name.path
  let (readOnly, tree) ← access? tree place name.access
  pure (⟨place, readOnly || name.immutable, name.isLoggable, name.immutable⟩, tree)

end DatabaseFile

/-- Open the database with a name. -/
def FileAction.openDatabase (text : String) : FileAction OpenedDatabase := do
  match DatabaseName.parse text with
  | .error fault => fail fault
  | .ok name =>
      if name.isTransient then pure (.transient (name.access = .readOnly))
      else
        match DatabaseFile.ofName? (← get) name with
        | none => fail (.unopenable (some text))
        | some (file, tree) => do
            set tree
            pure (.file file)

end AccountPool
