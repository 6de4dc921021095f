import AccountPool.Files.Tree

/-!
# Private database files

Before a database is opened, its directory and its file are made if they do not exist, and access to
both is restricted to their owner. A directory that is already private, or belongs to somebody else,
keeps its permissions. What was done before a step fails stays done.
-/

namespace AccountPool

/-- An action on a file system that may fail as a call to a store does. -/
abbrev FileAction (α : Type) : Type :=
  ExceptT StoreError (StateM FileTree) α

namespace FileAction

/-- One step, under the name that it has in messages. -/
def step (action path : String) (change : FileTree → Except FileCause FileTree) :
    FileAction Unit := fun tree =>
  match change tree with
  | .ok tree => (.ok (), tree)
  | .error cause => (.error (.file action path cause), tree)

/-- Make a directory, and the missing ones among those that lead to it, which are listed nearest
first. -/
def makeDirectories (tree : FileTree) : List String → Except FileCause Unit × FileTree
  | [] => (.ok (), tree)
  | path :: parents =>
      match tree.makeDirectory path with
      | .ok tree => (.ok (), tree)
      | .error .notFound =>
          match makeDirectories tree parents with
          | (.ok (), tree) => settle tree path
          | failed => failed
      | .error cause => accept tree path cause
where
  /-- An existing directory is as good as a new one. -/
  accept (tree : FileTree) (path : String) (cause : FileCause) : Except FileCause Unit × FileTree :=
    if cause = .alreadyExists ∧ tree.isDirectory path then (.ok (), tree) else (.error cause, tree)
  /-- Make a directory whose parent is there. -/
  settle (tree : FileTree) (path : String) : Except FileCause Unit × FileTree :=
    match tree.makeDirectory path with
    | .ok tree => (.ok (), tree)
    | .error cause => accept tree path cause

/-- Make a directory with all that lead to it. -/
def makePath (path : String) : FileAction Unit := fun tree =>
  match makeDirectories tree (Path.lineage path) with
  | (.ok (), tree) => (.ok (), tree)
  | (.error cause, tree) => (.error (.file "create directory" path cause), tree)

/-- Restrict a directory to its owner, unless it is somebody else's. -/
def restrictDirectory (path : String) : FileAction Unit := fun tree =>
  match tree.stat path with
  | .error cause => (.error (.file "read metadata of" path cause), tree)
  | .ok entry =>
      if entry.isPrivate || !entry.owned then (.ok (), tree)
      else step "restrict permissions of" path (·.setMode path FileTree.privateDirectoryMode) tree

/-- The files that a database keeps beside its own. -/
def sidecars (path : String) : List String :=
  [path ++ "-wal", path ++ "-shm"]

/-- Restrict a file to its owner, if it exists. -/
def restrictIfPresent (path : String) : FileAction Unit := fun tree =>
  match tree.setMode path FileTree.privateFileMode with
  | .ok tree => (.ok (), tree)
  | .error _ => (.ok (), tree)

/-- Make the directory of a path, if it names one, and restrict it to its owner. -/
def prepareFolder (path : String) : FileAction Unit :=
  match Path.parent? path with
  | none | some "" => pure ()
  | some folder => do
      makePath folder
      restrictDirectory folder

/-- Make a file, and restrict it and what is beside it to its owner. -/
def prepareFile (path : String) : FileAction Unit := do
  step "create database file" path (·.openFile path)
  step "restrict permissions of" path (·.setMode path FileTree.privateFileMode)
  (sidecars path).forM restrictIfPresent

/-- Make the directory and the file of a database and restrict them to their owner. -/
def prepareDatabase (path : String) : FileAction Unit := do
  prepareFolder path
  prepareFile path

end FileAction

end AccountPool
