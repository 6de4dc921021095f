import AccountPool.Database.Content
import AccountPool.Files.Cause
import AccountPool.Files.Path

/-!
# Files and directories

A file system is a map from places, lists of names below the root, to files and directories with their
permissions. What is allowed follows from three bits of the mode: the owner's bits for what belongs to
the user who works with it, and the bits of all others for the rest. Walking along a path needs
permission to search every directory on the way, making something new needs permission to write to
its directory, and only the owner changes permissions. A privileged user may do all this anyway.
-/

namespace AccountPool

/-- What is found at a place. -/
inductive FileContent where
  | directory
  | text (text : String)
  | database (content : DatabaseContent)

/-- A file or directory with its permission bits. -/
structure FileEntry where
  mode : Nat
  content : FileContent
  /-- It belongs to the user who works with it. -/
  owned : Bool := true

namespace FileEntry

/-- The entry is a directory. -/
def isDirectory (entry : FileEntry) : Bool :=
  entry.content matches .directory

/-- A permission is granted to the user; `right` is its bit among those for all others. -/
def grants (entry : FileEntry) (right : Nat) : Bool :=
  entry.mode / (if entry.owned then 0o100 * right else right) % 2 = 1

/-- The file may be read. -/
def readable (entry : FileEntry) : Bool :=
  entry.grants 4

/-- The file may be written, or entries made in the directory. -/
def writable (entry : FileEntry) : Bool :=
  entry.grants 2

/-- The directory may be searched. -/
def searchable (entry : FileEntry) : Bool :=
  entry.grants 1

/-- Nobody but the owner has any permission. -/
def isPrivate (entry : FileEntry) : Bool :=
  entry.mode % 0o100 = 0

end FileEntry

/-- The names that lead to a file or directory from the root. -/
abbrev FilePlace := List String

/-- A file system; the root is always there. -/
structure FileTree where
  entries : SortedMap FilePlace FileEntry := {}
  /-- The working directory, at which relative paths start. -/
  current : FilePlace := []
  /-- Permissions do not bind the user who works with it. -/
  privileged : Bool := false

namespace FileTree

/-- The permissions of a directory when it is made. -/
def newDirectoryMode : Nat := 0o755

/-- The permissions of a file for its owner only. -/
def privateFileMode : Nat := 0o600

/-- The permissions of a directory for its owner only. -/
def privateDirectoryMode : Nat := 0o700

/-- The number of bytes that a name may have. -/
def maxNameLength : Nat := 255

/-- The number of bytes that a path may have. -/
def maxPathLength : Nat := 4095

variable (tree : FileTree)

/-- What is at a place. -/
def lookup? (place : FilePlace) : Option FileEntry :=
  match tree.entries.find? place, place with
  | some entry, _ => some entry
  | none, [] => some { mode := newDirectoryMode, content := .directory }
  | none, _ => none

/-- The user may do what needs some permission. -/
def allows (granted : Bool) : Bool :=
  tree.privileged || granted

/-- The file system with an entry at a place. -/
def withEntry (place : FilePlace) (entry : FileEntry) : FileTree :=
  { tree with entries := tree.entries.insert place entry }

/-- The file system without the entry at a place. -/
def withoutEntry (place : FilePlace) : FileTree :=
  { tree with entries := tree.entries.erase place }

/-! ## Walking -/

/-- A place holds a directory. -/
def requireDirectory (place : FilePlace) : Except FileCause FileEntry :=
  match tree.lookup? place with
  | none => .error .notFound
  | some entry => if entry.isDirectory then .ok entry else .error .notDirectory

/-- A place holds a directory that may be searched. -/
def requireSearchable (place : FilePlace) : Except FileCause FileEntry := do
  let entry ← tree.requireDirectory place
  if tree.allows entry.searchable then pure entry else throw .permissionDenied

/-- The place reached from another one along segments. -/
def walk : FilePlace → List String → Except FileCause FilePlace
  | place, [] => .ok place
  | place, "" :: rest => do
      let _ ← tree.requireDirectory place
      walk place rest
  | place, segment :: rest => do
      let _ ← tree.requireSearchable place
      if segment = "." then walk place rest
      else if segment = ".." then walk place.dropLast rest
      else if maxNameLength < segment.utf8ByteSize then throw .nameTooLong
      else
        match tree.lookup? (place ++ [segment]) with
        | some _ => walk (place ++ [segment]) rest
        | none => throw .notFound

/-- Where walking along a path starts. -/
def start (path : String) : FilePlace :=
  if Path.isAbsolute path then [] else tree.current

/-- A path that can be handed to the operating system. -/
def requirePath (path : String) : Except FileCause Unit :=
  if path.toList.contains (Char.ofNat 0) then .error .nullInName
  else if path.isEmpty then .error .notFound
  else if maxPathLength < path.utf8ByteSize then .error .nameTooLong
  else .ok ()

/-- The place that a path names. -/
def find (path : String) : Except FileCause FilePlace := do
  requirePath path
  tree.walk (tree.start path) (Path.segments path)

/-- What a path names. -/
def stat (path : String) : Except FileCause FileEntry := do
  let place ← tree.find path
  match tree.lookup? place with
  | some entry => pure entry
  | none => throw .notFound

/-- The directory and the last name of a path. There is no name if the last step of the path is to the
directory itself or to the one above. -/
def locateName (path : String) : Except FileCause (FilePlace × Option String) := do
  requirePath path
  let steps := ((Path.segments path).reverse.dropWhile (· = "")).reverse
  let folder ← tree.walk (tree.start path) steps.dropLast
  let _ ← tree.requireSearchable folder
  match steps.getLast? with
  | none | some "." | some ".." => pure (folder, none)
  | name => pure (folder, name)

/-- The directory and the name of what a path names, which need not exist. -/
def locate (path : String) : Except FileCause (FilePlace × Option String) := do
  match ← tree.locateName path with
  | (folder, some name) =>
      if maxNameLength < name.utf8ByteSize then throw .nameTooLong else pure (folder, some name)
  | (folder, none) => pure (folder, none)

/-! ## Operations -/

/-- Whether a path names a directory. -/
def isDirectory (path : String) : Bool :=
  match tree.stat path with
  | .ok entry => entry.isDirectory
  | .error _ => false

/-- Whether a path names anything. -/
def contains (path : String) : Bool :=
  (tree.stat path).isOk

/-- Make a new entry in a directory. -/
def create (folder : FilePlace) (name : String) (entry : FileEntry) : Except FileCause FileTree := do
  let parent ← tree.requireDirectory folder
  if tree.allows parent.writable then pure (tree.withEntry (folder ++ [name]) entry)
  else throw .permissionDenied

/-- Make a directory. -/
def makeDirectory (path : String) : Except FileCause FileTree := do
  let (folder, name) ← tree.locate path
  match name with
  | none => throw .alreadyExists
  | some name =>
      match tree.lookup? (folder ++ [name]) with
      | some _ => throw .alreadyExists
      | none => tree.create folder name { mode := newDirectoryMode, content := .directory }

/-- Change the permissions of what a path names. -/
def setMode (path : String) (mode : Nat) : Except FileCause FileTree := do
  let place ← tree.find path
  let entry ← tree.stat path
  if tree.allows entry.owned then pure (tree.withEntry place { entry with mode })
  else throw .notPermitted

/-- Open a file for reading and writing; one that does not exist is made, empty and for its owner
only. A path that ends in a slash cannot name a file, however long its last name is. -/
def openFile (path : String) : Except FileCause FileTree := do
  match ← tree.locateName path with
  | (_, none) => throw .isDirectory
  | (folder, some name) =>
      if path.endsWith "/" then throw .isDirectory
      else if maxNameLength < name.utf8ByteSize then throw .nameTooLong
      else
        match tree.lookup? (folder ++ [name]) with
        | none => tree.create folder name { mode := privateFileMode, content := .text "" }
        | some entry =>
            if entry.isDirectory then throw .isDirectory
            else if tree.allows (entry.readable && entry.writable) then pure tree
            else throw .permissionDenied

/-- The text of a file. -/
def readText (path : String) : Except FileCause String := do
  let entry ← tree.stat path
  match entry.content with
  | .directory => throw .isDirectory
  | .text text => if tree.allows entry.readable then pure text else throw .permissionDenied
  | .database _ => if tree.allows entry.readable then throw .notText else throw .permissionDenied

end FileTree

end AccountPool
