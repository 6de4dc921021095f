import AccountPool.Database.Opening

/-!
# Files beside a database

While a database is changed, a journal beside its file keeps what was there before; instead, changes
may be collected in a log, which has an index in memory that its users share through a file. All are
named after the database. A journal or log that is found beside a database when it is opened was left
by somebody who did not finish.
-/

namespace AccountPool

/-- The kinds of files beside a database. -/
inductive Sidecar where
  | journal
  | log
  | logIndex
deriving DecidableEq, Repr

namespace Sidecar

/-- What follows the name of the database in the name of a file beside it. -/
def suffix : Sidecar → String
  | journal => "-journal"
  | log => "-wal"
  | logIndex => "-shm"

end Sidecar

namespace FileEntry

/-- An empty file. -/
def isEmpty (entry : FileEntry) : Bool :=
  match entry.content with
  | .text text => text.isEmpty
  | _ => false

/-- A file that holds no database yet; one byte does not count. -/
def isBlank (entry : FileEntry) : Bool :=
  match entry.content with
  | .text text => text.utf8ByteSize ≤ 1
  | _ => false

/-- The first byte of a file is zero, which marks a journal as finished. -/
def isFinished (entry : FileEntry) : Bool :=
  match entry.content with
  | .text text => text.front? = some (Char.ofNat 0)
  | _ => false

end FileEntry

namespace DatabaseFile

variable (file : DatabaseFile)

/-- The directory of the file. -/
def folder : FilePlace :=
  file.place.dropLast

/-- The name of a file beside the database. -/
def nameBeside (sidecar : Sidecar) : String :=
  file.place.getLast?.getD "" ++ sidecar.suffix

/-- The place of a file beside the database. -/
def beside (sidecar : Sidecar) : FilePlace :=
  file.folder ++ [file.nameBeside sidecar]

/-- What is beside the database. -/
def sidecar? (sidecar : Sidecar) : FileAction (Option FileEntry) := do
  pure ((← get).lookup? (file.beside sidecar))

/-- What was left beside the database; an empty file is nothing. -/
def left? (sidecar : Sidecar) : FileAction (Option FileEntry) := do
  pure ((← file.sidecar? sidecar).filter fun entry => !entry.isEmpty)

/-- Files can be made and removed in the directory. -/
def isFolderWritable : FileAction Bool := do
  let tree ← get
  match tree.requireSearchable file.folder with
  | .ok folder => pure (tree.allows folder.writable)
  | .error _ => pure false

/-- Remove a file beside the database, if it is there. -/
def remove (sidecar : Sidecar) : FileAction Unit := do
  match ← file.sidecar? sidecar with
  | none => pure ()
  | some entry =>
      if entry.isDirectory || !(← file.isFolderWritable) then .fail .undeletable
      else modify (·.withoutEntry (file.beside sidecar))

/-- Remove a file beside the database, if that is possible. -/
def discard (sidecar : Sidecar) : FileAction Unit :=
  tryCatch (file.remove sidecar) fun _ => pure ()

/-- The permissions of the database file. -/
def mode : FileAction Nat := do
  pure ((((← get).lookup? file.place).map FileEntry.mode).getD newFileMode)

/-- Open a file beside the database, and say whether it can be written. A missing one is made with
the permissions of the database file. -/
def provide (sidecar : Sidecar) : FileAction Bool := do
  match ← file.sidecar? sidecar with
  | some entry =>
      let tree ← get
      if entry.isDirectory || !tree.allows entry.readable then .fail (.unopenable none)
      else pure (tree.allows entry.writable)
  | none => do
      if FileTree.maxNameLength < (file.nameBeside sidecar).utf8ByteSize then .fail (.unopenable none)
      else if !(← file.isFolderWritable) then .fail .readOnlyFolder
      else do
        let mode ← file.mode
        modify (·.withEntry (file.beside sidecar) { mode, content := .text "" })
        pure true

/-! ## Journals -/

/-- Undo what a journal was left for. The journal of a file without a database means nothing, and a
finished one stays. -/
def settleJournal (blank : Bool) : FileAction Unit := do
  match ← file.left? .journal with
  | none => pure ()
  | some entry =>
      let tree ← get
      if blank then file.discard .journal
      else if entry.isDirectory && tree.allows entry.readable then .fail .unreadable
      else if entry.isFinished && tree.allows entry.readable then pure ()
      else if file.readOnly then .fail .unfinished
      else if entry.isDirectory || !tree.allows (entry.readable && entry.writable) then
        .fail (.unopenable none)
      else file.remove .journal

/-- Put other content into the file. -/
def putContent (content : FileContent) : FileAction Unit :=
  modify fun tree =>
    match tree.lookup? file.place with
    | some entry => tree.withEntry file.place { entry with content }
    | none => tree

/-- Change the content of the file; a journal is there meanwhile. One that cannot be written is removed
when the change is given up. -/
def change (content : FileContent) : FileAction Unit := do
  if file.readOnly then .fail .readOnly
  if ← file.provide .journal then do
    file.remove .journal
    file.putContent content
  else do
    file.discard .journal
    .fail .unwritable

/-! ## Logs -/

/-- A log was left for the database. The log of a file without a database is removed. -/
def settleLog (blank : Bool) : FileAction Bool := do
  match ← file.left? .log with
  | none => pure false
  | some _ =>
      if blank then do
        file.remove .log
        pure false
      else pure true

/-- Remove the log and its index. -/
def closeLog : FileAction Unit := do
  file.discard .log
  file.discard .logIndex

/-- Do something with an open log, given whether it can be written, which takes an index that can be
shared. If that fails the log is closed, which also needs permission to write. -/
def withLog {α : Type} (action : Bool → FileAction α) : FileAction α := do
  if !file.loggable then .fail (.unopenable none)
  let isLogWritable ← file.provide .log
  let isShared := !((← file.sidecar? .logIndex).any FileEntry.isDirectory)
  tryCatch (action (isLogWritable && isShared)) fun error => do
    if isLogWritable && isShared && !file.readOnly then file.closeLog
    throw error

end DatabaseFile

end AccountPool
