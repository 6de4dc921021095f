import AccountPool.Database.Image
import AccountPool.Database.Sidecar

/-!
# Connections to databases

When a database is opened, what others left beside its file is settled, the file is changed to use a
log if it can, and the table of records is made. A file with at most one byte becomes a database
without rows; one that holds anything but a database is refused. An open database answers requests,
and its file has the new content when it is closed.
-/

namespace AccountPool

/-- An open database. -/
structure Database where
  content : DatabaseContent
  /-- The file that has the content when the database is closed; without one it is forgotten. -/
  file : Option DatabaseFile
  readOnly : Bool

namespace DatabaseFile

variable (file : DatabaseFile)

/-- Make the table of records in a file with an image. -/
def establish (image : DatabaseImage) (writable : Bool) : FileAction Database := do
  let content : DatabaseContent := { logged := file.loggable }
  if file.readOnly || !image.writable || !writable then .fail .readOnly
  if image.overspent then .fail .malformed
  if file.loggable then file.putContent (.database content) else file.change (.database content)
  pure ⟨content, some file, false⟩

/-- Make the table of records in a file with an image that uses no log yet; `text` is the image that
uses one. -/
def establishWith (image : DatabaseImage) (text : String) : FileAction Database := do
  if file.loggable then do
    if !image.writable then .fail .readOnly
    file.change (.text text)
    file.withLog (file.establish image)
  else file.establish image true

/-- The image in a text. -/
def image (text : String) : FileAction DatabaseImage :=
  match DatabaseImage.read text with
  | .ok image => pure image
  | .error fault => .fail fault

/-- Make the table of records in a file with a text, given whether a log was left for it. -/
def ofText (text : String) (hasLog : Bool) : FileAction Database := do
  match DatabaseImage.isLogged text, hasLog with
  | .ok false, false => do
      let image ← image text
      file.establishWith image (DatabaseImage.withLog text)
  | .error fault, false => .fail fault
  | _, _ =>
      file.withLog fun writable => do
        let image ← image text
        file.establish image writable

/-- Use the content of a file, given whether a log was left for it. -/
def ofContent (content : DatabaseContent) (hasLog : Bool) : FileAction Database := do
  let connect (writable : Bool) : FileAction Database :=
    pure ⟨{ content with logged := content.logged || file.loggable }, some file,
      file.readOnly || !writable⟩
  if hasLog || content.logged then file.withLog connect
  else if file.loggable then do
    file.change (.database { content with logged := true })
    file.withLog connect
  else connect true

/-- Use the content of a file that nobody changes. -/
def ofImmutable (entry : FileEntry) : FileAction Database := do
  match entry.content with
  | .database content => pure ⟨content, some file, true⟩
  | .text text => do
      if !entry.isBlank then do
        let _ ← image text
      .fail .readOnly
  | .directory => .fail (.unopenable none)

/-- Use the content of the file. -/
def connect : FileAction Database := do
  match (← get).lookup? file.place with
  | none => .fail (.unopenable none)
  | some entry =>
      if file.immutable then file.ofImmutable entry
      else do
        file.settleJournal entry.isBlank
        let hasLog ← file.settleLog entry.isBlank
        match entry.content with
        | .directory => .fail (.unopenable none)
        | .database content => file.ofContent content hasLog
        | .text text =>
            if entry.isBlank then file.establishWith ⟨false, true, false⟩ DatabaseImage.fresh
            else file.ofText text hasLog

end DatabaseFile

namespace Database

/-- The longest time to wait for a busy database, in milliseconds. -/
def maxBusyTimeout : Nat := 0x7FFFFFFF

/-- Use the content of a database that was opened. -/
def connect : OpenedDatabase → FileAction Database
  | .transient readOnly =>
      if readOnly then .fail .readOnly else pure ⟨{}, none, false⟩
  | .file file => file.connect

/-- Answer a request. -/
def perform : Engine Database := fun database request =>
  let engine := if database.readOnly then DatabaseContent.consult else DatabaseContent.perform
  let (answer, content) := engine database.content request
  (answer, { database with content })

/-- The number of rows. -/
def size (database : Database) : Nat :=
  database.content.store.size

/-- Close a database. -/
def close (database : Database) : FileAction Unit := do
  match database.file with
  | none => pure ()
  | some file =>
      if database.readOnly then pure ()
      else do
        file.putContent (.database database.content)
        if file.loggable then file.closeLog

end Database

end AccountPool
