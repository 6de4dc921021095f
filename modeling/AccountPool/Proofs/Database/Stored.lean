import AccountPool.Database.Connection
import AccountPool.Proofs.Files.Stores

/-!
# What is stored while a database is opened and closed

A database is opened without a change of stores, `FileAction.openDatabase_keeps`. From then on the store at
its place stays what it is, and the database has the same rows, `Database.connect_stored`, until it is closed
and its rows are stored there, `Database.close_stored`.
-/

namespace AccountPool

/-! ## Actions that fail -/

namespace FileAction

variable {α β : Type} {holds : FileTree → Prop} {good : α → Prop}

/-- An action that fails because of the engine gives nothing. -/
theorem keeps_fail (fault : EngineFault) : (fail fault : FileAction α).Keeps holds good :=
  keeps_throw _

/-- Nothing is done after an action that fails. -/
theorem keeps_fail_bind (fault : EngineFault) (next : α → FileAction β) {fine : β → Prop} :
    (fail fault >>= next).Keeps holds fine := by
  have hnothing : (fail fault : FileAction α).Keeps holds fun _ => False := keeps_fail fault
  exact hnothing.bind nofun

end FileAction

/-! ## Opening a database -/

namespace DatabaseFile

/-- A file that is made where nothing was found changes no store. -/
theorem sameStores_make {tree next : FileTree} {place : FilePlace}
    (hnone : tree.walk [] place = .error .notFound) (h : make tree place = .ok next) :
    tree.SameStores next := by
  unfold make at h
  obtain ⟨folder, hfolder, hmake⟩ := exists_of_bind_ok h
  obtain ⟨entry, hsearchable, hcreate⟩ := exists_of_bind_ok hmake
  split at hcreate
  · cases hcreate
  · next name hname =>
      -- The name is the last one of the place, and nothing is there.
      obtain ⟨front, rfl⟩ := List.getLast?_eq_some_iff.1 hname
      rw [List.dropLast_concat] at hfolder
      rw [FileTree.walk_append, hfolder] at hnone
      exact FileTree.sameStores_create (FileTree.lookup?_of_walk_notFound hsearchable hnone) rfl hcreate

/-- Access to a file changes no store. -/
theorem sameStores_access? {tree next : FileTree} {place : FilePlace} {access : FileAccess}
    {readOnly : Bool} (h : access? tree place access = some (readOnly, next)) : tree.SameStores next := by
  unfold access? at h
  split at h
  · split at h
    · cases h
    · cases h
      exact .refl tree
  · next hnone =>
      split at h
      · obtain ⟨made, hmade, hnext⟩ := Option.map_eq_some_iff.1 h
        cases hnext
        cases hmake : make tree place with
        | error cause =>
            rw [hmake] at hmade
            cases hmade
        | ok found =>
            rw [hmake] at hmade
            cases hmade
            exact sameStores_make hnone hmake
      · cases h
  · cases h

/-- A file that a name means is opened without a change of stores. -/
theorem sameStores_ofName? {tree next : FileTree} {name : DatabaseName} {file : DatabaseFile}
    (h : ofName? tree name = some (file, next)) : tree.SameStores next := by
  unfold ofName? at h
  obtain ⟨place, -, h⟩ := Option.bind_eq_some_iff.1 h
  obtain ⟨⟨readOnly, accessed⟩, haccess, h⟩ := Option.bind_eq_some_iff.1 h
  cases h
  exact sameStores_access? haccess

end DatabaseFile

/-- A database is opened without a change of stores. -/
theorem FileAction.openDatabase_keeps {start : FileTree} (text : String) :
    (openDatabase text).Keeps start.SameStores fun _ => True := by
  unfold openDatabase
  split
  · exact keeps_fail _
  · next name _ =>
      split
      · exact keeps_pure trivial
      · refine keeps_get fun tree htree => ?_
        split
        · exact keeps_fail _
        · next file opened hname =>
            have hset := keeps_set (htree.trans (DatabaseFile.sameStores_ofName? hname))
            exact hset.andThen fun _ => keeps_pure trivial

/-! ## Using the file of a database -/

/-- There is an entry with these rows at a place. -/
def FileTree.Holds (place : FilePlace) (store : Store) (tree : FileTree) : Prop :=
  ∃ entry, tree.lookup? place = some entry ∧ entry.content.store = store

/-- The rows of an entry are those stored at its place. -/
theorem FileTree.Holds.storeAt_eq {place : FilePlace} {store : Store} {tree : FileTree}
    (h : tree.Holds place store) : tree.storeAt place = store := by
  obtain ⟨entry, hentry, hstore⟩ := h
  unfold storeAt
  rw [hentry]
  exact hstore

namespace DatabaseFile

/-- The files beside a database are elsewhere. -/
theorem place_ne_beside (file : DatabaseFile) (sidecar : Sidecar) : file.place ≠ file.beside sidecar := by
  intro hplace
  -- Otherwise the name of the database would be its own with something behind it.
  have hname : file.place.getLast? = some (file.place.getLast?.getD "" ++ sidecar.suffix) := by
    conv => lhs; rw [hplace]
    unfold beside nameBeside
    rw [List.getLast?_concat]
  have hlength := congrArg (fun name : Option String => (name.getD "").length) hname
  simp only [Option.getD_some, String.length_append] at hlength
  have hsuffix : 0 < sidecar.suffix.length := by cases sidecar <;> decide
  omega

section Keeps

open FileAction

variable {file : DatabaseFile} {store : Store} {α : Type}

/-- A look beside a database. -/
theorem sidecar?_keeps (sidecar : Sidecar) :
    (file.sidecar? sidecar).Keeps (FileTree.Holds file.place store) fun _ => True :=
  keeps_get fun _ _ => keeps_pure trivial

/-- A look at what was left beside a database. -/
theorem left?_keeps (sidecar : Sidecar) :
    (file.left? sidecar).Keeps (FileTree.Holds file.place store) fun _ => True :=
  (sidecar?_keeps sidecar).andThen fun _ => keeps_pure trivial

/-- A look at the directory of a database. -/
theorem isFolderWritable_keeps :
    file.isFolderWritable.Keeps (FileTree.Holds file.place store) fun _ => True := by
  refine keeps_get fun tree _ => ?_
  split <;> exact keeps_pure trivial

/-- The rows of a database stay when a file beside it is removed. -/
theorem remove_keeps (sidecar : Sidecar) :
    (file.remove sidecar).Keeps (FileTree.Holds file.place store) fun _ => True := by
  refine (sidecar?_keeps sidecar).andThen fun found => ?_
  split
  · exact keeps_pure trivial
  · refine isFolderWritable_keeps.andThen fun writable => ?_
    split
    · exact keeps_fail _
    · refine keeps_modify fun tree htree => ?_
      unfold FileTree.Holds
      rw [FileTree.lookup?_withoutEntry_of_ne _ (file.place_ne_beside sidecar)]
      exact htree

/-- The rows of a database stay when a file beside it is removed if possible. -/
theorem discard_keeps (sidecar : Sidecar) :
    (file.discard sidecar).Keeps (FileTree.Holds file.place store) fun _ => True :=
  (remove_keeps sidecar).tryCatch fun _ => keeps_pure trivial

/-- The rows of a database stay when a file beside it is opened. -/
theorem provide_keeps (sidecar : Sidecar) :
    (file.provide sidecar).Keeps (FileTree.Holds file.place store) fun _ => True := by
  refine (sidecar?_keeps sidecar).andThen fun found => ?_
  split
  · refine keeps_get fun tree _ => ?_
    split
    · exact keeps_fail _
    · exact keeps_pure trivial
  · split
    · exact keeps_fail _
    · refine isFolderWritable_keeps.andThen fun writable => ?_
      split
      · exact keeps_fail _
      · refine (keeps_get fun tree _ => keeps_pure trivial : file.mode.Keeps _ fun _ => True).andThen
          fun mode => ?_
        refine (keeps_modify fun tree htree => ?_).andThen fun _ => keeps_pure trivial
        unfold FileTree.Holds
        rw [FileTree.lookup?_withEntry, if_neg (file.place_ne_beside sidecar)]
        exact htree

/-- The rows of a database stay when a journal is settled. -/
theorem settleJournal_keeps (blank : Bool) :
    (file.settleJournal blank).Keeps (FileTree.Holds file.place store) fun _ => True := by
  refine (left?_keeps .journal).andThen fun found => ?_
  split
  · exact keeps_pure trivial
  · refine keeps_get fun tree _ => ?_
    split
    · exact discard_keeps .journal
    split
    · exact keeps_fail _
    split
    · exact keeps_pure trivial
    split
    · exact keeps_fail _
    split
    · exact keeps_fail _
    · exact remove_keeps .journal

/-- The rows of a database stay when a log is settled. -/
theorem settleLog_keeps (blank : Bool) :
    (file.settleLog blank).Keeps (FileTree.Holds file.place store) fun _ => True := by
  refine (left?_keeps .log).andThen fun found => ?_
  split
  · exact keeps_pure trivial
  · split
    · exact (remove_keeps .log).andThen fun _ => keeps_pure trivial
    · exact keeps_pure trivial

/-- The rows of a database stay when its log is closed. -/
theorem closeLog_keeps : file.closeLog.Keeps (FileTree.Holds file.place store) fun _ => True :=
  (discard_keeps .log).andThen fun _ => discard_keeps .logIndex

/-- The rows of a file are those of the content that was put into it. -/
theorem holds_putContent {tree : FileTree} (h : tree.Holds file.place store) (content : FileContent) :
    (file.putContent content tree).2.Holds file.place content.store := by
  obtain ⟨entry, hentry, -⟩ := h
  refine ⟨{ entry with content }, ?_, rfl⟩
  rw [putContent, FileAction.run_modify]
  dsimp only
  rw [hentry]
  exact (FileTree.lookup?_withEntry ..).trans (if_pos rfl)

/-- Other content with the same rows may be put into a file. -/
theorem putContent_keeps {content : FileContent} (h : content.store = store) :
    (file.putContent content).Keeps (FileTree.Holds file.place store) fun _ => True :=
  fun _ htree => ⟨h ▸ holds_putContent htree content, fun _ _ => trivial⟩

/-- A file may be changed to other content with the same rows. -/
theorem change_keeps {content : FileContent} (h : content.store = store) :
    (file.change content).Keeps (FileTree.Holds file.place store) fun _ => True := by
  unfold change
  split
  · exact keeps_fail _
  · refine (provide_keeps .journal).andThen fun writable => ?_
    split
    · exact (remove_keeps .journal).andThen fun _ => putContent_keeps h
    · exact (discard_keeps .journal).andThen fun _ => keeps_fail _

/-- The rows of a database stay with an open log if they stay with what is done with it. -/
theorem withLog_keeps {good : α → Prop} {action : Bool → FileAction α}
    (h : ∀ writable, (action writable).Keeps (FileTree.Holds file.place store) good) :
    (file.withLog action).Keeps (FileTree.Holds file.place store) good := by
  unfold withLog
  split
  · exact keeps_fail _
  · refine (provide_keeps .log).andThen fun writable => (sidecar?_keeps .logIndex).andThen fun index => ?_
    refine (h _).tryCatch fun error => ?_
    split
    · exact closeLog_keeps.andThen fun _ => keeps_throw error
    · exact keeps_throw error

/-- An open database with these rows, of this file. -/
def Connects (file : DatabaseFile) (store : Store) (database : Database) : Prop :=
  database.content.store = store ∧ database.file = some file

/-- A new database is empty. -/
theorem establish_keeps (image : DatabaseImage) (writable : Bool) :
    (file.establish image writable).Keeps (FileTree.Holds file.place {}) (file.Connects {}) := by
  unfold establish
  dsimp only
  split
  · exact keeps_fail_bind _ _
  split
  · exact keeps_fail_bind _ _
  split
  · exact .andThen (putContent_keeps rfl) fun _ => keeps_pure ⟨rfl, rfl⟩
  · exact .andThen (change_keeps rfl) fun _ => keeps_pure ⟨rfl, rfl⟩

/-- A new database is empty when its file comes to use a log. -/
theorem establishWith_keeps (image : DatabaseImage) (text : String) :
    (file.establishWith image text).Keeps (FileTree.Holds file.place {}) (file.Connects {}) := by
  unfold establishWith
  split
  · split
    · exact keeps_fail_bind _ _
    · exact .andThen (change_keeps rfl) fun _ => withLog_keeps fun writable =>
        establish_keeps image writable
  · exact establish_keeps image true

/-- An image is read without a look at files. -/
theorem image_keeps (text : String) :
    (image text).Keeps (FileTree.Holds file.place store) fun _ => True := by
  unfold image
  split
  · exact keeps_pure trivial
  · exact keeps_fail _

/-- The database that is made in a file with a text is empty. -/
theorem ofText_keeps (text : String) (hasLog : Bool) :
    (file.ofText text hasLog).Keeps (FileTree.Holds file.place {}) (file.Connects {}) := by
  unfold ofText
  split
  · exact (image_keeps text).andThen fun image => establishWith_keeps image _
  · exact keeps_fail _
  · exact withLog_keeps fun writable => (image_keeps text).andThen fun image =>
      establish_keeps image writable

/-- The database in a file has the rows of the file. -/
theorem ofContent_keeps (content : DatabaseContent) (hasLog : Bool) :
    (file.ofContent content hasLog).Keeps (FileTree.Holds file.place content.store)
      (file.Connects content.store) := by
  unfold ofContent
  dsimp only
  split
  · exact withLog_keeps fun _ => keeps_pure ⟨rfl, rfl⟩
  split
  · exact .andThen (change_keeps rfl) fun _ => withLog_keeps fun _ => keeps_pure ⟨rfl, rfl⟩
  · exact keeps_pure ⟨rfl, rfl⟩

/-- The database in a file that nobody changes has the rows of the file. -/
theorem ofImmutable_keeps (entry : FileEntry) :
    (file.ofImmutable entry).Keeps (FileTree.Holds file.place entry.content.store)
      (file.Connects entry.content.store) := by
  unfold ofImmutable
  split
  · next hcontent => exact keeps_pure ⟨by rw [hcontent]; rfl, rfl⟩
  · split
    · exact (image_keeps _).andThen fun _ => keeps_fail _
    · exact keeps_fail _
  · exact keeps_fail _

/-- A database that is connected has the rows of its file, which stay there. -/
theorem connect_keeps : file.connect.Keeps (FileTree.Holds file.place store) (file.Connects store) := by
  refine keeps_get fun tree ⟨entry, hentry, hstore⟩ => ?_
  rw [hentry]
  subst hstore
  dsimp only
  split
  · exact ofImmutable_keeps entry
  · refine (settleJournal_keeps _).andThen fun _ => (settleLog_keeps _).andThen fun hasLog => ?_
    split
    · exact keeps_fail _
    · next content hcontent =>
        rw [hcontent]
        exact ofContent_keeps content hasLog
    · next text hcontent =>
        rw [hcontent]
        split
        · exact establishWith_keeps _ _
        · exact ofText_keeps text hasLog

/-- A file that is not there cannot be connected. -/
theorem connect_missing :
    file.connect.Keeps (fun tree => tree.lookup? file.place = none) fun _ => False := by
  refine keeps_get fun tree hnone => ?_
  rw [hnone]
  exact keeps_fail _

end Keeps

end DatabaseFile

namespace Database

/-- The place where the rows of a database are stored when it is closed. -/
def place? (database : Database) : Option FilePlace :=
  database.file.map DatabaseFile.place

/-- A database that is connected has the rows that are stored at its place, and they are still there; it is
the content of a file if it has one. -/
theorem connect_stored {opened : OpenedDatabase} {tree next : FileTree} {database : Database}
    (h : connect opened tree = (.ok database, next)) :
    database.content.store = tree.stored database.place? ∧
      (∀ place, database.place? = some place → next.Holds place database.content.store) := by
  cases opened with
  | transient readOnly =>
      cases readOnly with
      | true => cases h
      | false =>
          cases h
          exact ⟨rfl, nofun⟩
  | file file =>
      change file.connect tree = _ at h
      cases hentry : tree.lookup? file.place with
      | none => exact False.elim ((DatabaseFile.connect_missing tree hentry).2 database (congrArg Prod.fst h))
      | some entry =>
          have hholds : tree.Holds file.place entry.content.store := ⟨entry, hentry, rfl⟩
          obtain ⟨hkept, hconnects⟩ := DatabaseFile.connect_keeps tree hholds
          rw [h] at hkept hconnects
          obtain ⟨hstore, hfile⟩ := hconnects database rfl
          unfold place?
          rw [hfile, hstore]
          refine ⟨hholds.storeAt_eq.symm, ?_⟩
          rintro place ⟨⟩
          exact hkept

/-- The rows of a database are stored at its place when it is closed; those that were there stay if it is
read only. -/
theorem close_stored {database : Database} {place : FilePlace} (hplace : database.place? = some place)
    {tree : FileTree} {store : Store} (h : tree.Holds place store) :
    (database.close tree).2.storeAt place =
      if database.readOnly then store else database.content.store := by
  obtain ⟨file, hfile, rfl⟩ := Option.map_eq_some_iff.1 hplace
  unfold close
  rw [hfile]
  dsimp only
  cases hreadOnly : database.readOnly with
  | true => exact h.storeAt_eq
  | false =>
      -- The content is put into the file first, and stays when the log is closed.
      have hput := DatabaseFile.holds_putContent h (.database database.content)
      show FileTree.storeAt ((if file.loggable then file.closeLog else pure ()) _).2 _ = _
      split
      · exact (DatabaseFile.closeLog_keeps _ hput).1.storeAt_eq
      · exact hput.storeAt_eq

end Database

end AccountPool
