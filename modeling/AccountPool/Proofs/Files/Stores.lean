import AccountPool.Files.Private

/-!
# What files store while they are prepared

The store at a place of a file system is that of the database there; elsewhere nothing is stored. Directories
that are made, files that are opened and permissions that are changed leave the stores at all places as they
are, and so does the preparation of a database: `FileAction.prepareDatabase_keeps`.
-/

namespace AccountPool

/-- What succeeds after something else came after a success. -/
theorem exists_of_bind_ok {ε α β : Type} {first : Except ε α} {next : α → Except ε β} {result : β}
    (h : (first >>= next) = .ok result) : ∃ value, first = .ok value ∧ next value = .ok result := by
  cases first with
  | error error => cases h
  | ok value => exact ⟨value, rfl, h⟩

/-! ## Stores at places -/

/-- The rows in a file; only a database has some. -/
def FileContent.store : FileContent → Store
  | .database content => content.store
  | .directory | .text _ => {}

namespace FileTree

/-- The rows that are stored at a place. -/
def storeAt (tree : FileTree) (place : FilePlace) : Store :=
  match tree.lookup? place with
  | some entry => entry.content.store
  | none => {}

/-- The rows that are stored at a place; a database without a place is forgotten. -/
def stored (tree : FileTree) : Option FilePlace → Store
  | some place => tree.storeAt place
  | none => {}

/-- An entry is found at its place, and what is at the others stays. -/
theorem lookup?_withEntry (tree : FileTree) (place other : FilePlace) (entry : FileEntry) :
    (tree.withEntry place entry).lookup? other =
      if other = place then some entry else tree.lookup? other := by
  unfold lookup? withEntry
  by_cases hplace : other = place
  · rw [if_pos hplace, hplace, SortedMap.find?_insert_self]
  · rw [if_neg hplace, SortedMap.find?_insert_of_ne _ hplace]

/-- What is at other places stays when an entry is removed. -/
theorem lookup?_withoutEntry_of_ne (tree : FileTree) {place other : FilePlace} (hne : other ≠ place) :
    (tree.withoutEntry place).lookup? other = tree.lookup? other := by
  unfold lookup? withoutEntry
  rw [SortedMap.find?_erase_of_ne _ hne]

/-! ## Walking -/

/-- Walking along more segments is walking on. -/
theorem walk_append (tree : FileTree) (place : FilePlace) (first rest : List String) :
    tree.walk place (first ++ rest) = tree.walk place first >>= fun place => tree.walk place rest := by
  fun_induction walk tree place first with
  | case1 place => rfl
  | case2 place more ih =>
      rw [List.cons_append, walk]
      cases tree.requireDirectory place with
      | error cause => rfl
      | ok entry => exact ih
  | case3 place segment more hstep ih ihUp ihDown =>
      rw [List.cons_append, walk, ih, ihUp, ihDown]
      · cases tree.requireSearchable place with
        | error cause => rfl
        | ok entry =>
            simp only [bind, Except.bind]
            split
            · rfl
            split
            · rfl
            split
            · rfl
            cases tree.lookup? (place ++ [segment]) with
            | none => rfl
            | some found => rfl
      · exact hstep

/-- A directory that can be searched but not for a name has no entry with this name. -/
theorem lookup?_of_walk_notFound {tree : FileTree} {folder : FilePlace} {name : String} {entry : FileEntry}
    (hfolder : tree.requireSearchable folder = .ok entry)
    (hwalk : tree.walk folder [name] = .error .notFound) : tree.lookup? (folder ++ [name]) = none := by
  obtain ⟨directory, hdirectory, -⟩ := exists_of_bind_ok hfolder
  by_cases hempty : name = ""
  · rw [hempty, walk, hdirectory] at hwalk
    cases hwalk
  · have hstep : tree.walk folder [name] = _ := walk.eq_3 tree folder name [] hempty
    rw [hwalk, hfolder] at hstep
    simp only [bind, Except.bind] at hstep
    split at hstep
    · cases hstep
    split at hstep
    · cases hstep
    split at hstep
    · cases hstep
    split at hstep
    · cases hstep
    · assumption

/-! ## Changes that keep all stores -/

/-- The same rows are stored at every place. -/
def SameStores (tree next : FileTree) : Prop :=
  ∀ place, next.storeAt place = tree.storeAt place

/-- An entry that stores what was stored at its place changes no store. -/
theorem sameStores_withEntry {tree : FileTree} {place : FilePlace} {entry : FileEntry}
    (h : entry.content.store = tree.storeAt place) : tree.SameStores (tree.withEntry place entry) := by
  intro other
  unfold storeAt
  rw [lookup?_withEntry]
  by_cases hplace : other = place
  · rw [if_pos hplace, hplace]
    exact h
  · rw [if_neg hplace]

/-- Stores stay the same in one step after the other. -/
theorem SameStores.trans {tree next last : FileTree} (h : tree.SameStores next)
    (h' : next.SameStores last) : tree.SameStores last :=
  fun place => (h' place).trans (h place)

theorem SameStores.refl (tree : FileTree) : tree.SameStores tree :=
  fun _ => rfl

/-- A new entry without rows changes no store. -/
theorem sameStores_create {tree next : FileTree} {folder : FilePlace} {name : String} {entry : FileEntry}
    (hnone : tree.lookup? (folder ++ [name]) = none) (hentry : entry.content.store = {})
    (h : tree.create folder name entry = .ok next) : tree.SameStores next := by
  unfold create at h
  obtain ⟨parent, -, h⟩ := exists_of_bind_ok h
  split at h
  · cases h
    refine sameStores_withEntry ?_
    rw [hentry, storeAt, hnone]
  · cases h

/-- A new directory changes no store. -/
theorem sameStores_makeDirectory {tree next : FileTree} {path : String}
    (h : tree.makeDirectory path = .ok next) : tree.SameStores next := by
  unfold makeDirectory at h
  obtain ⟨⟨folder, name⟩, -, h⟩ := exists_of_bind_ok h
  dsimp only at h
  split at h
  · cases h
  · split at h
    · cases h
    · next hnone => exact sameStores_create hnone rfl h

/-- Other permissions change no store. -/
theorem sameStores_setMode {tree next : FileTree} {path : String} {mode : Nat}
    (h : tree.setMode path mode = .ok next) : tree.SameStores next := by
  unfold setMode stat at h
  obtain ⟨place, hplace, h⟩ := exists_of_bind_ok h
  obtain ⟨entry, hstat, h⟩ := exists_of_bind_ok h
  obtain ⟨found, hfound, hentry⟩ := exists_of_bind_ok hstat
  obtain rfl : place = found := Except.ok.inj (hplace.symm.trans hfound)
  split at hentry
  · next hlookup =>
      cases hentry
      split at h
      · cases h
        refine sameStores_withEntry ?_
        rw [storeAt, hlookup]
      · cases h
  · cases hentry

/-- A file that is opened changes no store. -/
theorem sameStores_openFile {tree next : FileTree} {path : String}
    (h : tree.openFile path = .ok next) : tree.SameStores next := by
  unfold openFile at h
  obtain ⟨⟨folder, name⟩, -, h⟩ := exists_of_bind_ok h
  split at h
  · cases h
  split at h
  · cases h
  split at h
  · cases h
  split at h
  · next hnone => exact sameStores_create hnone rfl h
  · split at h
    · cases h
    split at h
    · cases h
      exact .refl tree
    · cases h

end FileTree

/-! ## Actions on files -/

namespace FileAction

variable {α β : Type} {holds : FileTree → Prop} {good : α → Prop}

/-- An action keeps what holds of the file system, whether or not it fails, and whatever it gives is good. -/
def Keeps (holds : FileTree → Prop) (action : FileAction α) (good : α → Prop) : Prop :=
  ∀ tree, holds tree → holds (action tree).2 ∧ ∀ value, (action tree).1 = .ok value → good value

/-- A value that is given without doing anything. -/
theorem keeps_pure {value : α} (h : good value) : (pure value : FileAction α).Keeps holds good := by
  refine fun tree htree => ⟨htree, ?_⟩
  rintro _ ⟨⟩
  exact h

/-- An action that fails gives nothing. -/
theorem keeps_throw (error : StoreError) : (throw error : FileAction α).Keeps holds good :=
  fun _ htree => ⟨htree, nofun⟩

/-- A look at the file system. -/
theorem keeps_get {next : FileTree → FileAction α}
    (h : ∀ tree, holds tree → (next tree).Keeps holds good) :
    ((get : FileAction FileTree) >>= next).Keeps holds good :=
  fun tree htree => h tree htree tree htree

/-- The file system is replaced. -/
theorem keeps_set {tree : FileTree} (h : holds tree) :
    (set tree : FileAction PUnit).Keeps holds fun _ => True :=
  fun _ _ => ⟨h, fun _ _ => trivial⟩

/-- A change of the file system. -/
theorem run_modify (change : FileTree → FileTree) (tree : FileTree) :
    (modify change : FileAction Unit) tree = (.ok (), change tree) :=
  rfl

@[inherit_doc run_modify]
theorem keeps_modify {change : FileTree → FileTree} (h : ∀ tree, holds tree → holds (change tree)) :
    (modify change : FileAction Unit).Keeps holds fun _ => True :=
  fun tree htree => ⟨h tree htree, fun _ _ => trivial⟩

/-- One action after the other. -/
theorem Keeps.bind {first : FileAction α} {next : α → FileAction β} {fine : β → Prop}
    (h : first.Keeps holds good) (hnext : ∀ value, good value → (next value).Keeps holds fine) :
    (first >>= next).Keeps holds fine := by
  intro tree htree
  obtain ⟨hkept, hgood⟩ := h tree htree
  have hrun : (first >>= next) tree =
      ExceptT.bindCont next (first tree).1 (first tree).2 := rfl
  rw [hrun]
  cases hfirst : (first tree).1 with
  | error error => exact ⟨hkept, nofun⟩
  | ok value => exact hnext value (hgood value hfirst) _ hkept

/-- Nothing needs to be known of what the first action gives. -/
theorem Keeps.andThen {first : FileAction α} {next : α → FileAction β} {fine : β → Prop}
    (h : first.Keeps holds fun _ => True) (hnext : ∀ value, (next value).Keeps holds fine) :
    (first >>= next).Keeps holds fine :=
  h.bind fun value _ => hnext value

/-- An action and what is done if it fails. -/
theorem Keeps.tryCatch {action : FileAction α} {handler : StoreError → FileAction α}
    (h : action.Keeps holds good) (hhandler : ∀ error, (handler error).Keeps holds good) :
    (tryCatch action handler : FileAction α).Keeps holds good := by
  intro tree htree
  obtain ⟨hkept, hgood⟩ := h tree htree
  have hrun (next : Except StoreError α → StateM FileTree (Except StoreError α)) :
      (Bind.bind (m := StateM FileTree) action next) tree = next (action tree).1 (action tree).2 := rfl
  change holds ((ExceptT.tryCatch action handler : FileAction α) tree).2 ∧ ∀ value,
    ((ExceptT.tryCatch action handler : FileAction α) tree).1 = .ok value → good value
  unfold ExceptT.tryCatch ExceptT.mk
  rw [hrun]
  cases haction : (action tree).1 with
  | error error => exact hhandler error _ hkept
  | ok value =>
      refine ⟨hkept, ?_⟩
      rintro _ ⟨⟩
      exact hgood value haction

/-! ## Preparing a database -/

section Prepare

variable {start : FileTree}

/-- A step that changes no store. -/
theorem step_keeps {action path : String} {change : FileTree → Except FileCause FileTree}
    (h : ∀ tree next, change tree = .ok next → tree.SameStores next) :
    (step action path change).Keeps start.SameStores fun _ => True := by
  intro tree htree
  unfold step
  split
  · next hchange => exact ⟨htree.trans (h _ _ hchange), fun _ _ => trivial⟩
  · exact ⟨htree, fun _ _ => trivial⟩

/-- What stays true whenever one of some directories is made stays true when they are made together. -/
theorem makeDirectories_keeps {paths : List String}
    (h : ∀ path ∈ paths, ∀ tree next, holds tree → tree.makeDirectory path = .ok next → holds next)
    {tree : FileTree} (htree : holds tree) : holds (makeDirectories tree paths).2 := by
  have haccept {tree : FileTree} (htree : holds tree) (path : String) (cause : FileCause) :
      holds (makeDirectories.accept tree path cause).2 := by
    unfold makeDirectories.accept
    split <;> exact htree
  induction paths with
  | nil => exact htree
  | cons path parents ih =>
      obtain ⟨hpath, hparents⟩ := List.forall_mem_cons.1 h
      rw [makeDirectories]
      split
      · next hmake => exact hpath tree _ htree hmake
      · specialize ih hparents
        split
        · next next hmade =>
            rw [hmade] at ih
            unfold makeDirectories.settle
            split
            · next hmake => exact hpath next _ ih hmake
            · exact haccept ih path _
        · exact ih
      · exact haccept htree path _

/-- Directories that are made change no store. -/
theorem sameStores_makeDirectories (tree : FileTree) (paths : List String) :
    tree.SameStores (makeDirectories tree paths).2 :=
  makeDirectories_keeps (fun _ _ _ _ htree hmake => htree.trans (FileTree.sameStores_makeDirectory hmake))
    (.refl tree)

/-- A path that is made changes no store. -/
theorem makePath_keeps (path : String) : (makePath path).Keeps start.SameStores fun _ => True := by
  intro tree htree
  have hmake := sameStores_makeDirectories tree (Path.lineage path)
  unfold makePath
  split <;> next hpath =>
    rw [hpath] at hmake
    exact ⟨htree.trans hmake, fun _ _ => trivial⟩

/-- A directory that is restricted to its owner changes no store. -/
theorem restrictDirectory_keeps (path : String) :
    (restrictDirectory path).Keeps start.SameStores fun _ => True := by
  intro tree htree
  unfold restrictDirectory
  split
  · exact ⟨htree, fun _ _ => trivial⟩
  · split
    · exact ⟨htree, fun _ _ => trivial⟩
    · exact step_keeps (fun _ _ hset => FileTree.sameStores_setMode hset) tree htree

/-- A file that is restricted to its owner changes no store. -/
theorem restrictIfPresent_keeps (path : String) :
    (restrictIfPresent path).Keeps start.SameStores fun _ => True := by
  intro tree htree
  unfold restrictIfPresent
  split
  · next hset => exact ⟨htree.trans (FileTree.sameStores_setMode hset), fun _ _ => trivial⟩
  · exact ⟨htree, fun _ _ => trivial⟩

/-- A directory that is prepared changes no store. -/
theorem prepareFolder_keeps (path : String) :
    (prepareFolder path).Keeps start.SameStores fun _ => True := by
  unfold prepareFolder
  split
  · exact keeps_pure trivial
  · exact keeps_pure trivial
  · exact (makePath_keeps _).andThen fun _ => restrictDirectory_keeps _

/-- A file that is prepared changes no store. -/
theorem prepareFile_keeps (path : String) : (prepareFile path).Keeps start.SameStores fun _ => True := by
  have hopen : (step "create database file" path (·.openFile path)).Keeps start.SameStores fun _ => True :=
    step_keeps fun _ _ hopen => FileTree.sameStores_openFile hopen
  have hmode : (step "restrict permissions of" path
      (·.setMode path FileTree.privateFileMode)).Keeps start.SameStores fun _ => True :=
    step_keeps fun _ _ hset => FileTree.sameStores_setMode hset
  have hsidecars (paths : List String) :
      (paths.forM restrictIfPresent).Keeps start.SameStores fun _ => True := by
    induction paths with
    | nil => exact keeps_pure trivial
    | cons path paths ih => exact (restrictIfPresent_keeps path).andThen fun _ => ih
  exact hopen.andThen fun _ => hmode.andThen fun _ => hsidecars (sidecars path)

/-- The preparation of a database file changes no store. -/
theorem prepareDatabase_keeps (path : String) :
    (prepareDatabase path).Keeps start.SameStores fun _ => True :=
  (prepareFolder_keeps path).andThen fun _ => prepareFile_keeps path

end Prepare

end FileAction

end AccountPool
