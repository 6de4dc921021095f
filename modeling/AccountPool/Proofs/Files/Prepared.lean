import AccountPool.Proofs.Files.Places

/-!
# What preparing a database leaves

Preparing a database makes the directories that are missing above its file, restricts the directory and the file
to their owner, and restricts the files beside it whose paths are not too long. `FileTree.Prepared` says what is at
every place afterwards, and `FileAction.prepareDatabase_leaves_private` that it is so, and that preparing a database
again changes nothing.
-/

namespace AccountPool

/-- A directory is private if it is the user's. If it was there before, only its permissions have changed, and they
have not if it is somebody else's or was private. -/
structure FileEntry.RestrictedFrom (entry : FileEntry) (found : Option FileEntry) : Prop where
  isPrivate : entry.owned = true → entry.isPrivate = true
  same : ∀ before, found = some before → { entry with mode := before.mode } = before
  kept : ∀ before, found = some before → before.owned = false ∨ before.isPrivate = true → entry = before

namespace FileTree

variable (tree : FileTree) {next last : FileTree} {place : FilePlace} {path sidecar : String} {entry : FileEntry}

/-- A place is on the way to a file, not in front of where its path starts. -/
def Above (path : String) (place : FilePlace) : Prop :=
  tree.start path <+: place ∧ place <+: tree.placeOf path ∧ place ≠ tree.placeOf path

/-- The places that the preparation of a database may change. -/
inductive Touched (path : String) : FilePlace → Prop where
  | file : Touched path (tree.placeOf path)
  | sidecar {sidecar : String} {entry : FileEntry} (hsidecar : sidecar ∈ FileAction.sidecars path)
      (hentry : tree.lookup? (tree.placeOf sidecar) = some entry) (hmay : tree.MayRestrict sidecar entry) :
      Touched path (tree.placeOf sidecar)
  /-- The directory that the path names. -/
  | folder {parent : String} (hparent : Path.parent? path = some parent) (hne : parent ≠ "") :
      Touched path (tree.placeOf parent)
  /-- A missing directory above the file. -/
  | missing {place : FilePlace} (hnone : tree.lookup? place = none) (habove : tree.Above path place) :
      Touched path place

/-- What the preparation of a database leaves. -/
structure Prepared (path : String) (next : FileTree) : Prop where
  /-- The file has its previous content, or is new. -/
  file : next.lookup? (tree.placeOf path) =
    some { (tree.lookup? (tree.placeOf path)).getD newFile with mode := privateFileMode }
  regular : ∀ entry, tree.lookup? (tree.placeOf path) = some entry → entry.isDirectory = false
  sidecar : ∀ sidecar ∈ FileAction.sidecars path, ∀ entry,
    tree.lookup? (tree.placeOf sidecar) = some entry → tree.MayRestrict sidecar entry →
    next.lookup? (tree.placeOf sidecar) = some { entry with mode := privateFileMode }
  folder : ∀ parent, Path.parent? path = some parent → parent ≠ "" →
    ∃ entry, next.lookup? (tree.placeOf parent) = some entry ∧
      entry.RestrictedFrom (tree.lookup? (tree.placeOf parent))
  above : ∀ place, tree.Above path place → next.HasDirectory place
  other : ∀ place, ¬ tree.Touched path place → next.lookup? place = tree.lookup? place
  current : next.current = tree.current
  privileged : next.privileged = tree.privileged

/-- Only directories are added, above a file. -/
structure Adds (path : String) (next : FileTree) : Prop where
  current : next.current = tree.current
  privileged : next.privileged = tree.privileged
  lookup : ∀ place, next.lookup? place = tree.lookup? place ∨
    tree.lookup? place = none ∧ tree.Above path place

/-- The directory of a file is made and restricted, if its path names one. -/
structure Readies (path : String) (next : FileTree) : Prop where
  current : next.current = tree.current
  privileged : next.privileged = tree.privileged
  folder : ∀ parent, Path.parent? path = some parent → parent ≠ "" →
    ∃ entry, next.lookup? (tree.placeOf parent) = some entry ∧
      entry.RestrictedFrom (tree.lookup? (tree.placeOf parent))
  other : ∀ place, (∀ parent, Path.parent? path = some parent → parent ≠ "" → place ≠ tree.placeOf parent) →
    next.lookup? place = tree.lookup? place ∨ tree.lookup? place = none ∧ tree.Above path place

/-- A file is made, unless it is there, and restricted. -/
structure Secures (path : String) (next : FileTree) : Prop where
  current : next.current = tree.current
  privileged : next.privileged = tree.privileged
  regular : ∀ entry, tree.lookup? (tree.placeOf path) = some entry → entry.isDirectory = false
  file : ∃ entry, next.lookup? (tree.placeOf path) = some entry ∧ next.allows entry.owned = true ∧
    entry = { (tree.lookup? (tree.placeOf path)).getD newFile with mode := privateFileMode }
  other : ∀ place, place ≠ tree.placeOf path → next.lookup? place = tree.lookup? place

/-- The files beside a database are restricted to their owner where this is possible through their paths. -/
structure RestrictsBeside (path : String) (next : FileTree) : Prop where
  current : next.current = tree.current
  privileged : next.privileged = tree.privileged
  restricted : ∀ sidecar ∈ FileAction.sidecars path, ∀ entry,
    tree.lookup? (tree.placeOf sidecar) = some entry → tree.MayRestrict sidecar entry →
    next.lookup? (tree.placeOf sidecar) = some { entry with mode := privateFileMode }
  settled : ∀ sidecar ∈ FileAction.sidecars path, ∀ entry,
    next.lookup? (tree.placeOf sidecar) = some entry → tree.MayRestrict sidecar entry →
    entry.mode = privateFileMode
  other : ∀ place, (∀ sidecar ∈ FileAction.sidecars path, ∀ entry, place = tree.placeOf sidecar →
    tree.lookup? place = some entry → ¬ tree.MayRestrict sidecar entry) →
    next.lookup? place = tree.lookup? place

/-- A file is restricted to its owner if this is possible through its path, and nothing else happens. -/
structure Restricts (path : String) (next : FileTree) : Prop where
  current : next.current = tree.current
  privileged : next.privileged = tree.privileged
  restricted : ∀ entry, tree.lookup? (tree.placeOf path) = some entry → tree.MayRestrict path entry →
    next.lookup? (tree.placeOf path) = some { entry with mode := privateFileMode }
  settled : ∀ entry, next.lookup? (tree.placeOf path) = some entry → tree.MayRestrict path entry →
    entry.mode = privateFileMode
  other : ∀ place, (∀ entry, place = tree.placeOf path → tree.lookup? place = some entry →
    ¬ tree.MayRestrict path entry) → next.lookup? place = tree.lookup? place

variable {tree}

/-- An entry that is there already changes nothing. -/
theorem withEntry_self (hplace : place ≠ []) (h : tree.lookup? place = some entry) :
    tree.withEntry place entry = tree := by
  have hfind : tree.entries.find? place = some entry := by
    unfold lookup? at h
    split at h
    · next hfound => rw [hfound, h]
    · exact absurd rfl hplace
    · cases h
  unfold withEntry
  congr 1
  refine SortedMap.ext_find? fun other => ?_
  rw [SortedMap.find?_insert]
  split
  · next hsame => rw [hsame, hfind]
  · rfl

/-- One more missing directory is added. -/
theorem Adds.withEntry (h : tree.Adds path next) (hnone : next.lookup? place = none)
    (habove : tree.Above path place) : tree.Adds path (next.withEntry place newDirectory) := by
  refine ⟨h.current, h.privileged, fun other => ?_⟩
  rw [lookup?_withEntry]
  by_cases hother : other = place
  · rw [if_pos hother, hother]
    obtain hsame | hnew := h.lookup place
    · exact .inr ⟨hsame ▸ hnone, habove⟩
    · exact .inr hnew
  · rw [if_neg hother]
    exact h.lookup other

end FileTree

namespace FileAction

open FileTree

variable {tree next last : FileTree} {path parent : String} {front : List String} {name : String}
  {entry : FileEntry}

/-! ## Steps -/

/-- Two actions succeed if one does after the other. -/
theorem run_bind_eq_ok_iff {first : FileAction Unit} {following : Unit → FileAction Unit} :
    (first >>= following) tree = (.ok (), last) ↔
      ∃ next, first tree = (.ok (), next) ∧ following () next = (.ok (), last) := by
  have hrun : (first >>= following) tree = ExceptT.bindCont following (first tree).1 (first tree).2 := rfl
  rw [hrun]
  obtain ⟨answer, next⟩ := first tree
  cases answer with
  | error error =>
      refine iff_of_false (fun h => ?_) fun ⟨_, h, _⟩ => ?_
      · cases h
      · cases h
  | ok value =>
      constructor
      · exact fun h => ⟨next, rfl, h⟩
      · rintro ⟨_, ⟨⟩, h⟩
        exact h

/-- A step succeeds if the change does. -/
theorem step_eq_ok_iff {action : String} {change : FileTree → Except FileCause FileTree} :
    step action path change tree = (.ok (), next) ↔ change tree = .ok next := by
  unfold step
  split
  · next hchange =>
      rw [hchange]
      constructor <;>
      · rintro ⟨⟩
        rfl
  · next hchange =>
      rw [hchange]
      refine iff_of_false (fun h => ?_) fun h => ?_ <;> cases h

/-- A database is prepared in steps: its directory, its file, the permissions of the file, and the files beside. -/
theorem prepareDatabase_eq_ok_iff : prepareDatabase path tree = (.ok (), last) ↔
    ∃ ready opened closed logged, prepareFolder path tree = (.ok (), ready) ∧
      ready.openFile path = .ok opened ∧ opened.setMode path privateFileMode = .ok closed ∧
      restrictIfPresent (path ++ "-wal") closed = (.ok (), logged) ∧
      restrictIfPresent (path ++ "-shm") logged = (.ok (), last) := by
  have hsidecars (closed : FileTree) : (sidecars path).forM restrictIfPresent closed = (.ok (), last) ↔
      ∃ logged, restrictIfPresent (path ++ "-wal") closed = (.ok (), logged) ∧
        restrictIfPresent (path ++ "-shm") logged = (.ok (), last) := by
    have hforM : (sidecars path).forM restrictIfPresent = (restrictIfPresent (path ++ "-wal") >>= fun _ =>
      restrictIfPresent (path ++ "-shm") >>= fun _ => pure () : FileAction Unit) := rfl
    have hpure (result final : FileTree) :
        (pure () : FileAction Unit) result = (.ok (), final) ↔ result = final :=
      ⟨fun h => by cases h; rfl, fun h => h ▸ rfl⟩
    simp only [hforM, run_bind_eq_ok_iff, hpure, exists_eq_right]
  unfold prepareDatabase prepareFile
  simp only [run_bind_eq_ok_iff, step_eq_ok_iff, hsidecars]
  constructor
  · rintro ⟨ready, hready, opened, hopened, closed, hclosed, logged, hlogged, hlast⟩
    exact ⟨ready, opened, closed, logged, hready, hopened, hclosed, hlogged, hlast⟩
  · rintro ⟨ready, opened, closed, logged, hready, hopened, hclosed, hlogged, hlast⟩
    exact ⟨ready, hready, opened, hopened, closed, hclosed, logged, hlogged, hlast⟩

/-! ## The directory -/

theorem makePath_eq_ok_iff :
    makePath path tree = (.ok (), next) ↔ makeDirectories tree (Path.lineage path) = (.ok (), next) := by
  unfold makePath
  split
  · next hmake =>
      rw [hmake]
      constructor <;>
      · rintro ⟨⟩
        rfl
  · next hmake =>
      rw [hmake]
      refine iff_of_false (fun h => ?_) fun h => ?_ <;> cases h

theorem restrictDirectory_eq_ok_iff : restrictDirectory path tree = (.ok (), next) ↔
    ∃ entry, tree.stat path = .ok entry ∧
      ((entry.owned = false ∨ entry.isPrivate = true) ∧ next = tree ∨
        entry.owned = true ∧ entry.isPrivate = false ∧ tree.setMode path privateDirectoryMode = .ok next) := by
  unfold restrictDirectory
  cases hstat : tree.stat path with
  | error cause =>
      refine iff_of_false (fun h => ?_) ?_
      · cases h
      · rintro ⟨_, h, -⟩
        cases h
  | ok entry =>
      dsimp only
      split
      · next hkeep =>
          constructor
          · rintro ⟨⟩
            exact ⟨entry, rfl, .inl ⟨by simpa [or_comm] using hkeep, rfl⟩⟩
          · rintro ⟨_, ⟨⟩, ⟨-, rfl⟩ | ⟨howned, hpublic, -⟩⟩
            · rfl
            · simp [howned, hpublic] at hkeep
      · next hset =>
          have hentry : entry.owned = true ∧ entry.isPrivate = false := by simpa [and_comm] using hset
          rw [step_eq_ok_iff]
          constructor
          · exact fun h => ⟨entry, rfl, .inr ⟨hentry.1, hentry.2, h⟩⟩
          · rintro ⟨_, ⟨⟩, ⟨hkeep, -⟩ | ⟨-, -, h⟩⟩
            · simp [hentry] at hkeep
            · exact h

/-- The parent of a plain path, and what is above it, is above the file. -/
theorem above_of_mem_lineage {ancestor : String} (hplain : Path.IsPlain path)
    (hparent : Path.parent? path = some parent) (h : ancestor ∈ Path.lineage parent) :
    Path.IsPlain ancestor ∧ tree.Above path (tree.placeOf ancestor) := by
  obtain ⟨hplain', ⟨name, hnames⟩, habsolute, -⟩ := Path.of_parent? hplain hparent
  obtain ⟨hplain'', hfront, hsame⟩ := Path.of_mem_lineage hplain' h
  have hplace : tree.placeOf ancestor = tree.start path ++ Path.names ancestor := by
    rw [placeOf, start, hsame.trans habsolute]
    rfl
  refine ⟨hplain'', hplace ▸ List.prefix_append _ _, ?_, ?_⟩
  · rw [hplace, placeOf, List.prefix_append_right_inj, hnames]
    exact hfront.trans (List.prefix_append _ _)
  · rw [hplace, placeOf]
    intro heq
    have hlength := hfront.length_le
    rw [List.append_cancel_left heq, hnames, List.length_append, List.length_singleton] at hlength
    omega

/-- Directories that are made are made above the file. -/
theorem makeDirectories_adds {paths : List String}
    (hpaths : ∀ ancestor ∈ paths, Path.IsPlain ancestor ∧ tree.Above path (tree.placeOf ancestor)) :
    tree.Adds path (makeDirectories tree paths).2 := by
  refine makeDirectories_keeps (fun ancestor hancestor next last hadds hmake => ?_)
    ⟨rfl, rfl, fun _ => .inl rfl⟩
  obtain ⟨hplain', habove⟩ := hpaths ancestor hancestor
  obtain ⟨hnone, rfl⟩ := makeDirectory_eq_ok hplain' hmake
  rw [placeOf_congr hadds.current] at hnone ⊢
  exact hadds.withEntry hnone habove

/-- There is nothing to do unless the path names a directory. -/
theorem prepareFolder_cases (path : String) :
    ((∀ parent, Path.parent? path = some parent → parent = "") ∧ prepareFolder path = pure ()) ∨
    ∃ parent, Path.parent? path = some parent ∧ parent ≠ "" ∧
      prepareFolder path = (makePath parent >>= fun _ => restrictDirectory parent) := by
  unfold prepareFolder
  split
  · next hparent => exact .inl ⟨fun parent h => (by rw [hparent] at h; cases h), rfl⟩
  · next hparent => exact .inl ⟨fun parent h => (by rw [hparent] at h; cases h; rfl), rfl⟩
  · next parent hne hparent => exact .inr ⟨parent, hparent, hne, rfl⟩

/-- The directory of a file is ready. -/
theorem prepareFolder_readies (hplain : Path.IsPlain path) (h : prepareFolder path tree = (.ok (), next)) :
    tree.Readies path next := by
  obtain ⟨hnothing, haction⟩ | ⟨parent, hparent, hne, haction⟩ := prepareFolder_cases path
  · rw [haction] at h
    cases h
    exact ⟨rfl, rfl, fun parent hparent hne => absurd (hnothing parent hparent) hne, fun _ _ => .inl rfl⟩
  · rw [haction, run_bind_eq_ok_iff] at h
    obtain ⟨made, hmake, hrestrict⟩ := h
    have hplain' := (@above_of_mem_lineage tree _ _ _ hplain hparent (Path.mem_lineage hne)).1
    have hadds : tree.Adds path made := by
      have hall := makeDirectories_adds fun _ => @above_of_mem_lineage tree _ _ _ hplain hparent
      rwa [makePath_eq_ok_iff.1 hmake] at hall
    obtain ⟨entry, hstat, hrestrict⟩ := restrictDirectory_eq_ok_iff.1 hrestrict
    have hentry := ((stat_eq_ok_iff hplain').1 hstat).2
    rw [placeOf_congr hadds.current] at hentry
    have hbefore (before : FileEntry) (h : tree.lookup? (tree.placeOf parent) = some before) :
        entry = before := by
      obtain hsame | ⟨hnone, -⟩ := hadds.lookup (tree.placeOf parent)
      · exact Option.some.inj (hentry.symm.trans (hsame.trans h))
      · rw [h] at hnone
        cases hnone
    obtain ⟨hkeep, rfl⟩ | ⟨howned, hpublic, hset⟩ := hrestrict
    · refine ⟨hadds.current, hadds.privileged, fun other hother _ => ?_, fun place _ => hadds.lookup place⟩
      obtain rfl : parent = other := Option.some.inj (hparent.symm.trans hother)
      refine ⟨entry, hentry, ⟨fun howned => ?_, fun before h => ?_, fun before h _ => hbefore before h⟩⟩
      · simpa [howned] using hkeep
      · rw [hbefore before h]
    · obtain ⟨-, found, hfound, -, rfl⟩ := (setMode_eq_ok_iff hplain').1 hset
      rw [placeOf_congr hadds.current] at hfound ⊢
      obtain rfl : entry = found := Option.some.inj (hentry.symm.trans hfound)
      refine ⟨hadds.current, hadds.privileged, fun other hother _ => ?_, fun place hplace => ?_⟩
      · obtain rfl : parent = other := Option.some.inj (hparent.symm.trans hother)
        refine ⟨_, by rw [lookup?_withEntry, if_pos rfl], ⟨fun _ => ?_, fun before h => ?_, ?_⟩⟩
        · exact decide_eq_true (show privateDirectoryMode % 0o100 = 0 from rfl)
        · rw [hbefore before h]
        · intro before h hkeep
          rw [← hbefore before h, howned, hpublic] at hkeep
          simp at hkeep
      · rw [lookup?_withEntry, if_neg (hplace parent hparent hne)]
        exact hadds.lookup place

/-! ## The file -/

/-- The file is opened and restricted. -/
theorem openFile_secures {opened : FileTree} (hplain : Path.IsPlain path) (hopen : tree.openFile path = .ok opened)
    (hset : opened.setMode path privateFileMode = .ok next) :
    tree.Secures path next ∧ ∃ front name, next.NamesFile path front name := by
  obtain ⟨front, name, hfile, hopened⟩ := openFile_eq_ok hplain hopen
  obtain ⟨-, entry, hentry, howned, rfl⟩ := (setMode_eq_ok_iff hplain).1 hset
  obtain ⟨hnone, rfl⟩ | ⟨found, hfound, hregular, rfl⟩ := hopened
  · rw [placeOf_withEntry] at hentry ⊢
    rw [lookup?_withEntry, if_pos rfl] at hentry
    cases hentry
    refine ⟨⟨rfl, rfl, fun found hfound => ?_, ⟨newFile, ?_, howned, ?_⟩, fun place hplace => ?_⟩,
      front, name, ?_⟩
    · rw [hnone] at hfound
      cases hfound
    · rw [lookup?_withEntry, if_pos rfl]
      rfl
    · rw [hnone]
      rfl
    · rw [lookup?_withEntry, if_neg hplace, lookup?_withEntry, if_neg hplace]
    · exact (hfile.withEntry hfile.not_on_way).withEntry hfile.not_on_way
  · obtain rfl : found = entry := Option.some.inj (hfound.symm.trans hentry)
    refine ⟨⟨rfl, rfl, fun other hother => ?_, ⟨{ found with mode := privateFileMode }, ?_, howned, ?_⟩,
      fun place hplace => ?_⟩, front, name, ?_⟩
    · obtain rfl : found = other := Option.some.inj (hfound.symm.trans hother)
      exact hregular
    · rw [lookup?_withEntry, if_pos rfl]
    · rw [hfound]
      rfl
    · rw [lookup?_withEntry, if_neg hplace]
    · exact hfile.withEntry hfile.not_on_way

/-- A file beside a database. -/
theorem exists_suffix_of_mem_sidecars {sidecar : String} (h : sidecar ∈ sidecars path) :
    ∃ suffix, sidecar = path ++ suffix ∧ '/' ∉ suffix.toList ∧ Char.ofNat 0 ∉ suffix.toList ∧
      2 < suffix.length := by
  rw [sidecars, List.mem_cons, List.mem_singleton] at h
  obtain rfl | rfl := h
  · exact ⟨"-wal", rfl, by decide⟩
  · exact ⟨"-shm", rfl, by decide⟩

/-- A file beside a database is restricted. -/
theorem restrictIfPresent_restricts {sidecar : String} (hplain : Path.IsPlain path)
    (hfile : tree.NamesFile path front name) (hsidecar : sidecar ∈ sidecars path)
    (h : restrictIfPresent sidecar tree = (.ok (), next)) : tree.Restricts sidecar next := by
  obtain ⟨suffix, rfl, hslash, hnull, hlong⟩ := exists_suffix_of_mem_sidecars hsidecar
  unfold restrictIfPresent at h
  split at h
  · next hset =>
      cases h
      obtain ⟨entry, hentry, hmay, rfl⟩ := (hfile.setMode_append_iff hslash hnull hlong hplain).1 hset
      refine ⟨rfl, rfl, fun other hother _ => ?_, fun other hother _ => ?_, fun place hplace => ?_⟩
      · obtain rfl : entry = other := Option.some.inj (hentry.symm.trans hother)
        rw [lookup?_withEntry, if_pos rfl]
      · rw [lookup?_withEntry, if_pos rfl] at hother
        cases hother
        rfl
      · rw [lookup?_withEntry, if_neg]
        rintro rfl
        exact hplace entry rfl hentry hmay
  · next hset =>
      cases h
      have hnone (entry : FileEntry) (hentry : tree.lookup? (tree.placeOf (path ++ suffix)) = some entry) :
          ¬ tree.MayRestrict (path ++ suffix) entry := fun hmay => by
        rw [(hfile.setMode_append_iff hslash hnull hlong hplain).2 ⟨entry, hentry, hmay, rfl⟩] at hset
        cases hset
      exact ⟨rfl, rfl, fun entry hentry hmay => absurd hmay (hnone entry hentry),
        fun entry hentry hmay => absurd hmay (hnone entry hentry), fun _ _ => rfl⟩

/-- Files beside a database are not on the way to its file. -/
theorem sidecar_not_on_way {sidecar : String} (hfile : tree.NamesFile path front name)
    (hsidecar : sidecar ∈ sidecars path) : ¬ tree.placeOf sidecar <+: tree.placeOf path := by
  obtain ⟨suffix, rfl, hslash, -, hlong⟩ := exists_suffix_of_mem_sidecars hsidecar
  rw [hfile.placeOf_append hslash hlong, hfile.placeOf_eq]
  intro hfront
  obtain ⟨-, hnames⟩ := List.append_inj' (hfront.eq_of_length (by simp)) rfl
  have hlength := congrArg String.length (List.singleton_inj.1 hnames)
  rw [String.length_append] at hlength
  omega

/-- What is on the way to a file stays when files beside it are restricted. -/
theorem lookup?_of_restrictsBeside {place : FilePlace} (h : tree.RestrictsBeside path next)
    (hfile : tree.NamesFile path front name) (hplace : place <+: tree.placeOf path) :
    next.lookup? place = tree.lookup? place := by
  refine h.other place ?_
  rintro sidecar hsidecar entry rfl
  exact absurd hplace (sidecar_not_on_way hfile hsidecar)

/-- The way to a file stays when a file beside it is restricted. -/
theorem namesFile_of_restricts {sidecar : String} (hfile : tree.NamesFile path front name)
    (hsidecar : sidecar ∈ sidecars path) (h : tree.Restricts sidecar next) : next.NamesFile path front name := by
  refine hfile.congr h.current h.privileged fun place hplace => h.other place ?_
  rintro entry rfl
  exact absurd (hplace.trans hfile.folder_on_way) (sidecar_not_on_way hfile hsidecar)

/-- The files beside a database are restricted. -/
theorem sidecars_restricts (hplain : Path.IsPlain path) (hfile : tree.NamesFile path front name)
    {logged : FileTree} (hlogged : restrictIfPresent (path ++ "-wal") tree = (.ok (), logged))
    (hlast : restrictIfPresent (path ++ "-shm") logged = (.ok (), next)) :
    tree.RestrictsBeside path next ∧ next.NamesFile path front name := by
  have hwal : path ++ "-wal" ∈ sidecars path := by simp [sidecars]
  have hshm : path ++ "-shm" ∈ sidecars path := by simp [sidecars]
  have hfirst := restrictIfPresent_restricts hplain hfile hwal hlogged
  have hfile' := namesFile_of_restricts hfile hwal hfirst
  have hsecond := restrictIfPresent_restricts hplain hfile' hshm hlast
  have hplace := placeOf_congr hfirst.current (path ++ "-shm")
  have hne : tree.placeOf (path ++ "-wal") ≠ tree.placeOf (path ++ "-shm") := by
    rw [hfile.placeOf_append (by decide) (by decide), hfile.placeOf_append (by decide) (by decide)]
    intro h
    have hnames := List.singleton_inj.1 (List.append_cancel_left h)
    rw [String.append_right_inj] at hnames
    exact absurd hnames (by decide)
  have hwalKept : next.lookup? (tree.placeOf (path ++ "-wal")) = logged.lookup? (tree.placeOf (path ++ "-wal")) :=
    hsecond.other _ fun _ h => absurd (h.trans hplace) hne
  have hshmKept : logged.lookup? (tree.placeOf (path ++ "-shm")) = tree.lookup? (tree.placeOf (path ++ "-shm")) :=
    hfirst.other _ fun _ h => absurd h.symm hne
  refine ⟨⟨hsecond.current.trans hfirst.current, hsecond.privileged.trans hfirst.privileged,
    List.forall_mem_cons.2 ⟨?_, List.forall_mem_singleton.2 ?_⟩,
    List.forall_mem_cons.2 ⟨?_, List.forall_mem_singleton.2 ?_⟩, ?_⟩,
    namesFile_of_restricts hfile' hshm hsecond⟩
  · rw [hwalKept]
    exact hfirst.restricted
  · intro entry hentry hmay
    rw [← hplace]
    exact hsecond.restricted entry (by rw [hplace, hshmKept, hentry]) (hmay.congr hfirst.privileged)
  · rw [hwalKept]
    exact hfirst.settled
  · intro entry hentry hmay
    exact hsecond.settled entry (hplace ▸ hentry) (hmay.congr hfirst.privileged)
  · intro place hother
    have hsame : logged.lookup? place = tree.lookup? place :=
      hfirst.other place (hother _ hwal)
    rw [hsecond.other place, hsame]
    intro entry h hentry hmay
    exact hother _ hshm entry (h.trans hplace) (hsame ▸ hentry) (hmay.congr hfirst.privileged.symm)

/-- A step that restricts a file never fails. -/
theorem exists_restrictIfPresent (path : String) (tree : FileTree) :
    ∃ next, restrictIfPresent path tree = (.ok (), next) := by
  unfold restrictIfPresent
  split <;> exact ⟨_, rfl⟩

/-! ## Files that are there -/

/-- The directory of a file that can be reached stays, unless it is the user's and not private, and is restricted
then. -/
theorem prepareFolder_of_namesFile (hplain : Path.IsPlain path) (hfile : tree.NamesFile path front name) :
    prepareFolder path tree = (.ok (), tree) ∨
    ∃ parent entry, Path.parent? path = some parent ∧ parent ≠ "" ∧
      tree.lookup? (tree.placeOf parent) = some entry ∧ entry.isDirectory = true ∧ entry.owned = true ∧
      entry.isPrivate = false ∧ prepareFolder path tree =
        (.ok (), tree.withEntry (tree.placeOf parent) { entry with mode := privateDirectoryMode }) := by
  obtain ⟨-, haction⟩ | ⟨parent, hparent, hne, haction⟩ := prepareFolder_cases path
  · left
    rw [haction]
    rfl
  obtain ⟨hplain', ⟨last, hnames⟩, habsolute, rest, hrest⟩ := Path.of_parent? hplain hparent
  have hstart : tree.start parent = tree.start path := by rw [start, start, habsolute]
  obtain rfl : front = Path.names parent := (List.append_inj' (hfile.spelled.symm.trans hnames) rfl).1
  have hplace : tree.placeOf parent = tree.start path ++ Path.names parent := by rw [placeOf, hstart]
  have hsearch : tree.Searchable (tree.placeOf parent) := hplace ▸ hfile.folder
  obtain ⟨found, hfound, hdirectory, -⟩ := id hsearch
  have hfind : tree.find parent = .ok (tree.placeOf parent) := by
    refine (find_eq_ok_iff hplain').2 ⟨?_, rfl, hstart ▸ hfile.leads, fun _ => hsearch.hasDirectory⟩
    exact requirePath_of_append (hrest ▸ hfile.valid) hne
  have hstat : tree.stat parent = .ok found := (stat_eq_ok_iff hplain').2 ⟨hfind, hfound⟩
  have hmake : makePath parent tree = (.ok (), tree) := by
    obtain ⟨above, hlineage⟩ := Path.lineage_cons hne
    rw [makePath_eq_ok_iff, hlineage, makeDirectories, makeDirectory_of_found hplain' hfind hsearch]
    refine if_pos ⟨rfl, ?_⟩
    rw [isDirectory, hstat]
    exact hdirectory
  have hrun {last : FileTree} (hrestrict : restrictDirectory parent tree = (.ok (), last)) :
      prepareFolder path tree = (.ok (), last) := by
    rw [haction, run_bind_eq_ok_iff]
    exact ⟨tree, hmake, hrestrict⟩
  by_cases hkeep : found.owned = false ∨ found.isPrivate = true
  · exact .inl (hrun (restrictDirectory_eq_ok_iff.2 ⟨found, hstat, .inl ⟨hkeep, rfl⟩⟩))
  · obtain ⟨howned, hpublic⟩ : found.owned = true ∧ found.isPrivate = false := by simpa using hkeep
    refine .inr ⟨parent, found, hparent, hne, hfound, hdirectory, howned, hpublic, hrun ?_⟩
    refine restrictDirectory_eq_ok_iff.2 ⟨found, hstat, .inr ⟨howned, hpublic, ?_⟩⟩
    refine (setMode_eq_ok_iff hplain').2 ⟨hfind, found, hfound, ?_, rfl⟩
    rw [allows, howned, Bool.or_true]

/-- A database is prepared if its file is there and the user may read, write and restrict it. -/
theorem exists_prepareDatabase (hplain : Path.IsPlain path) (hfile : tree.NamesFile path front name)
    (hentry : tree.lookup? (tree.placeOf path) = some entry) (hregular : entry.isDirectory = false)
    (hallowed : tree.allows (entry.readable && entry.writable) = true)
    (howned : tree.allows entry.owned = true) : ∃ next, prepareDatabase path tree = (.ok (), next) := by
  obtain ⟨ready, hready, hfile', hentry', hprivileged, hplace⟩ : ∃ ready,
      prepareFolder path tree = (.ok (), ready) ∧ ready.NamesFile path front name ∧
      ready.lookup? (tree.placeOf path) = some entry ∧ ready.privileged = tree.privileged ∧
      ready.placeOf path = tree.placeOf path := by
    obtain hready | ⟨parent, found, hparent, hne, hfound, hdirectory, hfoundOwned, -, hready⟩ :=
      prepareFolder_of_namesFile hplain hfile
    · exact ⟨tree, hready, hfile, hentry, rfl, rfl⟩
    · have habove : tree.Above path (tree.placeOf parent) :=
        (above_of_mem_lineage hplain hparent (Path.mem_lineage hne)).2
      refine ⟨_, hready, hfile.withDirectory hdirectory ?_, ?_, rfl, rfl⟩
      · simp [allows, FileEntry.searchable, FileEntry.grants, privateDirectoryMode, hfoundOwned]
      · rw [lookup?_withEntry, if_neg habove.2.2.symm]
        exact hentry
  rw [← hplace] at hentry'
  have hsame (granted : Bool) : ready.allows granted = tree.allows granted := by
    rw [allows, allows, hprivileged]
  have hopen : ready.openFile path = .ok ready :=
    openFile_of_file hplain hfile' hentry' hregular ((hsame _).trans hallowed)
  have hset : ready.setMode path privateFileMode =
      .ok (ready.withEntry (ready.placeOf path) { entry with mode := privateFileMode }) :=
    (setMode_eq_ok_iff hplain).2 ⟨hfile'.find hplain hentry', entry, hentry', (hsame _).trans howned, rfl⟩
  obtain ⟨logged, hlogged⟩ := exists_restrictIfPresent (path ++ "-wal")
    (ready.withEntry (ready.placeOf path) { entry with mode := privateFileMode })
  obtain ⟨next, hnext⟩ := exists_restrictIfPresent (path ++ "-shm") logged
  exact ⟨next, prepareDatabase_eq_ok_iff.2 ⟨ready, ready, _, logged, hready, hopen, hset, hlogged, hnext⟩⟩

/-- A database that is prepared already stays as it is. -/
theorem prepareDatabase_of_prepared (hplain : Path.IsPlain path) (hfile : tree.NamesFile path front name)
    (hentry : tree.lookup? (tree.placeOf path) = some entry) (hregular : entry.isDirectory = false)
    (hmode : entry.mode = privateFileMode) (howned : tree.allows entry.owned = true)
    (hfolder : ∀ parent, Path.parent? path = some parent → parent ≠ "" →
      ∀ entry, tree.lookup? (tree.placeOf parent) = some entry → entry.owned = false ∨ entry.isPrivate = true)
    (hsidecars : ∀ sidecar ∈ sidecars path, ∀ entry, tree.lookup? (tree.placeOf sidecar) = some entry →
      tree.MayRestrict sidecar entry → entry.mode = privateFileMode) :
    prepareDatabase path tree = (.ok (), tree) := by
  have hready : prepareFolder path tree = (.ok (), tree) := by
    obtain hready | ⟨parent, found, hparent, hne, hfound, -, hfoundOwned, hpublic, -⟩ :=
      prepareFolder_of_namesFile hplain hfile
    · exact hready
    · have hkeep := hfolder parent hparent hne found hfound
      simp [hfoundOwned, hpublic] at hkeep
  have hopen : tree.openFile path = .ok tree := by
    refine openFile_of_file hplain hfile hentry hregular ?_
    rw [allows, Bool.or_eq_true] at howned ⊢
    refine howned.imp_right fun howned => ?_
    simp [FileEntry.readable, FileEntry.writable, FileEntry.grants, hmode, howned, privateFileMode]
  have hsame {place : FilePlace} {found : FileEntry} (hplace : place ≠ [])
      (hfound : tree.lookup? place = some found) (hmode : found.mode = privateFileMode) :
      tree.withEntry place { found with mode := privateFileMode } = tree := by
    rw [← hmode]
    exact withEntry_self hplace hfound
  have hset : tree.setMode path privateFileMode = .ok tree := by
    refine (setMode_eq_ok_iff hplain).2 ⟨hfile.find hplain hentry, entry, hentry, howned, ?_⟩
    exact (hsame (by simp [hfile.placeOf_eq]) hentry hmode).symm
  have hbeside {sidecar : String} (hsidecar : sidecar ∈ sidecars path) :
      restrictIfPresent sidecar tree = (.ok (), tree) := by
    have hmodes := hsidecars sidecar hsidecar
    obtain ⟨suffix, rfl, hslash, hnull, hlong⟩ := exists_suffix_of_mem_sidecars hsidecar
    unfold restrictIfPresent
    split
    · next hset =>
        obtain ⟨found, hfound, hmay, rfl⟩ := (hfile.setMode_append_iff hslash hnull hlong hplain).1 hset
        rw [hsame _ hfound (hmodes found hfound hmay)]
        simp [hfile.placeOf_append hslash hlong]
    · rfl
  exact prepareDatabase_eq_ok_iff.2 ⟨tree, tree, tree, tree, hready, hopen, hset,
    hbeside (by simp [sidecars]), hbeside (by simp [sidecars])⟩

/-! ## Everything -/

/-- What the steps leave. -/
theorem prepared_of_steps {ready closed : FileTree} (hplain : Path.IsPlain path)
    (hreadies : tree.Readies path ready) (hsecures : ready.Secures path closed)
    (hfile : closed.NamesFile path front name)
    (hbeside : closed.RestrictsBeside path next) (hfile' : next.NamesFile path front name) :
    tree.Prepared path next := by
  have hcurrent : closed.current = tree.current := hsecures.current.trans hreadies.current
  have hprivileged : closed.privileged = tree.privileged := hsecures.privileged.trans hreadies.privileged
  have hready := placeOf_congr hreadies.current
  have hclosed := placeOf_congr hcurrent
  have hnext := placeOf_congr (hbeside.current.trans hcurrent)
  have haway {sidecar : String} (hsidecar : sidecar ∈ sidecars path) :
      ¬ tree.placeOf sidecar <+: tree.placeOf path := by
    rw [← hclosed, ← hclosed]
    exact sidecar_not_on_way hfile hsidecar
  have hfolder {parent : String} (hparent : Path.parent? path = some parent) (hne : parent ≠ "") :
      tree.Above path (tree.placeOf parent) :=
    (above_of_mem_lineage hplain hparent (Path.mem_lineage hne)).2
  have hway {place : FilePlace} (hplace : place <+: tree.placeOf path) :
      next.lookup? place = closed.lookup? place :=
    lookup?_of_restrictsBeside hbeside hfile (hclosed path ▸ hplace)
  have hbefore {place : FilePlace} (hplace : place ≠ tree.placeOf path) :
      closed.lookup? place = ready.lookup? place :=
    hsecures.other place (hready path ▸ hplace)
  have hsame {place : FilePlace} (habove : ¬ tree.Above path place)
      (hparent : ∀ parent, Path.parent? path = some parent → parent ≠ "" → place ≠ tree.placeOf parent) :
      ready.lookup? place = tree.lookup? place :=
    (hreadies.other place hparent).resolve_right fun h => habove h.2
  have hfilePlace : ready.lookup? (tree.placeOf path) = tree.lookup? (tree.placeOf path) :=
    hsame (fun h => h.2.2 rfl) fun parent hparent hne => (hfolder hparent hne).2.2.symm
  have hsidecarPlace {sidecar : String} (hsidecar : sidecar ∈ sidecars path) :
      closed.lookup? (tree.placeOf sidecar) = tree.lookup? (tree.placeOf sidecar) := by
    rw [hbefore fun h => haway hsidecar (h ▸ List.prefix_rfl)]
    exact hsame (fun h => haway hsidecar h.2.1) fun parent hparent hne h =>
      haway hsidecar (h ▸ (hfolder hparent hne).2.1)
  refine ⟨?_, ?_, ?_, ?_, ?_, ?_, hbeside.current.trans hcurrent, hbeside.privileged.trans hprivileged⟩
  · obtain ⟨entry, hentry, -, rfl⟩ := hsecures.file
    rw [hready, hfilePlace] at hentry
    rw [hway List.prefix_rfl, hentry]
  · have hregular := hsecures.regular
    rwa [hready, hfilePlace] at hregular
  · intro sidecar hsidecar entry hentry hmay
    rw [← hclosed]
    refine hbeside.restricted sidecar hsidecar entry ?_ (hmay.congr hprivileged)
    rw [hclosed, hsidecarPlace hsidecar, hentry]
  · intro parent hparent hne
    obtain ⟨-, hplace, hfile⟩ := hfolder hparent hne
    rw [hway hplace, hbefore hfile]
    exact hreadies.folder parent hparent hne
  · rintro place ⟨⟨rest, rfl⟩, hplace, hne⟩
    have hstart : next.start path = tree.start path := by
      rw [start, start, hbeside.current.trans hcurrent]
    rw [placeOf, hfile'.spelled] at hplace hne
    have hrest := (List.prefix_concat_iff.1 ((List.prefix_append_right_inj _).1 hplace)).resolve_left
      fun h => hne (congrArg _ h)
    rw [← hstart]
    exact hfile'.leads.hasDirectory hfile'.folder hrest
  · intro place huntouched
    have hfile : place ≠ tree.placeOf path := fun h => huntouched (h ▸ .file)
    have hparent (parent : String) (hparent : Path.parent? path = some parent) (hne : parent ≠ "") :
        place ≠ tree.placeOf parent := fun h => huntouched (h ▸ .folder hparent hne)
    have hready : ready.lookup? place = tree.lookup? place :=
      (hreadies.other place hparent).resolve_right fun h => huntouched (.missing h.1 h.2)
    have hclosedPlace : closed.lookup? place = tree.lookup? place := (hbefore hfile).trans hready
    rw [← hclosedPlace]
    refine hbeside.other place fun sidecar hsidecar entry h hentry hmay => ?_
    rw [hclosedPlace] at hentry
    rw [hclosed] at h
    exact huntouched (h ▸ .sidecar hsidecar (h ▸ hentry) (hmay.congr hprivileged.symm))

/-- The steps in which a database is prepared, and the directory in which its file is. -/
theorem exists_steps (hplain : Path.IsPlain path) (h : prepareDatabase path tree = (.ok (), next)) :
    ∃ ready closed front name, tree.Readies path ready ∧ ready.Secures path closed ∧
      closed.NamesFile path front name ∧ closed.RestrictsBeside path next ∧ next.NamesFile path front name := by
  obtain ⟨ready, opened, closed, logged, hready, hopen, hset, hlogged, hlast⟩ := prepareDatabase_eq_ok_iff.1 h
  obtain ⟨hsecures, front, name, hfile⟩ := openFile_secures hplain hopen hset
  obtain ⟨hbeside, hfile'⟩ := sidecars_restricts hplain hfile hlogged hlast
  exact ⟨ready, closed, front, name, prepareFolder_readies hplain hready, hsecures, hfile, hbeside, hfile'⟩

/-- What is touched is on the way to the file, or beside it and restricted through its path. -/
theorem on_way_of_touched {place : FilePlace} (hplain : Path.IsPlain path) (h : tree.Touched path place) :
    place <+: tree.placeOf path ∨
      ∃ sidecar ∈ sidecars path, ∃ entry, place = tree.placeOf sidecar ∧ tree.MayRestrict sidecar entry := by
  cases h with
  | file => exact .inl List.prefix_rfl
  | sidecar hsidecar _ hmay => exact .inr ⟨_, hsidecar, _, rfl, hmay⟩
  | folder hparent hne => exact .inl (above_of_mem_lineage hplain hparent (Path.mem_lineage hne)).2.2.1
  | missing _ habove => exact .inl habove.2.1

/-- A file beside a database stays as it is if its path is too long. -/
theorem lookup?_of_long_sidecar {sidecar : String} (hplain : Path.IsPlain path)
    (h : prepareDatabase path tree = (.ok (), next)) (hsidecar : sidecar ∈ sidecars path)
    (hlong : maxPathLength < sidecar.utf8ByteSize) :
    next.lookup? (tree.placeOf sidecar) = tree.lookup? (tree.placeOf sidecar) := by
  obtain ⟨ready, closed, front, name, hreadies, hsecures, hfile, hbeside, hfile'⟩ := exists_steps hplain h
  refine (prepared_of_steps hplain hreadies hsecures hfile hbeside hfile').other _ fun htouched => ?_
  have hclosed := placeOf_congr (hsecures.current.trans hreadies.current)
  obtain hway | ⟨other, hother, entry, -, hmay⟩ := on_way_of_touched hplain htouched
  · rw [← hclosed, ← hclosed] at hway
    exact sidecar_not_on_way hfile hsidecar hway
  · have hsize {sidecar : String} (h : sidecar ∈ sidecars path) :
        sidecar.utf8ByteSize = path.utf8ByteSize + 4 := by
      rw [sidecars, List.mem_cons, List.mem_singleton] at h
      obtain rfl | rfl := h <;>
      · rw [String.utf8ByteSize_append]
        rfl
    have hshort := hmay.length
    rw [hsize hother, ← hsize hsidecar] at hshort
    exact Nat.not_lt.2 hshort hlong

/-- If a database at a plain path is prepared, its file is private and keeps its content, what is beside it and can
be restricted is private and keeps its content, and a directory that its path names is private unless it is
somebody else's. Nothing else is touched but missing directories above the file, which are made. To prepare it again
changes nothing. -/
theorem prepareDatabase_leaves_private (hplain : Path.IsPlain path)
    (h : prepareDatabase path tree = (.ok (), next)) :
    tree.Prepared path next ∧ prepareDatabase path next = (.ok (), next) := by
  obtain ⟨ready, closed, front, name, hreadies, hsecures, hfile, hbeside, hfile'⟩ := exists_steps hplain h
  have hprepared := prepared_of_steps hplain hreadies hsecures hfile hbeside hfile'
  have hcurrent := placeOf_congr hbeside.current
  obtain ⟨entry, hentry, howned, hmode⟩ := hsecures.file
  have hnext : next.lookup? (next.placeOf path) = some entry := by
    rw [hcurrent, lookup?_of_restrictsBeside hbeside hfile List.prefix_rfl, placeOf_congr hsecures.current, hentry]
  have hregular : entry.isDirectory = false := by
    rw [hmode]
    cases hfound : ready.lookup? (ready.placeOf path) with
    | none => rfl
    | some found => exact hsecures.regular found hfound
  refine ⟨hprepared, prepareDatabase_of_prepared hplain hfile' hnext hregular (hmode ▸ rfl) ?_ ?_ ?_⟩
  · rwa [allows, hbeside.privileged]
  · intro parent hparent hne entry hentry
    obtain ⟨found, hfound, hrestricted⟩ := hprepared.folder parent hparent hne
    rw [placeOf_congr hprepared.current] at hentry
    obtain rfl : found = entry := Option.some.inj (hfound.symm.trans hentry)
    cases howned : found.owned with
    | false => exact .inl rfl
    | true => exact .inr (hrestricted.isPrivate howned)
  · intro sidecar hsidecar entry hentry hmay
    rw [hcurrent] at hentry
    exact hbeside.settled sidecar hsidecar entry hentry (hmay.congr hbeside.privileged.symm)

/-- Files that everybody may read, in a directory that everybody may search. -/
def sharedFiles : FileTree where
  entries := .ofList [(["d"], { mode := 0o755, content := .directory }),
    (["d", "p.db"], { mode := 0o644, content := .text "data" }),
    (["d", "p.db-wal"], { mode := 0o644, content := .text "log" })]

/-- Shared files are restricted, and so is their directory. -/
theorem prepareDatabase_leaves_private_shared :
    ∃ next, prepareDatabase "d/p.db" sharedFiles = (.ok (), next) ∧ sharedFiles.Prepared "d/p.db" next ∧
      prepareDatabase "d/p.db" next = (.ok (), next) := by
  have hok : (prepareDatabase "d/p.db" sharedFiles).1.isOk = true := by decide +kernel
  cases hrun : prepareDatabase "d/p.db" sharedFiles with
  | mk answer next =>
      rw [hrun] at hok
      cases answer with
      | error error => cases hok
      | ok value => exact ⟨next, rfl, prepareDatabase_leaves_private (by decide) hrun⟩

/-! ## Paths that are too long for what is beside a file -/

/-- A directory with a file, and with a directory and a file beside it, all open to everybody. -/
def openFiles : FileTree where
  entries := .ofList [(["home"], { mode := 0o755, content := .directory }),
    (["home", "file:d"], { mode := 0o755, content := .directory }),
    (["home", "file:d", "p.db?mode=memory"], { mode := 0o644, content := .text "" }),
    (["home", "file:d", "p.db?mode=memory-shm"], { mode := 0o644, content := .text "" }),
    (["home", "file:d", "p.db?mode=memory-wal"], { mode := 0o755, content := .directory }),
    (["home", "file:d", "p.db?mode=memory-wal", "c.toml"], { mode := 0o644, content := .text "" })]
  current := ["home"]
  privileged := true

/-- A path from the working directory to the file, with more slashes than are needed. The engine takes it for the
name of a database in memory, which may have any length. -/
def slashedPath (count : Nat) : String :=
  "file:d" ++ String.ofList (List.replicate (count + 1) '/') ++ "p.db?mode=memory"

theorem segments_slashedPath (count : Nat) :
    Path.segments (slashedPath count) = ("file:d" :: List.replicate count "") ++ ["p.db?mode=memory"] := by
  have hslashes (cs : List Char) : (List.replicate count '/' ++ cs).splitOn '/' =
      List.replicate count [] ++ cs.splitOn '/' := by
    induction count with
    | zero => rfl
    | succ count ih =>
        rw [List.replicate_succ, List.cons_append, List.splitOn_cons_eq_if_modifyHead, if_pos (by simp), ih]
        rfl
  have hlist : (slashedPath count).toList =
      "file:d".toList ++ '/' :: (List.replicate count '/' ++ "p.db?mode=memory".toList) := by
    simp [slashedPath, List.replicate_succ]
  rw [Path.segments, hlist, List.splitOn_append_cons_self, hslashes]
  simp [List.splitOn_eq_singleton]

theorem utf8ByteSize_slashedPath (count : Nat) : (slashedPath count).utf8ByteSize = count + 23 := by
  have hslashes (count : Nat) : (String.ofList (List.replicate count '/')).utf8ByteSize = count := by
    induction count with
    | zero => rfl
    | succ count ih =>
        rw [List.replicate_succ, String.ofList_cons, String.utf8ByteSize_append, ih, Nat.add_comm]
        rfl
  have hends : "file:d".utf8ByteSize = 6 ∧ "p.db?mode=memory".utf8ByteSize = 16 := by decide
  rw [slashedPath, String.utf8ByteSize_append, String.utf8ByteSize_append, hslashes, hends.1, hends.2]
  omega

theorem isPlain_slashedPath (count : Nat) : Path.IsPlain (slashedPath count) := by
  intro step hstep
  simp only [segments_slashedPath, List.mem_append, List.mem_cons, List.mem_replicate, List.not_mem_nil,
    or_false] at hstep
  obtain (rfl | ⟨-, rfl⟩) | rfl := hstep <;> decide

theorem names_slashedPath (count : Nat) :
    Path.names (slashedPath count) = ["file:d"] ++ ["p.db?mode=memory"] := by
  rw [Path.names, segments_slashedPath]
  simp

theorem start_slashedPath (count : Nat) : openFiles.start (slashedPath count) = ["home"] := by
  have hrelative : Path.isAbsolute (slashedPath count) = false := by
    rw [slashedPath, String.append_assoc, Path.isAbsolute_append (by decide)]
    decide +kernel
  rw [start, hrelative]
  rfl

/-- The path leads to the file. -/
theorem namesFile_slashedPath {count : Nat} (hshort : count + 23 ≤ maxPathLength) :
    openFiles.NamesFile (slashedPath count) ["file:d"] "p.db?mode=memory" where
  valid := by
    refine requirePath_eq_ok_iff.2 ⟨?_, ?_, by rwa [utf8ByteSize_slashedPath]⟩
    · simp [slashedPath, List.mem_replicate]
    · intro h
      have hsize := utf8ByteSize_slashedPath count
      rw [h] at hsize
      simp at hsize
  spelled := names_slashedPath count
  noSlash := by
    rw [Bool.eq_false_iff, ne_eq, Path.endsWith_slash_iff (segments_slashedPath count) (List.cons_ne_nil _ _)]
    decide
  short := by decide
  leads := by
    rw [start_slashedPath, leads_cons]
    exact ⟨⟨_, rfl, by decide, by decide⟩, by decide, ⟨_, rfl⟩, leads_nil⟩
  folder := by
    rw [start_slashedPath]
    exact ⟨_, rfl, by decide, by decide⟩

/-- What is beside a file stays open to everybody, although the user may do everything and the database is
prepared, if the path of the file has 4093 bytes. -/
theorem prepareDatabase_slashedPath_leaves_open :
    Path.IsPlain (slashedPath 4070) ∧ openFiles.privileged = true ∧
      ∃ next, prepareDatabase (slashedPath 4070) openFiles = (.ok (), next) ∧
        ∀ suffix ∈ ["-wal", "-shm"], slashedPath 4070 ++ suffix ∈ sidecars (slashedPath 4070) ∧
          ∃ entry, openFiles.lookup? (openFiles.placeOf (slashedPath 4070 ++ suffix)) = some entry ∧
            next.lookup? (openFiles.placeOf (slashedPath 4070 ++ suffix)) = some entry ∧
            entry.mode ≠ privateFileMode := by
  have hplain := isPlain_slashedPath 4070
  have hfile : openFiles.NamesFile (slashedPath 4070) _ _ := namesFile_slashedPath (by decide)
  have hentry : openFiles.lookup? (openFiles.placeOf (slashedPath 4070)) =
      some { mode := 0o644, content := .text "" } := by
    rw [hfile.placeOf_eq, start_slashedPath]
    rfl
  have hwal : openFiles.lookup? (openFiles.placeOf (slashedPath 4070 ++ "-wal")) =
      some { mode := 0o755, content := .directory } := by
    rw [hfile.placeOf_append (by decide) (by decide), start_slashedPath]
    rfl
  have hshm : openFiles.lookup? (openFiles.placeOf (slashedPath 4070 ++ "-shm")) =
      some { mode := 0o644, content := .text "" } := by
    rw [hfile.placeOf_append (by decide) (by decide), start_slashedPath]
    rfl
  obtain ⟨next, hnext⟩ := exists_prepareDatabase hplain hfile hentry rfl rfl rfl
  have hsame {suffix : String} (hsidecar : slashedPath 4070 ++ suffix ∈ sidecars (slashedPath 4070))
      (hsize : suffix.utf8ByteSize = 4) : next.lookup? (openFiles.placeOf (slashedPath 4070 ++ suffix)) =
        openFiles.lookup? (openFiles.placeOf (slashedPath 4070 ++ suffix)) := by
    refine lookup?_of_long_sidecar hplain hnext hsidecar ?_
    rw [String.utf8ByteSize_append, utf8ByteSize_slashedPath, hsize]
    decide
  refine ⟨hplain, rfl, next, hnext, List.forall_mem_cons.2 ⟨?_, List.forall_mem_singleton.2 ?_⟩⟩
  · have hsidecar : slashedPath 4070 ++ "-wal" ∈ sidecars (slashedPath 4070) := by simp [sidecars]
    exact ⟨hsidecar, _, hwal, (hsame hsidecar rfl).trans hwal, by decide⟩
  · have hsidecar : slashedPath 4070 ++ "-shm" ∈ sidecars (slashedPath 4070) := by simp [sidecars]
    exact ⟨hsidecar, _, hshm, (hsame hsidecar rfl).trans hshm, by decide⟩

end FileAction

end AccountPool
