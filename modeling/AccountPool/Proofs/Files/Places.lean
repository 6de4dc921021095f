import AccountPool.Proofs.Files.Names
import AccountPool.Proofs.Files.Stores

/-!
# What plain paths lead to

A plain path leads to the place below its start that its names spell. Walking there succeeds exactly if every name
is found in a directory that may be searched, so what an operation on a path does is said in terms of places:
`FileTree.find_eq_ok_iff`, `FileTree.makeDirectory_eq_ok`, `FileTree.setMode_eq_ok_iff` and
`FileTree.openFile_eq_ok`.
-/

namespace AccountPool

/-- What succeeds after something else. -/
theorem bind_eq_ok_iff {ε α β : Type} {first : Except ε α} {next : α → Except ε β} {result : β} :
    first >>= next = .ok result ↔ ∃ value, first = .ok value ∧ next value = .ok result := by
  refine ⟨exists_of_bind_ok, ?_⟩
  rintro ⟨value, rfl, h⟩
  exact h

namespace FileTree

variable (tree : FileTree) {next : FileTree} {place target folder : FilePlace} {names front steps : List String}
  {name path suffix : String} {entry : FileEntry} {mode : Nat}

/-- The place to which the names in a path lead. -/
def placeOf (path : String) : FilePlace :=
  tree.start path ++ Path.names path

/-- A directory when it is made. -/
def newDirectory : FileEntry :=
  { mode := newDirectoryMode, content := .directory }

/-- A file when it is made to be opened. -/
def newFile : FileEntry :=
  { mode := privateFileMode, content := .text "" }

/-- There is a directory at a place. -/
def HasDirectory (place : FilePlace) : Prop :=
  ∃ entry, tree.lookup? place = some entry ∧ entry.isDirectory = true

/-- There is a directory at a place, and it may be searched. -/
def Searchable (place : FilePlace) : Prop :=
  ∃ entry, tree.lookup? place = some entry ∧ entry.isDirectory = true ∧ tree.allows entry.searchable = true

/-- Each name is found in a directory that may be searched, and none is too long. -/
def Leads (place : FilePlace) (names : List String) : Prop :=
  ∀ front name, front ++ [name] <+: names → tree.Searchable (place ++ front) ∧
    name.utf8ByteSize ≤ maxNameLength ∧ ∃ entry, tree.lookup? (place ++ front ++ [name]) = some entry

/-- Permissions of an entry may be changed through a path to it: neither the path nor a name in it is too long. -/
structure MayRestrict (path : String) (entry : FileEntry) : Prop where
  length : path.utf8ByteSize ≤ maxPathLength
  short : ∀ name ∈ Path.names path, name.utf8ByteSize ≤ maxNameLength
  allowed : tree.allows entry.owned = true

/-- A path leads to a name in a directory that may be searched, whether or not the name is there. -/
structure NamesFile (path : String) (front : List String) (name : String) : Prop where
  valid : requirePath path = .ok ()
  spelled : Path.names path = front ++ [name]
  noSlash : path.endsWith "/" = false
  short : name.utf8ByteSize ≤ maxNameLength
  leads : tree.Leads (tree.start path) front
  folder : tree.Searchable (tree.start path ++ front)

variable {tree}

theorem placeOf_withEntry (place : FilePlace) (entry : FileEntry) (path : String) :
    (tree.withEntry place entry).placeOf path = tree.placeOf path :=
  rfl

/-- A path leads to the same place from the same working directory. -/
theorem placeOf_congr (hcurrent : next.current = tree.current) (path : String) :
    next.placeOf path = tree.placeOf path := by
  rw [placeOf, placeOf, start, start, hcurrent]

/-- Who may change permissions depends on the user only. -/
theorem MayRestrict.congr (h : tree.MayRestrict path entry) (hprivileged : next.privileged = tree.privileged) :
    next.MayRestrict path entry := by
  refine ⟨h.length, h.short, ?_⟩
  rw [allows, hprivileged]
  exact h.allowed

/-! ## Directories -/

theorem Searchable.hasDirectory (h : tree.Searchable place) : tree.HasDirectory place := by
  obtain ⟨entry, hentry, hdirectory, -⟩ := h
  exact ⟨entry, hentry, hdirectory⟩

/-- A directory may be searched as long as it stays the same. -/
theorem Searchable.congr (h : tree.Searchable place) (hprivileged : next.privileged = tree.privileged)
    (hsame : next.lookup? place = tree.lookup? place) : next.Searchable place := by
  obtain ⟨entry, hentry, hdirectory, hallowed⟩ := h
  refine ⟨entry, hsame.trans hentry, hdirectory, ?_⟩
  rwa [allows, hprivileged]

theorem requireDirectory_eq_ok_iff :
    tree.requireDirectory place = .ok entry ↔ tree.lookup? place = some entry ∧ entry.isDirectory = true := by
  unfold requireDirectory
  constructor
  · intro h
    split at h
    · cases h
    split at h
    · next hlookup hdirectory =>
        cases h
        exact ⟨hlookup, hdirectory⟩
    · cases h
  · rintro ⟨hlookup, hdirectory⟩
    rw [hlookup]
    exact if_pos hdirectory

theorem exists_requireDirectory_iff :
    (∃ entry, tree.requireDirectory place = .ok entry) ↔ tree.HasDirectory place :=
  exists_congr fun _ => requireDirectory_eq_ok_iff

theorem exists_requireSearchable_iff :
    (∃ entry, tree.requireSearchable place = .ok entry) ↔ tree.Searchable place := by
  refine exists_congr fun entry => ?_
  unfold requireSearchable
  rw [bind_eq_ok_iff]
  constructor
  · rintro ⟨found, hfound, h⟩
    split at h
    · next hallowed =>
        cases h
        obtain ⟨hlookup, hdirectory⟩ := requireDirectory_eq_ok_iff.1 hfound
        exact ⟨hlookup, hdirectory, hallowed⟩
    · cases h
  · rintro ⟨hlookup, hdirectory, hallowed⟩
    exact ⟨entry, requireDirectory_eq_ok_iff.2 ⟨hlookup, hdirectory⟩, if_pos hallowed⟩

/-! ## Names that lead somewhere -/

theorem leads_nil : tree.Leads place [] := by
  intro front name h
  simp at h

/-- The first name leads into a directory from which the others lead on. -/
theorem leads_cons : tree.Leads place (name :: names) ↔ tree.Searchable place ∧
    name.utf8ByteSize ≤ maxNameLength ∧ (∃ entry, tree.lookup? (place ++ [name]) = some entry) ∧
    tree.Leads (place ++ [name]) names := by
  constructor
  · intro h
    obtain ⟨hsearch, hlength, hentry⟩ := h [] name (by simp)
    rw [List.append_nil] at hsearch hentry
    refine ⟨hsearch, hlength, hentry, fun front other hfront => ?_⟩
    have hrest := h (name :: front) other (List.cons_prefix_cons.2 ⟨rfl, hfront⟩)
    rwa [List.append_cons] at hrest
  · rintro ⟨hsearch, hlength, hentry, hrest⟩ front other hfront
    cases front with
    | nil =>
        obtain rfl : other = name := (List.cons_prefix_cons.1 hfront).1
        rw [List.append_nil]
        exact ⟨hsearch, hlength, hentry⟩
    | cons first front =>
        obtain ⟨rfl, hfollows⟩ := List.cons_prefix_cons.1 hfront
        rw [List.append_cons]
        exact hrest front other hfollows

/-- The last name is found in the directory to which the others lead. -/
theorem leads_concat : tree.Leads place (front ++ [name]) ↔ tree.Leads place front ∧
    tree.Searchable (place ++ front) ∧ name.utf8ByteSize ≤ maxNameLength ∧
    ∃ entry, tree.lookup? (place ++ front ++ [name]) = some entry := by
  constructor
  · intro h
    exact ⟨fun other last hother => h other last (hother.trans (List.prefix_append _ _)),
      h front name List.prefix_rfl⟩
  · rintro ⟨hfront, hlast⟩ other last hother
    obtain heq | hother := List.prefix_concat_iff.1 hother
    · obtain ⟨rfl, hname⟩ := List.append_inj' heq rfl
      rw [List.singleton_inj] at hname
      exact hname ▸ hlast
    · exact hfront other last hother

/-- Names lead through directories. -/
theorem Leads.hasDirectory (h : tree.Leads place names) (hend : tree.Searchable (place ++ names))
    (hfront : front <+: names) : tree.HasDirectory (place ++ front) := by
  obtain ⟨rest, rfl⟩ := hfront
  cases rest with
  | nil =>
      rw [List.append_nil] at hend
      exact hend.hasDirectory
  | cons name rest => exact (h front name (by simp)).1.hasDirectory

/-- No name that leads somewhere is too long. -/
theorem Leads.short (h : tree.Leads place names) (hname : name ∈ names) :
    name.utf8ByteSize ≤ maxNameLength := by
  obtain ⟨front, rest, rfl⟩ := List.append_of_mem hname
  exact (h front name (by simp)).2.1

/-! ## Walking -/

theorem walk_empty_eq_ok_iff : tree.walk place ("" :: steps) = .ok target ↔
    tree.HasDirectory place ∧ tree.walk place steps = .ok target := by
  rw [walk, bind_eq_ok_iff, exists_and_right, exists_requireDirectory_iff]

theorem walk_name_eq_ok_iff (hplain : name ≠ "." ∧ name ≠ "..") (hne : name ≠ "") :
    tree.walk place (name :: steps) = .ok target ↔ tree.Searchable place ∧
      name.utf8ByteSize ≤ maxNameLength ∧ (∃ entry, tree.lookup? (place ++ [name]) = some entry) ∧
      tree.walk (place ++ [name]) steps = .ok target := by
  have hstep : tree.walk place (name :: steps) = _ := walk.eq_3 tree place name steps hne
  rw [hstep, bind_eq_ok_iff, exists_and_right, exists_requireSearchable_iff, if_neg hplain.1, if_neg hplain.2]
  refine and_congr_right fun _ => ?_
  split
  · next hlong =>
      refine iff_of_false (fun h => ?_) fun h => Nat.not_lt.2 h.1 hlong
      cases h
  · next hshort =>
      rw [and_iff_right (Nat.not_lt.1 hshort)]
      cases tree.lookup? (place ++ [name]) with
      | none =>
          refine iff_of_false (fun h => ?_) fun h => ?_
          · cases h
          · obtain ⟨entry, hentry⟩ := h.1
            cases hentry
      | some entry => exact (and_iff_right ⟨entry, rfl⟩).symm

/-- Walking along segments without dots succeeds exactly if their names lead to the target, which is a directory if
an empty segment comes last. -/
theorem walk_eq_ok_iff (hplain : Path.NoDots steps) :
    tree.walk place steps = .ok target ↔ target = place ++ steps.filter (· ≠ "") ∧
      tree.Leads place (steps.filter (· ≠ "")) ∧
      (steps.getLast? = some "" → tree.HasDirectory target) := by
  induction steps generalizing place with
  | nil => simp [walk, leads_nil, eq_comm]
  | cons step steps ih =>
      obtain ⟨hstep, hsteps⟩ := List.forall_mem_cons.1 hplain
      have hlast : (step :: steps).getLast? = some "" ↔
          steps.getLast? = some "" ∨ steps = [] ∧ step = "" := by
        cases steps <;> simp
      rw [hlast]
      by_cases hne : step = ""
      · rw [hne, walk_empty_eq_ok_iff, ih hsteps, List.filter_cons_of_neg (by simp)]
        constructor
        · rintro ⟨hplace, htarget, hleads, hend⟩
          refine ⟨htarget, hleads, ?_⟩
          rintro (hempty | ⟨rfl, -⟩)
          · exact hend hempty
          · rwa [htarget, List.filter_nil, List.append_nil]
        · rintro ⟨htarget, hleads, hend⟩
          refine ⟨?_, htarget, hleads, fun hempty => hend (.inl hempty)⟩
          cases hnames : steps.filter (· ≠ "") with
          | nil =>
              rw [hnames, List.append_nil] at htarget
              refine htarget ▸ hend ?_
              obtain rfl | ⟨init, last, rfl⟩ := steps.eq_nil_or_concat
              · exact .inr ⟨rfl, rfl⟩
              · left
                simpa using (List.filter_eq_nil_iff.1 hnames) last (by simp)
          | cons name names =>
              rw [hnames, leads_cons] at hleads
              exact hleads.1.hasDirectory
      · rw [walk_name_eq_ok_iff hstep hne, ih hsteps, List.filter_cons_of_pos (by simpa using hne), leads_cons]
        simp only [hne, and_false, or_false, List.append_assoc, List.singleton_append]
        tauto

/-! ## Plain paths -/

section Plain

variable (hplain : Path.IsPlain path)

include hplain

/-- A plain path is found at its place. -/
theorem find_eq_ok_iff : tree.find path = .ok place ↔ requirePath path = .ok () ∧ place = tree.placeOf path ∧
    tree.Leads (tree.start path) (Path.names path) ∧
    ((Path.segments path).getLast? = some "" → tree.HasDirectory place) := by
  rw [find, bind_eq_ok_iff, exists_and_right, walk_eq_ok_iff hplain]
  exact and_congr_left fun _ => ⟨fun ⟨(), h⟩ => h, fun h => ⟨(), h⟩⟩

/-- What is named by the path is at its place. -/
theorem stat_eq_ok_iff : tree.stat path = .ok entry ↔
    tree.find path = .ok (tree.placeOf path) ∧ tree.lookup? (tree.placeOf path) = some entry := by
  rw [stat, bind_eq_ok_iff]
  constructor
  · rintro ⟨place, hfind, h⟩
    obtain rfl := ((find_eq_ok_iff hplain).1 hfind).2.1
    refine ⟨hfind, ?_⟩
    split at h
    · next hlookup =>
        cases h
        exact hlookup
    · cases h
  · rintro ⟨hfind, hlookup⟩
    exact ⟨_, hfind, by rw [hlookup]; rfl⟩

/-- Changing the permissions of what a path names changes the entry at its place. -/
theorem setMode_eq_ok_iff : tree.setMode path mode = .ok next ↔ tree.find path = .ok (tree.placeOf path) ∧
    ∃ entry, tree.lookup? (tree.placeOf path) = some entry ∧ tree.allows entry.owned = true ∧
      next = tree.withEntry (tree.placeOf path) { entry with mode } := by
  rw [setMode, bind_eq_ok_iff]
  constructor
  · rintro ⟨place, hfind, h⟩
    obtain rfl := ((find_eq_ok_iff hplain).1 hfind).2.1
    obtain ⟨entry, hstat, h⟩ := exists_of_bind_ok h
    split at h
    · next howned =>
        cases h
        exact ⟨hfind, entry, ((stat_eq_ok_iff hplain).1 hstat).2, howned, rfl⟩
    · cases h
  · rintro ⟨hfind, entry, hlookup, howned, rfl⟩
    refine ⟨_, hfind, bind_eq_ok_iff.2 ⟨entry, (stat_eq_ok_iff hplain).2 ⟨hfind, hlookup⟩, ?_⟩⟩
    rw [if_pos howned]
    rfl

/-- The directory of a plain path and its last name, if it has names. -/
theorem locateName_eq_ok_iff {found : Option String} : tree.locateName path = .ok (folder, found) ↔
    requirePath path = .ok () ∧ tree.Searchable folder ∧
    ((Path.names path = [] ∧ found = none ∧ folder = tree.start path) ∨
      ∃ front name, Path.names path = front ++ [name] ∧ found = some name ∧
        folder = tree.start path ++ front ∧ tree.Leads (tree.start path) front) := by
  have hwalk {init : List String} (hinit : Path.NoDots init)
      (found' : Option String) :
      (tree.walk (tree.start path) init >>= fun folder => tree.requireSearchable folder >>= fun _ =>
          pure (folder, found') : Except FileCause _) = .ok (folder, found) ↔
        tree.Searchable folder ∧ found = found' ∧ folder = tree.start path ++ init.filter (· ≠ "") ∧
          tree.Leads (tree.start path) (init.filter (· ≠ "")) := by
    rw [bind_eq_ok_iff]
    constructor
    · rintro ⟨place, hplace, h⟩
      obtain ⟨entry, hentry, h⟩ := exists_of_bind_ok h
      cases h
      obtain ⟨rfl, hleads, -⟩ := (walk_eq_ok_iff hinit).1 hplace
      exact ⟨exists_requireSearchable_iff.1 ⟨entry, hentry⟩, rfl, rfl, hleads⟩
    · rintro ⟨hsearch, rfl, hfolder, hleads⟩
      obtain ⟨entry, hentry⟩ := exists_requireSearchable_iff.2 hsearch
      exact ⟨folder, (walk_eq_ok_iff hinit).2 ⟨hfolder, hleads, fun _ => hsearch.hasDirectory⟩,
        bind_eq_ok_iff.2 ⟨entry, hentry, rfl⟩⟩
  have hvalid : (∃ value, requirePath path = .ok value) ↔ requirePath path = .ok () :=
    ⟨fun ⟨(), h⟩ => h, fun h => ⟨(), h⟩⟩
  rw [locateName, bind_eq_ok_iff, Path.trimIdle_eq hplain, exists_and_right, hvalid]
  refine and_congr_right fun _ => ?_
  obtain ⟨htrim, hnames⟩ | ⟨init, name, htrim, hname, hnames⟩ := Path.trimIdle_cases hplain
  · rw [htrim, Path.names, hnames]
    refine (hwalk (List.forall_mem_nil _) none).trans ?_
    simp [leads_nil]
  · have hmem : name ∈ Path.segments path := (Path.trimIdle_isPrefixOf _).subset (by simp [htrim])
    have hinit : Path.NoDots init := fun step hstep =>
      hplain step ((Path.trimIdle_isPrefixOf _).subset (by simp [htrim, hstep]))
    obtain ⟨hdot, hdots⟩ := hplain name hmem
    rw [htrim, Path.names, hnames]
    dsimp only
    rw [List.dropLast_concat, List.getLast?_concat]
    refine (Iff.trans (Eq.congr_left ?_) (hwalk hinit (some name))).trans ?_
    · refine congrArg _ (funext fun folder => congrArg _ (funext fun _ => ?_))
      split <;> simp_all
    constructor
    · rintro ⟨hsearch, rfl, rfl, hleads⟩
      exact ⟨hsearch, .inr ⟨_, name, rfl, rfl, rfl, hleads⟩⟩
    · rintro ⟨hsearch, ⟨h, -⟩ | ⟨front, last, h, rfl, rfl, hleads⟩⟩
      · simp at h
      · obtain ⟨rfl, hlast⟩ := List.append_inj' h rfl
        rw [List.singleton_inj] at hlast
        exact ⟨hsearch, hlast ▸ rfl, rfl, hleads⟩


/-! ## Operations on plain paths -/

/-- A directory that is made was missing. -/
theorem makeDirectory_eq_ok (h : tree.makeDirectory path = .ok next) :
    tree.lookup? (tree.placeOf path) = none ∧ next = tree.withEntry (tree.placeOf path) newDirectory := by
  obtain ⟨⟨folder, found⟩, hlocate, h⟩ := exists_of_bind_ok h
  obtain ⟨⟨folder', found'⟩, hname, hlocate⟩ := exists_of_bind_ok hlocate
  obtain ⟨-, -, ⟨-, rfl, rfl⟩ | ⟨front, name, hnames, rfl, rfl, -⟩⟩ := (locateName_eq_ok_iff hplain).1 hname
  · cases hlocate
    cases h
  · dsimp only at hlocate
    split at hlocate
    · cases hlocate
    cases hlocate
    dsimp only at h
    rw [List.append_assoc, ← hnames] at h
    split at h
    · cases h
    · next hnone =>
        obtain ⟨parent, -, h⟩ := exists_of_bind_ok h
        split at h
        · cases h
          rw [List.append_assoc, ← hnames]
          exact ⟨hnone, rfl⟩
        · cases h

/-- A directory that is there, and may be searched, cannot be made. -/
theorem makeDirectory_of_found (hfind : tree.find path = .ok (tree.placeOf path))
    (hsearch : tree.Searchable (tree.placeOf path)) : tree.makeDirectory path = .error .alreadyExists := by
  obtain ⟨hvalid, -, hleads, -⟩ := (find_eq_ok_iff hplain).1 hfind
  obtain hnames | ⟨front, name, hnames⟩ := (Path.names path).eq_nil_or_concat
  · have hlocate : tree.locateName path = .ok (tree.start path, none) := by
      refine (locateName_eq_ok_iff hplain).2 ⟨hvalid, ?_, .inl ⟨hnames, rfl, rfl⟩⟩
      rwa [placeOf, hnames, List.append_nil] at hsearch
    rw [makeDirectory, locate, hlocate]
    rfl
  · rw [List.concat_eq_append] at hnames
    rw [hnames, leads_concat] at hleads
    obtain ⟨hfront, hfolder, hshort, entry, hentry⟩ := hleads
    have hlocate : tree.locateName path = .ok (tree.start path ++ front, some name) :=
      (locateName_eq_ok_iff hplain).2 ⟨hvalid, hfolder, .inr ⟨front, name, hnames, rfl, rfl, hfront⟩⟩
    rw [makeDirectory, locate, hlocate]
    simp only [bind, Except.bind, pure, Except.pure, if_neg (Nat.not_lt.2 hshort), hentry]
    rfl

/-- A file that is opened is not a directory, or is made. -/
theorem openFile_eq_ok (h : tree.openFile path = .ok next) : ∃ front name, tree.NamesFile path front name ∧
    ((tree.lookup? (tree.placeOf path) = none ∧ next = tree.withEntry (tree.placeOf path) newFile) ∨
      ∃ entry, tree.lookup? (tree.placeOf path) = some entry ∧ entry.isDirectory = false ∧ next = tree) := by
  obtain ⟨⟨folder, found⟩, hlocate, h⟩ := exists_of_bind_ok h
  obtain ⟨hvalid, hfolder, ⟨-, rfl, -⟩ | ⟨front, name, hnames, rfl, rfl, hleads⟩⟩ :=
    (locateName_eq_ok_iff hplain).1 hlocate
  · cases h
  dsimp only at h
  split at h
  · cases h
  next hend =>
  split at h
  · cases h
  next hshort =>
  refine ⟨front, name, ⟨hvalid, hnames, by simpa using hend, Nat.not_lt.1 hshort, hleads, hfolder⟩, ?_⟩
  rw [List.append_assoc, ← hnames] at h
  split at h
  · next hnone =>
      obtain ⟨parent, -, h⟩ := exists_of_bind_ok h
      split at h
      · cases h
        rw [List.append_assoc, ← hnames]
        exact .inl ⟨hnone, rfl⟩
      · cases h
  · next entry hentry =>
      split at h
      · cases h
      next hfile =>
      split at h
      · cases h
        exact .inr ⟨entry, hentry, by simpa using hfile, rfl⟩
      · cases h

/-- A file that may be read and written is opened and stays. -/
theorem openFile_of_file (hfile : tree.NamesFile path front name)
    (hentry : tree.lookup? (tree.placeOf path) = some entry) (hdirectory : entry.isDirectory = false)
    (hallowed : tree.allows (entry.readable && entry.writable) = true) : tree.openFile path = .ok tree := by
  have hlocate : tree.locateName path = .ok (tree.start path ++ front, some name) :=
    (locateName_eq_ok_iff hplain).2
      ⟨hfile.valid, hfile.folder, .inr ⟨front, name, hfile.spelled, rfl, rfl, hfile.leads⟩⟩
  rw [placeOf, hfile.spelled, ← List.append_assoc] at hentry
  rw [openFile, hlocate]
  simp only [bind, Except.bind, hfile.noSlash, Bool.false_eq_true, if_false,
    if_neg (Nat.not_lt.2 hfile.short), hentry, hdirectory, hallowed, if_true]
  rfl

end Plain

/-! ## Files that paths name -/

theorem requirePath_eq_ok_iff : requirePath path = .ok () ↔
    Char.ofNat 0 ∉ path.toList ∧ path ≠ "" ∧ path.utf8ByteSize ≤ maxPathLength := by
  unfold requirePath
  split
  · next h => exact iff_of_false (fun h' => by cases h') fun h' => h'.1 (List.contains_iff_mem.1 h)
  next hnull =>
  split
  · next h => exact iff_of_false (fun h' => by cases h') fun h' => h'.2.1 (by simpa using h)
  next hempty =>
  split
  · next h => exact iff_of_false (fun h' => by cases h') fun h' => Nat.not_lt.2 h'.2.2 h
  · next hlong =>
      refine iff_of_true rfl ⟨fun h => hnull (List.contains_iff_mem.2 h), by simpa using hempty, ?_⟩
      exact Nat.not_lt.1 hlong

/-- What stands in front of a valid path is valid. -/
theorem requirePath_of_append (h : requirePath (path ++ suffix) = .ok ()) (hne : path ≠ "") :
    requirePath path = .ok () := by
  obtain ⟨hnull, -, hlength⟩ := requirePath_eq_ok_iff.1 h
  rw [String.toList_append, List.mem_append, not_or] at hnull
  rw [String.utf8ByteSize_append] at hlength
  exact requirePath_eq_ok_iff.2 ⟨hnull.1, hne, by omega⟩

namespace NamesFile

section Same

variable (hfile : tree.NamesFile path front name)

include hfile

theorem placeOf_eq : tree.placeOf path = tree.start path ++ front ++ [name] := by
  rw [placeOf, hfile.spelled, List.append_assoc]

/-- The directory is on the way to the file. -/
theorem folder_on_way : tree.start path ++ front <+: tree.placeOf path :=
  hfile.placeOf_eq ▸ List.prefix_append _ _

/-- The file is not on the way to its directory. -/
theorem not_on_way : ¬ tree.placeOf path <+: tree.start path ++ front := by
  intro h
  have hlength := h.length_le
  rw [hfile.placeOf_eq, List.length_append, List.length_singleton] at hlength
  omega

theorem ne_empty : path ≠ "" :=
  (requirePath_eq_ok_iff.1 hfile.valid).2.1

/-- The last segment is a name. -/
theorem getLast?_segments : (Path.segments path).getLast? = some name ∧ name ≠ "" := by
  obtain ⟨init, hsegments, -⟩ := Path.segments_of_names hfile.spelled hfile.noSlash
  refine ⟨by rw [hsegments, List.getLast?_concat], ?_⟩
  have hname : name ∈ Path.names path := by simp [hfile.spelled]
  simpa using (List.mem_filter.1 hname).2

/-- A file that is there is found. -/
theorem find (hplain : Path.IsPlain path) (hentry : tree.lookup? (tree.placeOf path) = some entry) :
    tree.find path = .ok (tree.placeOf path) := by
  refine (find_eq_ok_iff hplain).2 ⟨hfile.valid, rfl, ?_, fun hlast => ?_⟩
  · rw [hfile.placeOf_eq] at hentry
    rw [hfile.spelled, leads_concat]
    exact ⟨hfile.leads, hfile.folder, hfile.short, entry, hentry⟩
  · obtain ⟨hname, hne⟩ := hfile.getLast?_segments
    rw [hname, Option.some.injEq] at hlast
    exact absurd hlast hne

/-- A path names the same file if the directories that lead to it are the same. -/
theorem congr (hcurrent : next.current = tree.current) (hprivileged : next.privileged = tree.privileged)
    (hsame : ∀ place, place <+: tree.start path ++ front → next.lookup? place = tree.lookup? place) :
    next.NamesFile path front name := by
  have hstart : next.start path = tree.start path := by rw [start, start, hcurrent]
  refine ⟨hfile.valid, hfile.spelled, hfile.noSlash, hfile.short, ?_, ?_⟩
  · rw [hstart]
    intro first last hfirst
    obtain ⟨hsearch, hshort, entry, hentry⟩ := hfile.leads first last hfirst
    have hon : tree.start path ++ first ++ [last] <+: tree.start path ++ front := by
      rw [List.append_assoc]
      exact List.prefix_append_right_inj _ |>.2 hfirst
    refine ⟨hsearch.congr hprivileged (hsame _ ((List.prefix_append _ [last]).trans hon)), hshort, entry, ?_⟩
    rw [hsame _ hon, hentry]
  · rw [hstart]
    exact hfile.folder.congr hprivileged (hsame _ List.prefix_rfl)

/-- A path names the same file after a change elsewhere than on the way. -/
theorem withEntry (hplace : ¬ place <+: tree.start path ++ front) :
    (tree.withEntry place entry).NamesFile path front name :=
  hfile.congr rfl rfl fun other hother => by
    rw [lookup?_withEntry, if_neg]
    rintro rfl
    exact hplace hother

/-- A path names the same file after a directory that may be searched was put anywhere. -/
theorem withDirectory (hdirectory : entry.isDirectory = true) (hallowed : tree.allows entry.searchable = true) :
    (tree.withEntry place entry).NamesFile path front name := by
  have hsearchable {folder : FilePlace} (h : tree.Searchable folder) :
      (tree.withEntry place entry).Searchable folder := by
    by_cases hplace : folder = place
    · exact ⟨entry, by rw [lookup?_withEntry, if_pos hplace], hdirectory, hallowed⟩
    · exact h.congr rfl (by rw [lookup?_withEntry, if_neg hplace])
  refine ⟨hfile.valid, hfile.spelled, hfile.noSlash, hfile.short, ?_, hsearchable hfile.folder⟩
  intro first last hfirst
  obtain ⟨hsearch, hshort, found, hfound⟩ := hfile.leads first last hfirst
  refine ⟨hsearchable hsearch, hshort, ?_⟩
  rw [lookup?_withEntry]
  split
  · exact ⟨entry, rfl⟩
  · exact ⟨found, hfound⟩

end Same

/-! ## Files beside a file -/

section Beside

variable (hfile : tree.NamesFile path front name) (hslash : '/' ∉ suffix.toList)
  (hnull : Char.ofNat 0 ∉ suffix.toList) (hlong : 2 < suffix.length)

include hfile hslash hlong

/-- A file whose name is longer is in the same directory. -/
theorem placeOf_append : tree.placeOf (path ++ suffix) = tree.start path ++ front ++ [name ++ suffix] := by
  rw [placeOf, start, Path.isAbsolute_append hfile.ne_empty,
    Path.names_append hfile.spelled hfile.noSlash hslash hlong, List.append_assoc]
  rfl

include hnull

/-- The permissions of a file whose name is longer are changed if this is possible through its path. -/
theorem setMode_append_iff (hplain : Path.IsPlain path) :
    tree.setMode (path ++ suffix) mode = .ok next ↔
      ∃ entry, tree.lookup? (tree.placeOf (path ++ suffix)) = some entry ∧
        tree.MayRestrict (path ++ suffix) entry ∧
        next = tree.withEntry (tree.placeOf (path ++ suffix)) { entry with mode } := by
  have hnames := Path.names_append hfile.spelled hfile.noSlash hslash hlong
  have hplain' := Path.isPlain_append hfile.spelled hfile.noSlash hslash hlong hplain
  have hstart : tree.start (path ++ suffix) = tree.start path := by
    rw [start, start, Path.isAbsolute_append hfile.ne_empty]
  rw [setMode_eq_ok_iff hplain']
  constructor
  · rintro ⟨hfind, entry, hentry, howned, rfl⟩
    obtain ⟨hvalid, -, hleads, -⟩ := (find_eq_ok_iff hplain').1 hfind
    exact ⟨entry, hentry, ⟨(requirePath_eq_ok_iff.1 hvalid).2.2, fun _ => hleads.short, howned⟩, rfl⟩
  · rintro ⟨entry, hentry, ⟨hlength, hshort, howned⟩, rfl⟩
    refine ⟨(find_eq_ok_iff hplain').2 ⟨?_, rfl, ?_, ?_⟩, entry, hentry, howned, rfl⟩
    · obtain ⟨hpath, hne, -⟩ := requirePath_eq_ok_iff.1 hfile.valid
      refine requirePath_eq_ok_iff.2 ⟨?_, ?_, hlength⟩
      · rw [String.toList_append, List.mem_append]
        exact fun h => h.elim hpath hnull
      · exact fun h => hne (String.append_eq_empty_iff.1 h).1
    · rw [placeOf_append hfile hslash hlong] at hentry
      rw [hnames, hstart, leads_concat]
      exact ⟨hfile.leads, hfile.folder, hshort _ (by simp [hnames]), entry, hentry⟩
    · obtain ⟨init, hsegments, -⟩ := Path.segments_of_names hfile.spelled hfile.noSlash
      rw [Path.segments_append hsegments hslash, List.getLast?_concat, Option.some.injEq,
        String.append_eq_empty_iff]
      exact fun h => absurd h.1 hfile.getLast?_segments.2

end Beside

end NamesFile

end FileTree

end AccountPool
