import AccountPool.Files.Path
import Mathlib.Data.List.DropRight

/-!
# The names in a path

The names in a path are its segments that are not empty. In a plain path no segment is a dot or two dots, so
that every name is a step. The parent of a plain path has the same names but the last (`Path.of_parent?`), and
what is appended to a path without a slash at its end is appended to its last name (`Path.names_append`).
-/

namespace AccountPool.Path

/-- The names in a path. -/
def names (path : String) : List String :=
  (segments path).filter (· ≠ "")

/-- No segment is a dot or two dots. -/
def NoDots (steps : List String) : Prop :=
  ∀ step ∈ steps, step ≠ "." ∧ step ≠ ".."

/-- No segment of a path is a dot or two dots. -/
def IsPlain (path : String) : Prop :=
  NoDots (segments path)

instance (path : String) : Decidable (IsPlain path) :=
  inferInstanceAs (Decidable (∀ step ∈ segments path, step ≠ "." ∧ step ≠ ".."))

/-! ## Segments -/

section Segments

variable {path : String} {steps init : List String} {last suffix : String}

theorem segments_ne_nil (path : String) : segments path ≠ [] := by
  simp [segments]

/-- The text between two slashes has no slash. -/
theorem slash_not_mem {segment : String} (h : segment ∈ segments path) : '/' ∉ segment.toList := by
  have hpieces (cs : List Char) : ∀ piece ∈ cs.splitOn '/', '/' ∉ piece := by
    induction cs with
    | nil => simp
    | cons c cs ih =>
        obtain ⟨first, rest, hsplit⟩ := List.exists_cons_of_ne_nil (List.splitOn_ne_nil '/' cs)
        rw [hsplit, List.forall_mem_cons] at ih
        rw [List.splitOn_cons_eq_if_modifyHead, hsplit]
        split
        · exact List.forall_mem_cons.2 ⟨List.not_mem_nil, List.forall_mem_cons.2 ih⟩
        · next hc =>
            refine List.forall_mem_cons.2 ⟨?_, ih.2⟩
            rw [List.mem_cons, not_or]
            exact ⟨fun hslash => hc (by simp [← hslash]), ih.1⟩
  obtain ⟨piece, hpiece, rfl⟩ := List.mem_map.1 h
  rw [String.toList_ofList]
  exact hpieces _ piece hpiece

/-- A path is its segments with slashes between them. -/
theorem intercalate_segments (path : String) : "/".intercalate (segments path) = path := by
  refine String.toList_injective ?_
  rw [String.toList_intercalate, segments, List.map_map, String.toList_comp_ofList, List.map_id]
  exact List.intercalate_splitOn '/'

/-- Texts without slashes are the segments of the path that is made of them. -/
theorem segments_intercalate (hne : steps ≠ []) (h : ∀ step ∈ steps, '/' ∉ step.toList) :
    segments ("/".intercalate steps) = steps := by
  have hpieces : ∀ piece ∈ steps.map String.toList, '/' ∉ piece := by
    simpa using h
  rw [segments, String.toList_intercalate]
  show (['/'].intercalate (steps.map String.toList) |>.splitOn '/').map String.ofList = steps
  rw [List.splitOn_intercalate '/' hpieces (by simpa using hne), List.map_map, String.ofList_comp_toList,
    List.map_id]

/-- A slash at the front stands after an empty segment. -/
theorem segments_slash (path : String) : segments ("/" ++ path) = "" :: segments path := by
  have hlist : ("/" ++ path).toList = '/' :: path.toList := by simp
  rw [segments, hlist, List.splitOn_cons_eq_if_modifyHead]
  simp [segments]

/-- What is appended, without slashes, is appended to the last segment. -/
theorem segments_append (h : segments path = init ++ [last]) (hsuffix : '/' ∉ suffix.toList) :
    segments (path ++ suffix) = init ++ [last ++ suffix] := by
  have hpath : path ++ suffix = "/".intercalate (init ++ [last ++ suffix]) := by
    rw [← intercalate_segments path, h]
    cases init with
    | nil => simp
    | cons first rest =>
        rw [String.intercalate_append_of_ne_nil (List.cons_ne_nil _ _) (List.cons_ne_nil _ _),
          String.intercalate_append_of_ne_nil (List.cons_ne_nil _ _) (List.cons_ne_nil _ _)]
        simp only [String.intercalate_singleton, String.append_assoc]
  rw [hpath, segments_intercalate (by simp)]
  intro step hstep
  have hslash {step : String} (hmem : step ∈ init ++ [last]) : '/' ∉ step.toList := slash_not_mem (h ▸ hmem)
  rw [List.mem_append, List.mem_singleton] at hstep
  obtain hstep | rfl := hstep
  · exact hslash (List.mem_append_left _ hstep)
  · simpa using ⟨hslash (by simp), hsuffix⟩

/-- An absolute path has something after a slash. -/
theorem isAbsolute_iff : isAbsolute path = true ↔ ∃ rest, path = "/" ++ rest := by
  rw [isAbsolute, String.startsWith_string_iff]
  constructor
  · rintro ⟨rest, hrest⟩
    exact ⟨String.ofList rest, String.toList_injective (by simp [← hrest])⟩
  · rintro ⟨rest, rfl⟩
    exact ⟨rest.toList, by simp⟩

/-- A path with several segments ends in a slash exactly if the last segment is empty. -/
theorem endsWith_slash_iff (h : segments path = init ++ [last]) (hinit : init ≠ []) :
    path.endsWith "/" = true ↔ last = "" := by
  rw [String.endsWith_eq_endsWith_toSlice, String.Slice.endsWith_string_iff]
  constructor
  · rintro ⟨front, hfront⟩
    have hsegments : segments path = (front.splitOn '/').map String.ofList ++ [""] := by
      have hlist : path.toList = front ++ '/' :: [] := by simpa using hfront.symm
      rw [segments, hlist, List.splitOn_append_cons_self]
      simp
    rw [h] at hsegments
    exact List.singleton_inj.1 (List.append_inj' hsegments rfl).2
  · rintro rfl
    have hpath := intercalate_segments path
    rw [h, String.intercalate_append_of_ne_nil hinit (by simp)] at hpath
    exact ⟨("/".intercalate init).toList, by simp [← hpath]⟩

end Segments

/-! ## Idle segments at the end -/

section Trim

variable {steps init rest : List String} {first last : String}

/-- The first segments up to the last one that is not idle. -/
theorem trimIdle_isPrefixOf (steps : List String) : trimIdle steps <+: steps :=
  List.rdropWhile_prefix isIdle steps

/-- An idle segment at the end goes. -/
theorem trimIdle_concat_of_idle (h : isIdle last = true) : trimIdle (init ++ [last]) = trimIdle init :=
  List.rdropWhile_concat_pos isIdle init last h

/-- A segment at the end stays unless it is idle. -/
theorem trimIdle_concat_of_step (h : isIdle last = false) : trimIdle (init ++ [last]) = init ++ [last] :=
  List.rdropWhile_concat_neg isIdle init last (by simp [h])

/-- Segments that come after a step are trimmed on their own. -/
theorem trimIdle_cons (h : isIdle first = false) (rest : List String) :
    trimIdle (first :: rest) = first :: trimIdle rest := by
  induction rest using List.reverseRecOn with
  | nil => exact @trimIdle_concat_of_step [] first h
  | append_singleton rest last ih =>
      cases hlast : isIdle last with
      | true =>
          rw [trimIdle_concat_of_idle hlast, ← ih, ← List.cons_append, trimIdle_concat_of_idle hlast]
      | false =>
          rw [trimIdle_concat_of_step hlast, ← List.cons_append, trimIdle_concat_of_step hlast]

/-- Without dots, only an empty segment is idle. -/
theorem isIdle_eq_false (hdot : first ≠ "." ∧ first ≠ "..") (hne : first ≠ "") : isIdle first = false := by
  simp [isIdle, hdot.1, hne]

/-- Segments without dots are trimmed to nothing if none of them is a name, and else up to the last name. -/
theorem trimIdle_cases (hplain : NoDots steps) :
    (trimIdle steps = [] ∧ steps.filter (· ≠ "") = []) ∨
    ∃ init name, trimIdle steps = init ++ [name] ∧ name ≠ "" ∧
      steps.filter (· ≠ "") = init.filter (· ≠ "") ++ [name] := by
  induction steps using List.reverseRecOn with
  | nil => exact .inl ⟨rfl, rfl⟩
  | append_singleton steps last ih =>
      by_cases hlast : last = ""
      · rw [trimIdle_concat_of_idle (by simp [isIdle, hlast])]
        simpa [List.filter_append, hlast] using
          ih fun step hstep => hplain step (List.mem_append_left _ hstep)
      · refine .inr ⟨steps, last, trimIdle_concat_of_step (isIdle_eq_false ?_ hlast), hlast, ?_⟩
        · exact hplain last (by simp)
        · simp [List.filter_append, hlast]

/-- Without dots, what is trimmed are the empty segments. -/
theorem trimIdle_eq (hplain : NoDots steps) :
    (steps.reverse.dropWhile (· = "")).reverse = trimIdle steps := by
  show steps.rdropWhile (· = "") = steps.rdropWhile isIdle
  induction steps using List.reverseRecOn with
  | nil => rfl
  | append_singleton steps last ih =>
      have hidle : isIdle last = decide (last = "") := by simp [isIdle, (hplain last (by simp)).1]
      rw [List.rdropWhile_concat, List.rdropWhile_concat, hidle,
        ih fun step hstep => hplain step (List.mem_append_left _ hstep)]

/-- Segments that are trimmed have the same names. -/
theorem filter_trimIdle (hplain : NoDots steps) :
    (trimIdle steps).filter (· ≠ "") = steps.filter (· ≠ "") := by
  obtain ⟨htrim, hnames⟩ | ⟨init, name, htrim, hname, hnames⟩ := trimIdle_cases hplain
  · rw [htrim, hnames, List.filter_nil]
  · rw [htrim, hnames, List.filter_append]
    simp [hname]

/-- A relative path without dots is trimmed like any segments. -/
theorem trimRelative_eq (hplain : NoDots steps) :
    trimRelative steps = trimIdle steps := by
  cases steps with
  | nil => rfl
  | cons first rest =>
      by_cases hfirst : first = ""
      · rw [hfirst]
        rfl
      · rw [trimIdle_cons (isIdle_eq_false (hplain first (by simp)) hfirst)]
        simp [trimRelative]

end Trim

/-! ## Parents -/

section Parents

variable {path parent : String}

/-- The names in a path that is made of segments. -/
theorem names_intercalate {steps : List String} (h : ∀ step ∈ steps, '/' ∉ step.toList) :
    names ("/".intercalate steps) = steps.filter (· ≠ "") := by
  cases steps with
  | nil => rfl
  | cons first rest => rw [names, segments_intercalate (List.cons_ne_nil _ _) h]

/-- A path that is made of segments without dots is plain. -/
theorem isPlain_intercalate {steps : List String} (h : ∀ step ∈ steps, '/' ∉ step.toList)
    (hplain : NoDots steps) : IsPlain ("/".intercalate steps) := by
  cases steps with
  | nil => decide
  | cons first rest => rwa [IsPlain, segments_intercalate (List.cons_ne_nil _ _) h]

/-- The first segments of a path are in front of it. -/
theorem exists_intercalate_append {first all : List String} (h : first <+: all) :
    ∃ rest, "/".intercalate all = "/".intercalate first ++ rest := by
  obtain ⟨second, rfl⟩ := h
  cases first with
  | nil => exact ⟨"/".intercalate second, by simp⟩
  | cons step first =>
      cases second with
      | nil => exact ⟨"", by simp⟩
      | cons other second =>
          refine ⟨"/" ++ "/".intercalate (other :: second), ?_⟩
          rw [String.intercalate_append_of_ne_nil (List.cons_ne_nil _ _) (List.cons_ne_nil _ _),
            String.append_assoc]

/-- The parent of a relative path without dots. -/
theorem parent?_of_relative (hplain : IsPlain path) (hrelative : isAbsolute path = false) :
    parent? path = match trimIdle (segments path) with
      | [] => none
      | steps => some ("/".intercalate (trimIdle steps.dropLast)) := by
  have hempty {rest : List String} (h : segments path = "" :: rest) : rest = [] := by
    by_contra hrest
    have hpath := intercalate_segments path
    rw [h, ← List.singleton_append, String.intercalate_append_of_ne_nil (List.cons_ne_nil _ _) hrest] at hpath
    rw [isAbsolute_iff.2 ⟨"/".intercalate rest, by simp [← hpath]⟩] at hrelative
    cases hrelative
  have hfront : NoDots (trimIdle (segments path)).dropLast := fun step hstep =>
    hplain step ((trimIdle_isPrefixOf _).subset (List.dropLast_subset _ hstep))
  unfold parent?
  split
  · next rest h =>
      rw [h, hempty h]
      rfl
  · rw [trimRelative_eq hplain]
    cases htrim : trimIdle (segments path) with
    | nil => rfl
    | cons first rest =>
        rw [htrim] at hfront
        simp only [trimRelative_eq hfront]

/-- The parent of an absolute path. -/
theorem parent?_of_absolute (path : String) : parent? ("/" ++ path) = match trimIdle (segments path) with
    | [] => none
    | steps => some ("/" ++ "/".intercalate (trimIdle steps.dropLast)) := by
  rw [parent?, segments_slash]
  rfl

/-- The segments in front of the last name make a plain path with the names in front of it. -/
theorem intercalate_front {init : List String} {name : String} (hplain : IsPlain path)
    (htrim : trimIdle (segments path) = init ++ [name]) :
    names ("/".intercalate (trimIdle init)) = init.filter (· ≠ "") ∧
      IsPlain ("/".intercalate (trimIdle init)) ∧ ∃ rest, path = "/".intercalate (trimIdle init) ++ rest := by
  have hinit : init <+: segments path := (List.prefix_append init [name]).trans (htrim ▸ trimIdle_isPrefixOf _)
  have hfront : trimIdle init <+: segments path := (trimIdle_isPrefixOf init).trans hinit
  have hslash : ∀ step ∈ trimIdle init, '/' ∉ step.toList := fun _ hstep => slash_not_mem (hfront.subset hstep)
  refine ⟨?_, isPlain_intercalate hslash fun step hstep => hplain step (hfront.subset hstep), ?_⟩
  · rw [names_intercalate hslash, filter_trimIdle fun step hstep => hplain step (hinit.subset hstep)]
  · obtain ⟨rest, hrest⟩ := exists_intercalate_append hfront
    exact ⟨rest, by rw [← hrest, intercalate_segments]⟩

/-- A slash at the front adds no name. -/
theorem names_slash (path : String) : names ("/" ++ path) = names path := by
  rw [names, segments_slash]
  rfl

/-- A path is plain exactly if it is with a slash at the front. -/
theorem isPlain_slash : IsPlain ("/" ++ path) ↔ IsPlain path := by
  rw [IsPlain, segments_slash, NoDots, List.forall_mem_cons]
  exact and_iff_right ⟨by decide, by decide⟩

/-- The last segment of a path with names is a name, unless there is a slash at its end. -/
theorem segments_of_names {front : List String} {name : String} (hnames : names path = front ++ [name])
    (hend : path.endsWith "/" = false) :
    ∃ init, segments path = init ++ [name] ∧ init.filter (· ≠ "") = front := by
  obtain h | ⟨init, last, h⟩ := (segments path).eq_nil_or_concat
  · exact absurd h (segments_ne_nil path)
  rw [List.concat_eq_append] at h
  rw [names, h, List.filter_append] at hnames
  have hlast : last ≠ "" := by
    rintro rfl
    have hinit : init ≠ [] := by
      rintro rfl
      simp at hnames
    rw [(endsWith_slash_iff h hinit).2 rfl] at hend
    cases hend
  rw [List.filter_singleton, decide_eq_true hlast, cond_true] at hnames
  obtain ⟨hfront, hname⟩ := List.append_inj' hnames rfl
  rw [List.singleton_inj] at hname
  exact ⟨init, hname ▸ h, hfront⟩

section Append

variable {front : List String} {name suffix : String} (hnames : names path = front ++ [name])
  (hend : path.endsWith "/" = false) (hsuffix : '/' ∉ suffix.toList) (hlong : 2 < suffix.length)

include hnames hend hsuffix hlong

/-- What is appended to a path is appended to its last name. -/
theorem names_append : names (path ++ suffix) = front ++ [name ++ suffix] := by
  obtain ⟨init, hsegments, rfl⟩ := segments_of_names hnames hend
  have hne : name ++ suffix ≠ "" := fun h => by
    rw [String.append_eq_empty_iff] at h
    simp [h.2] at hlong
  rw [names, segments_append hsegments hsuffix, List.filter_append, List.filter_singleton,
    decide_eq_true hne, cond_true]

/-- A plain path stays plain when something long is appended. -/
theorem isPlain_append (hplain : IsPlain path) : IsPlain (path ++ suffix) := by
  obtain ⟨init, hsegments, -⟩ := segments_of_names hnames hend
  rw [IsPlain, segments_append hsegments hsuffix]
  intro step hstep
  rw [List.mem_append, List.mem_singleton] at hstep
  obtain hstep | rfl := hstep
  · exact hplain step (hsegments ▸ List.mem_append_left _ hstep)
  · constructor <;>
    · intro h
      have hlength : name.length + suffix.length ≤ 2 := by
        rw [← String.length_append, h]
        decide
      omega

end Append

/-- A path is absolute exactly if it is with something appended. -/
theorem isAbsolute_append (hne : path ≠ "") (suffix : String) :
    isAbsolute (path ++ suffix) = isAbsolute path := by
  rw [Bool.eq_iff_iff]
  simp only [isAbsolute, String.startsWith_string_iff, String.toList_append]
  obtain ⟨c, cs, hpath⟩ := List.exists_cons_of_ne_nil (mt String.toList_eq_nil_iff.1 hne)
  rw [hpath]
  simp

/-- The parent of a plain path is a plain path in front of it that has the same names but the last, and is absolute
if the path is. -/
theorem of_parent? (hplain : IsPlain path) (h : parent? path = some parent) :
    IsPlain parent ∧ (∃ name, names path = names parent ++ [name]) ∧ isAbsolute parent = isAbsolute path ∧
      ∃ rest, path = parent ++ rest := by
  cases habsolute : isAbsolute path with
  | true =>
      obtain ⟨path, rfl⟩ := isAbsolute_iff.1 habsolute
      rw [isPlain_slash] at hplain
      rw [parent?_of_absolute] at h
      obtain ⟨htrim, -⟩ | ⟨init, name, htrim, -, hnames⟩ := trimIdle_cases hplain
      · rw [htrim] at h
        cases h
      · obtain ⟨hfront, hplain', rest, hrest⟩ := intercalate_front hplain htrim
        obtain rfl : "/" ++ "/".intercalate (trimIdle init) = parent := by simpa [htrim] using h
        refine ⟨isPlain_slash.2 hplain', ⟨name, ?_⟩, isAbsolute_iff.2 ⟨_, rfl⟩, rest, ?_⟩
        · rw [names_slash, names_slash, hfront, names, hnames]
        · rw [String.append_assoc, ← hrest]
  | false =>
      rw [parent?_of_relative hplain habsolute] at h
      obtain ⟨htrim, -⟩ | ⟨init, name, htrim, -, hnames⟩ := trimIdle_cases hplain
      · rw [htrim] at h
        cases h
      · obtain ⟨hfront, hplain', rest, hrest⟩ := intercalate_front hplain htrim
        obtain rfl : "/".intercalate (trimIdle init) = parent := by simpa [htrim] using h
        refine ⟨hplain', ⟨name, by rw [hfront, names, hnames]⟩, ?_, rest, hrest⟩
        rw [Bool.eq_false_iff]
        intro h
        obtain ⟨more, hmore⟩ := isAbsolute_iff.1 h
        rw [hrest, hmore, isAbsolute_iff.2 ⟨more ++ rest, String.append_assoc⟩] at habsolute
        cases habsolute

/-- The paths above a plain path are plain, their names lead to it, and they are absolute if it is. -/
theorem of_mem_lineage {ancestor : String} (hplain : IsPlain path) (h : ancestor ∈ lineage path) :
    IsPlain ancestor ∧ names ancestor <+: names path ∧ isAbsolute ancestor = isAbsolute path := by
  suffices general : ∀ bound path, IsPlain path → ancestor ∈ lineage.go bound path →
      IsPlain ancestor ∧ names ancestor <+: names path ∧ isAbsolute ancestor = isAbsolute path from
    general _ path hplain h
  intro bound
  induction bound with
  | zero => intro path _ h; cases h
  | succ bound ih =>
      intro path hplain h
      rw [lineage.go] at h
      split at h
      · cases h
      obtain rfl | h := List.mem_cons.1 h
      · exact ⟨hplain, List.prefix_rfl, rfl⟩
      · split at h
        · next parent hparent =>
            obtain ⟨hplain', ⟨name, hnames⟩, habsolute, -⟩ := of_parent? hplain hparent
            obtain ⟨hancestor, hfront, hsame⟩ := ih parent hplain' h
            exact ⟨hancestor, hnames ▸ hfront.trans (List.prefix_append _ _), hsame.trans habsolute⟩
        · cases h

/-- The first of the paths above a path is the path itself. -/
theorem lineage_cons (hne : path ≠ "") : ∃ above, lineage path = path :: above := by
  obtain ⟨first, rest, h⟩ := List.exists_cons_of_ne_nil (segments_ne_nil path)
  rw [lineage, h, List.length_cons, lineage.go, if_neg (by simpa using hne)]
  exact ⟨_, rfl⟩

/-- A path is one of those above it. -/
theorem mem_lineage (hne : path ≠ "") : path ∈ lineage path := by
  obtain ⟨above, h⟩ := lineage_cons hne
  simp [h]

end Parents

end AccountPool.Path
