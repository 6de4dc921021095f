/-!
# Finite maps kept as sorted lists

A `SortedMap` is a list of entries whose keys strictly increase, so a map has one representation and
its entries are already in the order in which answers show them. The lemmas say what each operation
does to `find?`, the view through which maps are compared; `ext_find?` says that the view determines
the map.
-/

namespace AccountPool

/-- A finite map whose entries are listed in strictly increasing key order. -/
structure SortedMap (κ : Type u) (ν : Type v) [Ord κ] where
  /-- The entries, least key first. -/
  entries : List (κ × ν)
  /-- Keys strictly increase, so no key occurs twice. -/
  sorted : entries.Pairwise fun earlier later => compare earlier.1 later.1 = .lt

namespace SortedMap

variable {κ : Type u} {ν : Type v} [Ord κ]

/-- The map without entries. -/
def empty : SortedMap κ ν := ⟨[], .nil⟩

instance : EmptyCollection (SortedMap κ ν) := ⟨empty⟩

instance : Inhabited (SortedMap κ ν) := ⟨empty⟩

/-- The value filed under `key` in a list of entries. -/
def lookup (key : κ) : List (κ × ν) → Option ν
  | [] => none
  | (other, value) :: rest =>
      match compare key other with
      | .eq => some value
      | _ => lookup key rest

/-- Put `value` under `key`, in front of the first greater key. -/
def place (key : κ) (value : ν) : List (κ × ν) → List (κ × ν)
  | [] => [(key, value)]
  | (other, held) :: rest =>
      match compare key other with
      | .lt => (key, value) :: (other, held) :: rest
      | .eq => (key, value) :: rest
      | .gt => (other, held) :: place key value rest

/-- Leave out the entry under `key`. -/
def without (key : κ) : List (κ × ν) → List (κ × ν)
  | [] => []
  | (other, held) :: rest =>
      match compare key other with
      | .eq => rest
      | _ => (other, held) :: without key rest

/-- Every key of `place key value entries` is `key` or a key of `entries`. -/
theorem mem_place {key : κ} {value : ν} {entry : κ × ν} {entries : List (κ × ν)}
    (hmem : entry ∈ place key value entries) : entry = (key, value) ∨ entry ∈ entries := by
  induction entries with
  | nil => simpa [place] using hmem
  | cons head rest ih =>
      obtain ⟨other, held⟩ := head
      unfold place at hmem
      split at hmem
      · simpa using hmem
      · simp only [List.mem_cons] at hmem ⊢
        exact hmem.imp id Or.inr
      · simp only [List.mem_cons] at hmem ⊢
        rcases hmem with rfl | hmem
        · exact .inr (.inl rfl)
        · exact (ih hmem).imp id Or.inr

/-- Every entry of `without key entries` is an entry of `entries`. -/
theorem mem_without {key : κ} {entry : κ × ν} {entries : List (κ × ν)}
    (hmem : entry ∈ without key entries) : entry ∈ entries := by
  induction entries with
  | nil => simp [without] at hmem
  | cons head rest ih =>
      obtain ⟨other, held⟩ := head
      unfold without at hmem
      split at hmem
      · exact List.mem_cons_of_mem _ hmem
      · rcases List.mem_cons.1 hmem with rfl | hmem
        · exact List.mem_cons_self
        · exact List.mem_cons_of_mem _ (ih hmem)

/-- The value under `key`, if there is one. -/
def find? (map : SortedMap κ ν) (key : κ) : Option ν :=
  lookup key map.entries

/-- Whether `key` has a value. -/
def contains (map : SortedMap κ ν) (key : κ) : Bool :=
  (map.find? key).isSome

/-- Whether the map has no entries. -/
def isEmpty (map : SortedMap κ ν) : Bool :=
  map.entries.isEmpty

/-- The number of entries. -/
def size (map : SortedMap κ ν) : Nat :=
  map.entries.length

/-- The entries whose keys come strictly after `start`; all of them without a `start`. -/
def after (map : SortedMap κ ν) : Option κ → List (κ × ν)
  | none => map.entries
  | some start => map.entries.filter fun entry => compare start entry.1 == .lt

/-- Leave out the entry under `key`, if there is one. -/
def erase (map : SortedMap κ ν) (key : κ) : SortedMap κ ν where
  entries := without key map.entries
  sorted := by
    have hsorted := map.sorted
    generalize map.entries = entries at hsorted
    induction entries with
    | nil => exact .nil
    | cons head rest ih =>
        obtain ⟨other, held⟩ := head
        obtain ⟨hfirst, htail⟩ := List.pairwise_cons.1 hsorted
        unfold without
        split
        · exact htail
        · exact List.pairwise_cons.2 ⟨fun entry hmem => hfirst entry (mem_without hmem), ih htail⟩

theorem eq_empty_of_isEmpty {map : SortedMap κ ν} (hempty : map.isEmpty = true) : map = empty := by
  obtain ⟨entries, hsorted⟩ := map
  obtain rfl : entries = [] := List.isEmpty_iff.1 hempty
  rfl

/-- No key before the first one has a value. -/
theorem lookup_eq_none_of_lt {key : κ} {entries : List (κ × ν)}
    (hbefore : ∀ entry ∈ entries, compare key entry.1 = .lt) : lookup key entries = none := by
  induction entries with
  | nil => rfl
  | cons head rest ih =>
      obtain ⟨first, held⟩ := head
      have hhead : compare key first = .lt := hbefore (first, held) List.mem_cons_self
      simp only [lookup, hhead]
      exact ih fun entry hmem => hbefore entry (List.mem_cons_of_mem _ hmem)

/-! ## Look-ups in changed lists -/

variable [Std.LawfulEqOrd κ]

theorem lookup_place_self (key : κ) (value : ν) (entries : List (κ × ν)) :
    lookup key (place key value entries) = some value := by
  induction entries with
  | nil => simp [place, lookup]
  | cons head rest ih =>
      obtain ⟨other, held⟩ := head
      unfold place
      split
      · simp [lookup]
      · simp [lookup]
      · rename_i hbehind
        simp [lookup, hbehind, ih]

theorem lookup_place_of_ne {key other : κ} (hne : other ≠ key) (value : ν)
    (entries : List (κ × ν)) : lookup other (place key value entries) = lookup other entries := by
  have hdiffers : compare other key ≠ .eq := fun hsame => hne (Std.LawfulEqOrd.eq_of_compare hsame)
  have hskips : ∀ rest : List (κ × ν), lookup other ((key, value) :: rest) = lookup other rest := by
    intro rest
    cases horder : compare other key <;> simp_all [lookup]
  induction entries with
  | nil => exact hskips []
  | cons head rest ih =>
      obtain ⟨first, held⟩ := head
      unfold place
      split
      · exact hskips _
      · rename_i hsame
        have hsame : key = first := Std.LawfulEqOrd.eq_of_compare hsame
        subst hsame
        rw [hskips]
        cases horder : compare other key <;> simp_all [lookup]
      · simp only [lookup, ih]

theorem lookup_without_self {key : κ} {entries : List (κ × ν)}
    (hsorted : entries.Pairwise fun earlier later => compare earlier.1 later.1 = .lt) :
    lookup key (without key entries) = none := by
  induction entries with
  | nil => rfl
  | cons head rest ih =>
      obtain ⟨first, held⟩ := head
      obtain ⟨hbefore, htail⟩ := List.pairwise_cons.1 hsorted
      unfold without
      split
      · rename_i hsame
        have hsame : key = first := Std.LawfulEqOrd.eq_of_compare hsame
        subst hsame
        exact lookup_eq_none_of_lt hbefore
      · have habsent := ih htail
        cases horder : compare key first <;> simp_all [lookup]

theorem lookup_without_of_ne {key other : κ} (hne : other ≠ key) (entries : List (κ × ν)) :
    lookup other (without key entries) = lookup other entries := by
  induction entries with
  | nil => rfl
  | cons head rest ih =>
      obtain ⟨first, held⟩ := head
      unfold without
      split
      · rename_i hsame
        have hsame : key = first := Std.LawfulEqOrd.eq_of_compare hsame
        subst hsame
        have hdiffers : compare other key ≠ .eq := fun hsame =>
          hne (Std.LawfulEqOrd.eq_of_compare hsame)
        cases horder : compare other key <;> simp_all [lookup]
      · simp only [lookup, ih]

theorem find?_erase_self (map : SortedMap κ ν) (key : κ) : (map.erase key).find? key = none :=
  lookup_without_self map.sorted

theorem find?_erase_of_ne (map : SortedMap κ ν) {key other : κ} (hne : other ≠ key) :
    (map.erase key).find? other = map.find? other :=
  lookup_without_of_ne hne map.entries

theorem find?_erase [DecidableEq κ] (map : SortedMap κ ν) (key other : κ) :
    (map.erase key).find? other = if other = key then none else map.find? other := by
  by_cases hsame : other = key
  · rw [hsame, find?_erase_self, if_pos rfl]
  · rw [find?_erase_of_ne map hsame, if_neg hsame]

/-- An entry of a sorted list is found under its key, and nothing else is. -/
theorem mem_iff_lookup {key : κ} {value : ν} {entries : List (κ × ν)}
    (hsorted : entries.Pairwise fun earlier later => compare earlier.1 later.1 = .lt) :
    (key, value) ∈ entries ↔ lookup key entries = some value := by
  induction entries with
  | nil => simp [lookup]
  | cons head rest ih =>
      obtain ⟨other, held⟩ := head
      obtain ⟨hbefore, htail⟩ := List.pairwise_cons.1 hsorted
      rw [List.mem_cons, ih htail]
      cases horder : compare key other with
      | eq =>
          have hsame : key = other := Std.LawfulEqOrd.eq_of_compare horder
          subst hsame
          simp [lookup, lookup_eq_none_of_lt hbefore, eq_comm]
      | lt | gt =>
          have hdiffers : key ≠ other := by
            rintro rfl
            simp at horder
          simp [lookup, horder, hdiffers]

/-- The entries of a map are what can be found in it. -/
theorem mem_entries_iff {map : SortedMap κ ν} {key : κ} {value : ν} :
    (key, value) ∈ map.entries ↔ map.find? key = some value :=
  mem_iff_lookup map.sorted

/-! ## Changes that need an order -/

variable [Std.TransOrd κ]

/-- File `value` under `key`, replacing what was there. -/
def insert (map : SortedMap κ ν) (key : κ) (value : ν) : SortedMap κ ν where
  entries := place key value map.entries
  sorted := by
    have hsorted := map.sorted
    generalize map.entries = entries at hsorted
    induction entries with
    | nil => simp [place]
    | cons head rest ih =>
        obtain ⟨other, held⟩ := head
        obtain ⟨hfirst, htail⟩ := List.pairwise_cons.1 hsorted
        unfold place
        split
        · rename_i hbefore
          refine List.pairwise_cons.2 ⟨?_, hsorted⟩
          intro entry hmem
          rcases List.mem_cons.1 hmem with rfl | hmem
          · exact hbefore
          · exact Std.TransCmp.lt_trans hbefore (hfirst entry hmem)
        · rename_i hsame
          have hsame : key = other := Std.LawfulEqOrd.eq_of_compare hsame
          exact List.pairwise_cons.2 ⟨fun entry hmem => hsame ▸ hfirst entry hmem, htail⟩
        · rename_i hbehind
          refine List.pairwise_cons.2 ⟨?_, ih htail⟩
          intro entry hmem
          rcases mem_place hmem with rfl | hmem
          · exact Std.OrientedCmp.lt_of_gt hbehind
          · exact hfirst entry hmem

/-! ## The view -/

theorem find?_insert_self (map : SortedMap κ ν) (key : κ) (value : ν) :
    (map.insert key value).find? key = some value :=
  lookup_place_self key value map.entries

theorem find?_insert_of_ne (map : SortedMap κ ν) {key other : κ} (hne : other ≠ key) (value : ν) :
    (map.insert key value).find? other = map.find? other :=
  lookup_place_of_ne hne value map.entries

theorem find?_insert [DecidableEq κ] (map : SortedMap κ ν) (key other : κ) (value : ν) :
    (map.insert key value).find? other = if other = key then some value else map.find? other := by
  by_cases hsame : other = key
  · rw [hsame, find?_insert_self, if_pos rfl]
  · rw [find?_insert_of_ne map hsame, if_neg hsame]

/-- Sorted lists with the same view are the same. -/
theorem entries_eq_of_lookup {entries entries' : List (κ × ν)}
    (hsorted : entries.Pairwise fun earlier later => compare earlier.1 later.1 = .lt)
    (hsorted' : entries'.Pairwise fun earlier later => compare earlier.1 later.1 = .lt)
    (hview : ∀ key, lookup key entries = lookup key entries') : entries = entries' := by
  induction entries generalizing entries' with
  | nil =>
      cases entries' with
      | nil => rfl
      | cons head rest => simpa [lookup] using hview head.1
  | cons head rest ih =>
      cases entries' with
      | nil => simpa [lookup] using hview head.1
      | cons head' rest' =>
          obtain ⟨key, value⟩ := head
          obtain ⟨key', value'⟩ := head'
          obtain ⟨hbefore, htail⟩ := List.pairwise_cons.1 hsorted
          obtain ⟨hbefore', htail'⟩ := List.pairwise_cons.1 hsorted'
          cases horder : compare key key' with
          | lt =>
              have habsent : lookup key ((key', value') :: rest') = none :=
                lookup_eq_none_of_lt fun entry hmem => by
                  rcases List.mem_cons.1 hmem with rfl | hmem
                  · exact horder
                  · exact Std.TransCmp.lt_trans horder (hbefore' entry hmem)
              have hfound := hview key
              rw [habsent] at hfound
              simp [lookup] at hfound
          | gt =>
              have horder : compare key' key = .lt := Std.OrientedCmp.lt_of_gt horder
              have habsent : lookup key' ((key, value) :: rest) = none :=
                lookup_eq_none_of_lt fun entry hmem => by
                  rcases List.mem_cons.1 hmem with rfl | hmem
                  · exact horder
                  · exact Std.TransCmp.lt_trans horder (hbefore entry hmem)
              have hfound := hview key'
              rw [habsent] at hfound
              simp [lookup] at hfound
          | eq =>
              have hsame : key = key' := Std.LawfulEqOrd.eq_of_compare horder
              subst hsame
              have hfound := hview key
              simp only [lookup, Std.ReflCmp.compare_self, Option.some.injEq] at hfound
              subst hfound
              congr 1
              refine ih htail htail' fun other => ?_
              have hfound := hview other
              cases horder : compare other key with
              | eq =>
                  have hsame : other = key := Std.LawfulEqOrd.eq_of_compare horder
                  subst hsame
                  rw [lookup_eq_none_of_lt hbefore, lookup_eq_none_of_lt hbefore']
              | lt => simpa [lookup, horder] using hfound
              | gt => simpa [lookup, horder] using hfound

/-- A map is determined by its view. -/
theorem ext_find? {map map' : SortedMap κ ν} (hview : ∀ key, map.find? key = map'.find? key) :
    map = map' := by
  obtain ⟨entries, hsorted⟩ := map
  obtain ⟨entries', hsorted'⟩ := map'
  obtain rfl : entries = entries' := entries_eq_of_lookup hsorted hsorted' hview
  rfl

/-- The map that files the entries of a list one after the other, so the last one of a key stays. -/
def ofList (entries : List (κ × ν)) : SortedMap κ ν :=
  entries.foldl (fun map entry => map.insert entry.1 entry.2) empty

/-- Keys that are not listed keep the value that they had before a list was filed. -/
theorem find?_foldl_insert {key : κ} {entries : List (κ × ν)} (habsent : key ∉ entries.map Prod.fst)
    (map : SortedMap κ ν) :
    (entries.foldl (fun map entry => map.insert entry.1 entry.2) map).find? key = map.find? key := by
  induction entries generalizing map with
  | nil => rfl
  | cons head rest ih =>
      rw [List.map_cons, List.mem_cons, not_or] at habsent
      rw [List.foldl_cons, ih habsent.2, find?_insert_of_ne map habsent.1]

/-- A list without repeated keys is filed as it stands. -/
theorem find?_ofList {key : κ} {value : ν} {entries : List (κ × ν)}
    (hdistinct : (entries.map Prod.fst).Nodup) :
    (ofList entries).find? key = some value ↔ (key, value) ∈ entries := by
  suffices hgeneral : ∀ map : SortedMap κ ν, map.find? key = none →
      ((entries.foldl (fun map entry => map.insert entry.1 entry.2) map).find? key = some value ↔
        (key, value) ∈ entries) from hgeneral empty rfl
  induction entries with
  | nil => simp +contextual
  | cons head rest ih =>
      intro map habsent
      obtain ⟨other, held⟩ := head
      rw [List.map_cons, List.nodup_cons] at hdistinct
      rw [List.foldl_cons, List.mem_cons]
      by_cases hsame : key = other
      · subst hsame
        rw [find?_foldl_insert hdistinct.1, find?_insert_self]
        have hunlisted : (key, value) ∉ rest := fun hmem =>
          hdistinct.1 (List.mem_map.2 ⟨_, hmem, rfl⟩)
        simp [hunlisted, eq_comm]
      · rw [ih hdistinct.2 _ (by rw [find?_insert_of_ne map hsame, habsent])]
        simp [hsame]

/-- Filing the entries of a map gives the map. -/
theorem ofList_entries (map : SortedMap κ ν) : ofList map.entries = map := by
  have hdistinct : (map.entries.map Prod.fst).Nodup := by
    refine List.pairwise_map.2 (map.sorted.imp ?_)
    intro earlier later hbefore hsame
    rw [hsame] at hbefore
    simp at hbefore
  refine ext_find? fun key => Option.ext fun value => ?_
  rw [find?_ofList hdistinct, mem_entries_iff]

end SortedMap

end AccountPool
