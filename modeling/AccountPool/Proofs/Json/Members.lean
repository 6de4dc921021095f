import AccountPool.Proofs.Json.RoundTrip

/-!
# Objects that list their members in any order

Entities are printed with their members in order of declaration. When such a text is read, each member is
taken in its place as some value, and these values are filed one after the other. So if the text of an
object is read as that object, each of its members is taken as it is: `Value.taken_of_parse`. This is the
case if there are no floating-point numbers and the object is not too deep: `Value.parse_compact_object`.
-/

namespace AccountPool

/-- Lists with the same distinct keys in the same order are the same if they file the same map. -/
theorem SortedMap.eq_of_ofList_eq {κ ν : Type} [Ord κ] [Std.LawfulEqOrd κ] [Std.TransOrd κ]
    {entries entries' : List (κ × ν)} (hdistinct : (entries.map Prod.fst).Nodup)
    (hkeys : entries'.map Prod.fst = entries.map Prod.fst) (h : ofList entries' = ofList entries) :
    entries' = entries := by
  have hmem (entry : κ × ν) : entry ∈ entries' ↔ entry ∈ entries := by
    rw [← find?_ofList hdistinct, ← find?_ofList (hkeys ▸ hdistinct), h]
  clear h
  induction entries generalizing entries' with
  | nil => exact List.map_eq_nil_iff.1 hkeys
  | cons entry entries ih =>
      obtain ⟨key, value⟩ := entry
      obtain ⟨⟨key', value'⟩, entries', rfl, hkey, hrest⟩ := List.map_eq_cons_iff.1 hkeys
      obtain rfl : key' = key := hkey
      rw [List.map_cons, List.nodup_cons] at hdistinct
      have hunlisted {listed : List (κ × ν)} (hlisted : listed.map Prod.fst = entries.map Prod.fst)
          (held : ν) : (key', held) ∉ listed := by
        intro hmem
        have hkey : key' ∈ listed.map Prod.fst := List.mem_map_of_mem (f := Prod.fst) hmem
        exact hdistinct.1 (hlisted ▸ hkey)
      have hvalue : value' = value := by
        have hfirst := (hmem (key', value')).1 List.mem_cons_self
        rw [List.mem_cons] at hfirst
        obtain hfirst | hfirst := hfirst
        · exact congrArg Prod.snd hfirst
        · exact absurd hfirst (hunlisted rfl _)
      subst hvalue
      refine congrArg _ (ih hdistinct.2 hrest fun ⟨other, held⟩ => ?_)
      have hother := hmem (other, held)
      by_cases hsame : other = key'
      · subst hsame
        exact iff_of_false (hunlisted hrest held) (hunlisted rfl held)
      · simpa [hsame] using hother

namespace Json

open Reader

namespace Value

/-! ## Members in their places -/

/-- In the text of an object, in front of the others, each of the members is taken as some value. -/
inductive Taken (levels : Nat) (rest : List Char) :
    List (String × Value) → List (String × Value) → Prop
  | nil : Taken levels rest [] []
  | cons (name : String) {value read : Value} {members found : List (String × Value)} :
      (Reader.value levels).Takes value.compactChars (moreMembers members ++ ['\x7d'] ++ rest) read →
      Taken levels rest members found →
      Taken levels rest ((name, value) :: members) ((name, read) :: found)

variable {levels : Nat} {rest : List Char} {members found : List (String × Value)}

/-- The names are taken as they are. -/
theorem Taken.names (h : Taken levels rest members found) :
    found.map Prod.fst = members.map Prod.fst := by
  induction h with
  | nil => rfl
  | cons name _ _ ih => rw [List.map_cons, List.map_cons, ih]

/-- Sound members that are not too deep are taken as some values of their outlines. -/
theorem exists_taken (rest : List Char) (hsound : SoundMembers members)
    (hdepth : depthMembers members ≤ levels) :
    ∃ found, Taken levels rest members found ∧ outlineMembers found = outlineMembers members := by
  induction members with
  | nil => exact ⟨[], .nil, rfl⟩
  | cons member members ih =>
      obtain ⟨name, value⟩ := member
      have hdepths := Nat.max_le.1 hdepth
      obtain ⟨found, htaken, houtlines⟩ := ih hsound.2 hdepths.2
      obtain ⟨read, -, houtline, -, htakes⟩ :=
        exists_takes value hsound.1 hdepths.1 (closes_moreMembers members rest)
      refine ⟨(name, read) :: found, .cons name htakes htaken, ?_⟩
      rw [outlineMembers, outlineMembers, houtline, houtlines]

/-- What members are taken as is filed by the rounds of the loop that reads the object. -/
theorem Taken.rounds (h : Taken levels rest members found) (first : Bool) (read : Members) :
    Rounds (memberRound (Reader.value levels)) rest (first, read)
      ((if first then compactMembers members else moreMembers members) ++ ['\x7d'])
      (found.foldl (fun map member => map.insert member.1 member.2) read) := by
  induction h generalizing first read with
  | nil =>
      refine rounds_members_nil ?_
      exact (takes_key?_brace first).look ((takes_skip '\x7d').andThen (takes_pure (Sum.inr read)))
  | @cons name value held members found htakes _ ih =>
      exact rounds_members_cons (takes_memberRound name htakes first read)
        (ih false (read.insert name held))

/-! ## Whole texts -/

/-- The text of an object is read as the map in which the values are filed that are taken. -/
theorem Taken.parse (h : Taken (maxDepth - 1) [] members found) :
    Value.parse (Value.object members).compact = .ok (.ofMembers (.ofList found)) := by
  refine Takes.readAll ?_
  refine (takes_peekToken rfl).look ?_
  refine Takes.bind (s := ['\x7b']) (takes_skip '\x7b') (Takes.map ?_ Value.ofMembers)
  exact (h.rounds true {}).takes_loop

/-- If the text of an object is read as that object, each of its members is taken as it is. -/
theorem taken_of_parse (hdistinct : (members.map Prod.fst).Nodup)
    (h : Value.parse (Value.object members).compact = .ok (.ofMembers (.ofList members))) :
    Taken (maxDepth - 1) [] members members := by
  have hfind {member : String × Value} (hmem : member ∈ members) :
      (SortedMap.ofList members).find? member.1 = some member.2 :=
    (SortedMap.find?_ofList hdistinct).2 hmem
  have hsound : SoundMembers members := soundMembers_iff.2 fun member hmem =>
    sound_ofMembers.1 (parse_sound h) _ _ (hfind hmem)
  have hdepth : depthMembers members ≤ maxDepth - 1 := depthMembers_le.2 fun member hmem =>
    Nat.le_sub_one_of_lt (Nat.lt_of_lt_of_le (depth_lt_ofMembers (hfind hmem)) (parse_depth h))
  obtain ⟨found, htaken, -⟩ := exists_taken [] hsound hdepth
  have hsame : SortedMap.ofList found = SortedMap.ofList members := by
    have hparse := htaken.parse.symm.trans h
    injection hparse with hvalue
    injection hvalue with hentries
    rw [← SortedMap.ofList_entries (.ofList found), hentries, SortedMap.ofList_entries]
  rwa [SortedMap.eq_of_ofList_eq hdistinct htaken.names hsame] at htaken

/-- The text of an object without floating-point numbers that is not too deep is read as the object. -/
theorem parse_compact_object (hsound : SoundMembers members) (hintegral : IntegralMembers members)
    (hdepth : depthMembers members ≤ maxDepth - 1) :
    Value.parse (Value.object members).compact = .ok (.ofMembers (.ofList members)) := by
  obtain ⟨found, htaken, houtlines⟩ := exists_taken [] hsound hdepth
  rw [htaken.parse, eq_of_outlineMembers_eq members hintegral houtlines]

end Value

end Json

end AccountPool
