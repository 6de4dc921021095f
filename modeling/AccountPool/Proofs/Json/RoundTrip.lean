import AccountPool.Json.Printer
import AccountPool.Proofs.Json.Outline

/-!
# Printed values are read back

The compact text of a sound value that is not nested too deep denotes a sound value of the same outline:
`Value.exists_parse_compact`. Without floating-point numbers it denotes the value itself:
`Value.parse_compact`. The proof follows the values; for the items of an array and the members of an
object it goes through the rounds of the loop that reads them.
-/

namespace AccountPool

/-- A key behind all others is filed at the end. -/
theorem SortedMap.entries_insert_of_lt {κ ν : Type} [Ord κ] [Std.LawfulEqOrd κ] [Std.TransOrd κ]
    (map : SortedMap κ ν) {key : κ} {value : ν}
    (h : ∀ entry ∈ map.entries, compare entry.1 key = .lt) :
    (map.insert key value).entries = map.entries ++ [(key, value)] := by
  show place key value map.entries = _
  generalize map.entries = entries at h
  induction entries with
  | nil => rfl
  | cons head rest ih =>
      obtain ⟨other, held⟩ := head
      have hbehind : compare key other = .gt := Std.OrientedCmp.gt_of_lt (h _ List.mem_cons_self)
      rw [place, hbehind]
      exact congrArg _ (ih fun entry hmem => h entry (List.mem_cons_of_mem _ hmem))

namespace Json

open Reader

/-! ## Punctuation -/

variable {rest : List Char}

/-- Behind a value in a document there is the end, a comma or a closing bracket. -/
inductive Closes : List Char → Prop where
  | nothing : Closes []
  | comma (rest : List Char) : Closes (',' :: rest)
  | bracket (rest : List Char) : Closes (']' :: rest)
  | brace (rest : List Char) : Closes ('\x7d' :: rest)

/-- What stands behind a value does not belong to a number. -/
theorem Closes.delimits (h : Closes rest) : Delimits rest := by
  cases h <;> rfl

/-- The first character of a value is no blank, and it does not close an array. -/
def Opens (c : Char) : Prop :=
  isSpace c = false ∧ c ≠ ']'

instance (c : Char) : Decidable (Opens c) :=
  inferInstanceAs (Decidable (_ ∧ _))

/-- A number does not start with a blank. -/
theorem not_isSpace_of_startsNumber {c : Char} (h : startsNumber c = true) : isSpace c = false := by
  cases hspace : isSpace c with
  | false => rfl
  | true =>
      simp only [isSpace, Bool.or_eq_true, decide_eq_true_eq] at hspace
      obtain ((rfl | rfl) | rfl) | rfl := hspace <;> cases h

/-- Before the closing bracket there is no item. -/
theorem takes_hasItem_bracket (first : Bool) : (hasItem first).Takes [] (']' :: rest) false :=
  (takes_peekToken rfl).look (takes_pure false)

/-- The first item follows at once. -/
theorem takes_hasItem_first {c : Char} (hc : Opens c) : (hasItem true).Takes [] (c :: rest) true := by
  refine (takes_peekToken (by simp [hc.1])).look ?_
  show (if c = ']' then _ else _ : Reader Bool).Takes _ _ _
  rw [if_neg hc.2]
  exact takes_pure true

/-- Another item follows behind a comma. -/
theorem takes_hasItem_comma {c : Char} (hc : Opens c) :
    (hasItem false).Takes [','] (c :: rest) true := by
  refine (takes_peekToken rfl).look (Takes.andThen (takes_skip ',') ?_)
  refine (takes_peekToken (by simp [hc.1])).look ?_
  show (if c = ']' then _ else _ : Reader Bool).Takes _ _ _
  rw [if_neg hc.2]
  exact takes_pure true

/-- The closing bracket is taken. -/
theorem takes_listEnd : listEnd.Takes [']'] rest () :=
  (takes_peekToken rfl).look (takes_skip ']')

/-- The colon behind a key is taken. -/
theorem takes_colon : colon.Takes [':'] rest () :=
  (takes_peekToken rfl).look (takes_skip ':')

/-- Before the closing brace there is no key. -/
theorem takes_key?_brace (first : Bool) : (key? first).Takes [] ('\x7d' :: rest) none :=
  (takes_peekToken rfl).look (takes_pure none)

/-- A key is taken from its text. -/
theorem takes_quotedKey (name : String) :
    (key?.quotedKey '"').Takes (stringText name) rest (some name) := by
  show (skip >>= fun _ => some <$> stringTail : Reader (Option String)).Takes _ _ _
  exact Takes.bind (s := ['"']) (takes_skip '"') ((takes_stringTail name).map some)

/-- The key of the first member follows at once. -/
theorem takes_key?_first (name : String) :
    (key? true).Takes (stringText name) rest (some name) :=
  (takes_peekToken rfl).look (takes_quotedKey name)

/-- The key of another member follows behind a comma. -/
theorem takes_key?_comma (name : String) :
    (key? false).Takes (',' :: stringText name) rest (some name) := by
  refine (takes_peekToken rfl).look ?_
  exact Takes.bind (s := [',']) (takes_skip ',') ((takes_peekToken rfl).look (takes_quotedKey name))

/-- A reader that takes a whole text reads the text. -/
theorem Reader.Takes.readAll {α : Type} {reader : Reader α} {taken : List Char} {value : α}
    (h : reader.Takes taken [] value) : readAll reader (String.ofList taken) = .ok value := by
  have hwhole : Takes (do let value ← reader; finish; pure value) taken [] value :=
    h.andThen (((takes_peekToken rfl).look (takes_pure ())).andThen (takes_pure value))
  obtain ⟨offset, hok⟩ := hwhole 0
  rw [List.append_nil] at hok
  simp only [Reader.readAll, String.toList_ofList, hok]

/-! ## Texts of items and members -/

namespace Value

/-- The items behind the first one, each with a comma in front. -/
def moreItems : List Value → List Char
  | [] => []
  | items => ',' :: compactItems items

/-- The first item of an array and the others. -/
theorem compactItems_cons (item : Value) (items : List Value) :
    compactItems (item :: items) = compactChars item ++ moreItems items := by
  cases items with
  | nil => rw [compactItems, moreItems, List.append_nil]
  | cons => rfl

/-- A name and a value with a colon between them. -/
def memberChars (member : String × Value) : List Char :=
  stringText member.1 ++ ':' :: compactChars member.2

/-- The members behind the first one, each with a comma in front. -/
def moreMembers : List (String × Value) → List Char
  | [] => []
  | members => ',' :: compactMembers members

/-- The first member of an object and the others. -/
theorem compactMembers_cons (member : String × Value) (members : List (String × Value)) :
    compactMembers (member :: members) = memberChars member ++ moreMembers members := by
  cases members with
  | nil => rw [compactMembers, moreMembers, List.append_nil, memberChars]
  | cons => simp [compactMembers, moreMembers, memberChars]

/-- Behind an item stands a comma or the closing bracket. -/
theorem closes_moreItems (items : List Value) (rest : List Char) : Closes (moreItems items ++ ']' :: rest) := by
  cases items with
  | nil => exact .bracket rest
  | cons => exact .comma _

/-- Behind a member stands a comma or the closing brace. -/
theorem closes_moreMembers (members : List (String × Value)) (rest : List Char) :
    Closes (moreMembers members ++ ['\x7d'] ++ rest) := by
  cases members with
  | nil => exact .brace rest
  | cons => exact .comma _

/-! ## Scalars -/

/-- A value without parts is taken as it is. -/
theorem takes_scalar {levels : Nat} {value : Value} {taken : List Char}
    (h : ∀ inner, (valueWith inner).Takes taken rest value) : (Reader.value levels).Takes taken rest value := by
  cases levels with
  | zero => exact h none
  | succ levels => exact h (some (Reader.value levels))

/-- A number is taken as some number of its outline. -/
theorem exists_takes_number {levels : Nat} {n : Number} (hn : n.isFinite = true) (hrest : Closes rest) :
    ∃ read : Value, read.Sound ∧ read.outline = (Value.number n).outline ∧
      (∃ c more, n.text = c :: more ∧ Opens c) ∧ (Reader.value levels).Takes n.text rest read := by
  obtain ⟨c, more, read, htext, hstart, htakes, houtline, hfinite⟩ := n.exists_takes hn hrest.delimits
  have hopens : Opens c ∧ c ≠ 'n' ∧ c ≠ 't' ∧ c ≠ 'f' := by
    refine ⟨⟨not_isSpace_of_startsNumber hstart, ?_⟩, ?_, ?_, ?_⟩
    all_goals
      rintro rfl
      cases hstart
  obtain ⟨hopens, hn, ht, hf⟩ := hopens
  refine ⟨.number read, hfinite, congrArg Value.number houtline, ⟨c, more, htext, hopens⟩, ?_⟩
  refine takes_scalar fun inner => ?_
  rw [htext] at htakes ⊢
  refine (takes_peekToken (by simp [hopens.1])).look ?_
  show (if c = 'n' then _ else if c = 't' then _ else if c = 'f' then _
    else if startsNumber c then _ else _ : Reader Value).Takes _ _ _
  rw [if_neg hn, if_neg ht, if_neg hf, if_pos hstart]
  exact htakes.map Value.number

/-- A string is taken as it is. -/
theorem takes_string {levels : Nat} (text : String) :
    (Reader.value levels).Takes (stringText text) rest (.string text) := by
  refine takes_scalar fun inner => (takes_peekToken rfl).look ?_
  exact Takes.bind (s := ['"']) (takes_skip '"') ((takes_stringTail text).map Value.string)

/-- A word is taken as what it stands for. -/
theorem takes_words {levels : Nat} {value : Value} (h : value ∈ [.null, .bool true, .bool false]) :
    (Reader.value levels).Takes value.compactChars rest value := by
  refine takes_scalar fun inner => ?_
  simp only [List.mem_cons, List.not_mem_nil, or_false] at h
  obtain rfl | rfl | rfl := h
  all_goals exact (takes_peekToken rfl).look ((takes_word _).andThen (takes_pure _))

/-! ## Arrays and objects -/

/-- A round of the loop that reads the items of an array. -/
def itemRound (item : Reader Value) (read : List Value) : Reader (List Value ⊕ List Value) := do
  if ← hasItem read.isEmpty then do
    let value ← item
    pure (.inl (value :: read))
  else pure (.inr read.reverse)

/-- A round of the loop that reads the members of an object. -/
def memberRound (value : Reader Value) : Bool × Members → Reader ((Bool × Members) ⊕ Members)
  | (first, read) => do
      match ← key? first with
      | none => do
          skip
          pure (.inr read)
      | some key => do
          colon
          let value ← value
          pure (.inl (false, read.insert key value))

/-- An item is taken in a round, with a comma in front if it is not the first one. -/
theorem takes_itemRound {item : Reader Value} {value : Value} {c : Char} {more : List Char} (hc : Opens c)
    (h : item.Takes (c :: more) rest value) (read : List Value) :
    (itemRound item read).Takes ((if read.isEmpty then [] else [',']) ++ c :: more) rest
      (.inl (value :: read)) := by
  have htail : (item >>= fun value => pure (.inl (value :: read)) :
      Reader (List Value ⊕ List Value)).Takes (c :: more) rest (.inl (value :: read)) :=
    h.andThen (takes_pure _)
  cases read with
  | nil => exact Takes.look (takes_hasItem_first hc) htail
  | cons => exact Takes.bind (takes_hasItem_comma hc) htail

/-- A member is taken in a round, with a comma in front if it is not the first one. -/
theorem takes_memberRound {value : Reader Value} {found : Value} (name : String) {taken : List Char}
    (h : value.Takes taken rest found) (first : Bool) (read : Members) :
    (memberRound value (first, read)).Takes
      ((if first then [] else [',']) ++ stringText name ++ ':' :: taken) rest
      (.inl (false, read.insert name found)) := by
  have htail : (do
      colon
      let value ← value
      pure (.inl (false, read.insert name value)) : Reader ((Bool × Members) ⊕ Members)).Takes
        (':' :: taken) rest (.inl (false, read.insert name found)) :=
    Takes.bind (s := [':']) takes_colon (h.andThen (takes_pure _))
  cases first with
  | true => exact (takes_key?_first name).bind htail
  | false => exact (takes_key?_comma name).bind htail

section MemberRounds

variable {σ : Type} {body : Bool × σ → Reader ((Bool × σ) ⊕ α)} {state following : σ} {result : α}

/-- Where no members are left the last round takes the brace. -/
theorem rounds_members_nil {first : Bool} (h : (body (first, state)).Takes ['\x7d'] rest (.inr result)) :
    Rounds body rest (first, state)
      ((if first then compactMembers [] else moreMembers []) ++ ['\x7d']) result := by
  have htext : (if first then compactMembers [] else moreMembers []) = [] := by
    split <;> rfl
  rw [htext]
  exact .last _ _ _ h

/-- A round takes the first of several members, and the other rounds take the others. -/
theorem rounds_members_cons {first : Bool} {name : String} {value : Value}
    {members : List (String × Value)}
    (hround : (body (first, state)).Takes
      ((if first then [] else [',']) ++ stringText name ++ ':' :: compactChars value)
      (moreMembers members ++ ['\x7d'] ++ rest) (.inl (false, following)))
    (hrounds : Rounds body rest (false, following) (moreMembers members ++ ['\x7d']) result) :
    Rounds body rest (first, state)
      ((if first then compactMembers ((name, value) :: members) else moreMembers ((name, value) :: members))
        ++ ['\x7d']) result := by
  have hmembers := compactMembers_cons (name, value) members
  cases first with
  | true =>
      show Rounds _ _ _ (compactMembers ((name, value) :: members) ++ ['\x7d']) _
      rw [hmembers, List.append_assoc]
      exact .next _ _ _ _ _ _ hround hrounds
  | false =>
      show Rounds _ _ _ (',' :: compactMembers ((name, value) :: members) ++ ['\x7d']) _
      rw [hmembers, ← List.cons_append, List.append_assoc]
      exact .next _ _ _ _ _ _ hround hrounds

end MemberRounds

mutual

/-- A sound value that is not too deep is taken as some sound value of its outline. -/
theorem exists_takes {levels : Nat} : (value : Value) → value.Sound → value.depth ≤ levels →
    {rest : List Char} → Closes rest →
    ∃ read : Value, read.Sound ∧ read.outline = value.outline ∧
      (∃ c more, value.compactChars = c :: more ∧ Opens c) ∧
      (Reader.value levels).Takes value.compactChars rest read
  | .null, _, _, _, _ =>
      ⟨.null, trivial, rfl, ⟨'n', _, rfl, by decide⟩, takes_words (by simp)⟩
  | .bool true, _, _, _, _ =>
      ⟨.bool true, trivial, rfl, ⟨'t', _, rfl, by decide⟩, takes_words (by simp)⟩
  | .bool false, _, _, _, _ =>
      ⟨.bool false, trivial, rfl, ⟨'f', _, rfl, by decide⟩, takes_words (by simp)⟩
  | .number _, hsound, _, _, hrest => exists_takes_number hsound hrest
  | .string text, _, _, _, _ =>
      ⟨.string text, trivial, rfl, ⟨'"', _, rfl, by decide⟩, takes_string text⟩
  | .array items, hsound, hdepth, rest, _ => by
      obtain ⟨levels, rfl⟩ := Nat.exists_eq_add_one_of_ne_zero
        (Nat.ne_of_gt (Nat.lt_of_lt_of_le (Nat.succ_pos _) hdepth))
      obtain ⟨found, hfound, houtline, hrounds⟩ :=
        exists_rounds_items rest items hsound (Nat.le_of_succ_le_succ hdepth) []
      refine ⟨.array found, hfound, congrArg Value.array houtline, ⟨'[', _, rfl, by decide⟩, ?_⟩
      refine (takes_peekToken rfl).look ?_
      refine Takes.bind (s := ['[']) (takes_skip '[') (Takes.map ?_ Value.array)
      exact hrounds.takes_loop.bind (takes_listEnd.andThen (takes_pure _))
  | .object members, hsound, hdepth, rest, _ => by
      obtain ⟨levels, rfl⟩ := Nat.exists_eq_add_one_of_ne_zero
        (Nat.ne_of_gt (Nat.lt_of_lt_of_le (Nat.succ_pos _) hdepth))
      obtain ⟨map, ⟨found, hentries, hfound, houtline⟩, hrounds⟩ :=
        exists_rounds_members rest members hsound.2 hsound.1 (Nat.le_of_succ_le_succ hdepth)
          true {} (fun _ hmem => nomatch hmem)
      have hmembers : map.entries = found := hentries
      refine ⟨.ofMembers map, ⟨map.sorted, hmembers ▸ hfound⟩, ?_, ⟨'\x7b', _, rfl, by decide⟩, ?_⟩
      · show Value.object (outlineMembers map.entries) = Value.object (outlineMembers members)
        rw [hmembers, houtline]
      · refine (takes_peekToken rfl).look ?_
        refine Takes.bind (s := ['\x7b']) (takes_skip '\x7b') (Takes.map ?_ Value.ofMembers)
        exact hrounds.takes_loop

/-- The rounds of the loop that reads the items of an array. -/
theorem exists_rounds_items {levels : Nat} (rest : List Char) : (items : List Value) → SoundItems items →
    depthItems items ≤ levels → (read : List Value) →
    ∃ found, SoundItems found ∧ outlineItems found = outlineItems items ∧
      Rounds (itemRound (Reader.value levels)) (']' :: rest) read
        (if read.isEmpty then compactItems items else moreItems items) (read.reverse ++ found)
  | [], _, _, read => by
      refine ⟨[], trivial, rfl, .last _ _ _ ?_⟩
      have htext : (if read.isEmpty then compactItems [] else moreItems []) = [] := by
        split <;> rfl
      rw [htext, List.append_nil]
      exact (takes_hasItem_bracket _).look (takes_pure _)
  | item :: items, hsound, hdepth, read => by
      have hdepths := Nat.max_le.1 hdepth
      obtain ⟨value, hvalue, houtline, ⟨c, more, htext, hc⟩, htakes⟩ :=
        exists_takes item hsound.1 hdepths.1 (closes_moreItems items rest)
      obtain ⟨found, hfound, houtlines, hrounds⟩ :=
        exists_rounds_items rest items hsound.2 hdepths.2 (value :: read)
      refine ⟨value :: found, ⟨hvalue, hfound⟩, ?_, ?_⟩
      · rw [outlineItems, outlineItems, houtline, houtlines]
      rw [htext] at htakes
      have hround := takes_itemRound hc htakes read
      have hread : read.reverse ++ value :: found = (value :: read).reverse ++ found := by simp
      have hitems := compactItems_cons item items
      rw [htext] at hitems
      rw [hread]
      cases read with
      | nil =>
          show Rounds _ _ _ (compactItems (item :: items)) _
          rw [hitems]
          exact .next _ _ _ _ _ _ hround hrounds
      | cons first read =>
          show Rounds _ _ _ (',' :: compactItems (item :: items)) _
          rw [hitems]
          exact .next _ _ _ _ _ _ hround hrounds

/-- The rounds of the loop that reads the members of an object. -/
theorem exists_rounds_members {levels : Nat} (rest : List Char) : (members : List (String × Value)) →
    SoundMembers members →
    members.Pairwise (fun earlier later => compare earlier.1 later.1 = .lt) →
    depthMembers members ≤ levels → (first : Bool) → (read : Members) →
    (∀ entry ∈ read.entries, ∀ member ∈ members, compare entry.1 member.1 = .lt) →
    ∃ map : Members, (∃ found, map.entries = read.entries ++ found ∧ SoundMembers found ∧
        outlineMembers found = outlineMembers members) ∧
      Rounds (memberRound (Reader.value levels)) rest (first, read)
        ((if first then compactMembers members else moreMembers members) ++ ['\x7d']) map
  | [], _, _, _, first, read, _ => by
      refine ⟨read, ⟨[], (List.append_nil _).symm, trivial, rfl⟩, rounds_members_nil ?_⟩
      refine Takes.look (takes_key?_brace first) ?_
      exact Takes.andThen (takes_skip '\x7d') (takes_pure (Sum.inr read))
  | (name, value) :: members, hsound, hsorted, hdepth, first, read, hbefore => by
      have hdepths := Nat.max_le.1 hdepth
      have hsorted := List.pairwise_cons.1 hsorted
      obtain ⟨held, hheld, houtline, -, htakes⟩ :=
        exists_takes value hsound.1 hdepths.1 (closes_moreMembers members rest)
      have hentries : (read.insert name held).entries = read.entries ++ [(name, held)] :=
        read.entries_insert_of_lt fun entry hmem => hbefore entry hmem _ List.mem_cons_self
      have hfollows : ∀ entry ∈ (read.insert name held).entries, ∀ member ∈ members,
          compare entry.1 member.1 = .lt := by
        intro entry hentry member hmember
        rw [hentries, List.mem_append, List.mem_singleton] at hentry
        obtain hentry | rfl := hentry
        · exact hbefore entry hentry member (List.mem_cons_of_mem _ hmember)
        · exact hsorted.1 member hmember
      obtain ⟨map, ⟨found, hmap, hfound, houtlines⟩, hrounds⟩ :=
        exists_rounds_members rest members hsound.2 hsorted.2 hdepths.2 false _ hfollows
      refine ⟨map, ⟨(name, held) :: found, ?_, ⟨hheld, hfound⟩, ?_⟩, ?_⟩
      · rw [hmap, hentries, List.append_assoc, List.singleton_append]
      · rw [outlineMembers, outlineMembers, houtline, houtlines]
      exact rounds_members_cons (takes_memberRound name htakes first read) hrounds

end

/-- The text of a sound value that is not too deep denotes a sound value of its outline. -/
theorem exists_parse_compact {value : Value} (hsound : value.Sound) (hdepth : value.depth ≤ maxDepth) :
    ∃ read : Value, Value.parse value.compact = .ok read ∧ read.Sound ∧ read.outline = value.outline := by
  obtain ⟨read, hread, houtline, -, htakes⟩ := exists_takes value hsound hdepth .nothing
  exact ⟨read, htakes.readAll, hread, houtline⟩

/-- The text of a sound value without floating-point numbers that is not too deep denotes the value. -/
theorem parse_compact {value : Value} (hsound : value.Sound) (hintegral : value.Integral)
    (hdepth : value.depth ≤ Reader.maxDepth) : Value.parse value.compact = .ok value := by
  obtain ⟨read, hread, -, houtline⟩ := exists_parse_compact hsound hdepth
  rw [hread, eq_of_outline_eq value hintegral houtline]

end Value

end Json

end AccountPool
