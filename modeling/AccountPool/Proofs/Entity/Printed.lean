import AccountPool.Proofs.Entity.Carried
import AccountPool.Proofs.Json.Members

/-!
# Printed entities are read back

An entity is printed with its members in order of declaration. The reader of entities takes each member
in its place as the value of its field, if the reader of values takes it there as it is; what is left out
is completed by defaults. So an entity is read back from its text if that text denotes the record of the
entity: `Entity.parse_of_parse`.
-/

namespace AccountPool

open Json (Value Members Mismatch Reader Closes stringText)
open Json.Reader
open Json.Value (Taken compactMembers moreMembers closes_moreMembers rounds_members_nil rounds_members_cons)

variable {α : Type} {rest : List Char}

/-! ## One value -/

namespace Shape

/-- A token is taken if its first character is accepted. -/
theorem takes_readExpecting {accepts : Char → Bool} {expected : String} {token : Char → Reader α}
    {c : Char} {more : List Char} {value : α} (hspace : isSpace c = false) (haccepts : accepts c = true)
    (h : (token c).Takes (c :: more) rest value) :
    (readExpecting accepts expected token).Takes (c :: more) rest value := by
  refine (takes_peekToken (by simp [hspace])).look ?_
  show (if accepts c then token c else readWrongType expected).Takes _ _ _
  rw [if_pos haccepts]
  exact h

/-- A text is taken as it is. -/
theorem takes_readText (expected text : String) :
    (readText expected).Takes (stringText text) rest text := by
  refine takes_readExpecting (by decide) (by decide) ?_
  exact Takes.bind (s := ['"']) (takes_skip '"') (takes_stringTail text)

/-- The name of a status is taken as the status. -/
theorem takes_readStatus [Status α] (status : α) :
    (readStatus : Reader α).Takes (stringText (Status.name status)) rest status := by
  refine (takes_peekToken rfl).look ?_
  refine Takes.bind (s := ['"']) (takes_skip '"') ?_
  refine (takes_stringTail (Status.name status)).andThen ?_
  rw [statusNamed, Status.parse?_name]
  exact takes_pure status

/-- An integer is taken as the timestamp. -/
theorem takes_readTimestamp (n : Int64) (hrest : Closes rest) :
    readTimestamp.Takes (Value.int64 n).compactChars rest n := by
  obtain ⟨c, more, htext, hstart, htakes⟩ := takes_integer (.ofInt64 n) hrest.delimits
  show readTimestamp.Takes (Json.Number.integerText _) rest n
  rw [htext]
  refine takes_readExpecting (Json.not_isSpace_of_startsNumber hstart) hstart (htakes.andThen ?_)
  rw [timestampOf, Json.WideInteger.toInt64?_ofInt64]
  exact takes_pure n

/-- Metadata are taken as the value of their text is, one level further inside. -/
theorem takes_readMetadata {metadata : Members}
    (h : (Reader.value (maxDepth - 1)).Takes (Value.ofMembers metadata).compactChars rest
      (.ofMembers metadata)) :
    readMetadata.Takes (Value.ofMembers metadata).compactChars rest metadata := by
  -- Behind the opening brace the two readers are the same.
  have hsame : (Value.ofMembers <$> readMetadata).Takes (Value.ofMembers metadata).compactChars rest
      (.ofMembers metadata) := h
  refine hsame.of_map fun other hother => ?_
  injection hother with hentries
  rw [← SortedMap.ofList_entries other, hentries, SortedMap.ofList_entries]

/-- A value is taken from what is written for it where the reader of values takes that as it is. -/
theorem takes_read {shape : Shape} {value : shape.Carrier} {written : Value}
    (hwritten : shape.encode value = some written) (hrest : Closes rest)
    (htaken : (Reader.value (maxDepth - 1)).Takes written.compactChars rest written) :
    shape.read.Takes written.compactChars rest value := by
  cases shape with
  | text =>
      cases hwritten
      exact takes_readText _ value
  | optionalText =>
      cases value with
      | none => cases hwritten
      | some text =>
          cases hwritten
          exact (takes_peekToken rfl).look ((takes_readText _ text).map some)
  | accountStatus =>
      cases hwritten
      exact takes_readStatus (α := AccountStatus) value
  | leaseStatus =>
      cases hwritten
      exact takes_readStatus (α := LeaseStatus) value
  | timestamp =>
      cases hwritten
      exact takes_readTimestamp value hrest
  | metadata =>
      rw [encode] at hwritten
      split at hwritten
      · cases hwritten
      · cases hwritten
        exact takes_readMetadata htaken

end Shape

namespace Field

/-! ## Drafts -/

/-- A draft has the values of the fields whose names were read, and no others. -/
def Gathered (read : List String) : (fields : List Field) → Values fields → Draft fields → Prop
  | [], (), () => True
  | field :: fields, (value, values), (found, draft) =>
      found = (if field.name ∈ read then some value else none) ∧ Gathered read fields values draft

/-- Before a name was read the draft is blank. -/
theorem gathered_blank (fields : List Field) (values : Values fields) :
    Gathered [] fields values (blank fields) := by
  induction fields with
  | nil => trivial
  | cons field fields ih => exact ⟨rfl, ih values.2⟩

/-- Only the names of the fields matter among those that were read. -/
theorem Gathered.congr {read read' : List String} {fields : List Field} {values : Values fields}
    {draft : Draft fields} (hread : ∀ field ∈ fields, field.name ∈ read ↔ field.name ∈ read')
    (h : Gathered read fields values draft) : Gathered read' fields values draft := by
  induction fields with
  | nil => trivial
  | cons field fields ih =>
      refine ⟨?_, ih (fun rest hmem => hread rest (List.mem_cons_of_mem _ hmem)) h.2⟩
      simp only [h.1, hread field List.mem_cons_self]

/-- What was gathered are the values of the fields whose names were read. -/
theorem Gathered.drafted {read : List String} {fields : List Field} {values : Values fields}
    {draft : Draft fields} (h : Gathered read fields values draft) :
    Drafted (· ∈ read) fields values draft := by
  induction fields with
  | nil => trivial
  | cons field fields ih =>
      refine ⟨fun other hother => ?_, fun hname => ?_, ih h.2⟩
      · rw [h.1] at hother
        split at hother
        · exact (Option.some.inj hother).symm
        · cases hother
      · rw [h.1, if_pos hname]

/-! ## Members -/

/-- A member whose name was not read yet is taken as the value of its field. -/
theorem exists_takes_readMember {fields : List Field} (hnames : (fields.map Field.name).Nodup)
    {values : Values fields} {read : List String} {draft : Draft fields}
    (hdraft : Gathered read fields values draft) {name : String} {written : Value}
    (hmem : (name, written) ∈ members fields values) (hfresh : name ∉ read) (hrest : Closes rest)
    (htaken : (Reader.value (maxDepth - 1)).Takes written.compactChars rest written) :
    ∃ next, (readMember fields draft name).Takes (':' :: written.compactChars) rest next ∧
      Gathered (name :: read) fields values next := by
  induction fields with
  | nil => cases hmem
  | cons field fields ih =>
      rw [List.map_cons, List.nodup_cons] at hnames
      obtain ⟨value, values⟩ := values
      obtain ⟨found, draft⟩ := draft
      obtain ⟨rfl, hgathered⟩ := hdraft
      rw [mem_members_cons hnames.1] at hmem
      by_cases hname : name = field.name
      · rw [if_pos hname] at hmem
        subst hname
        -- The names of fields differ, so the fields that follow see nothing new.
        have hothers : ∀ other ∈ fields, other.name ∈ read ↔ other.name ∈ field.name :: read := by
          intro other hother
          have hne : other.name ≠ field.name := fun hsame =>
            hnames.1 (hsame ▸ List.mem_map_of_mem (f := Field.name) hother)
          simp [hne]
        refine ⟨(some value, draft), ?_, ?_, hgathered.congr hothers⟩
        · rw [readMember, if_pos rfl, if_neg (by simp [hfresh])]
          exact Takes.bind (s := [':']) Json.takes_colon
            ((Shape.takes_read hmem hrest htaken).andThen (takes_pure _))
        · rw [if_pos List.mem_cons_self]
      · rw [if_neg hname] at hmem
        obtain ⟨next, htakes, hnext⟩ := ih hnames.2 hgathered hmem
        refine ⟨(if field.name ∈ read then some value else none, next), ?_, ?_, hnext⟩
        · rw [readMember, if_neg hname]
          exact htakes.andThen (takes_pure _)
        · simp [Ne.symm hname]

/-- A round of the loop that reads the members of an object. -/
def fieldRound (fields : List Field) : Bool × Draft fields → Reader ((Bool × Draft fields) ⊕ Draft fields)
  | (first, draft) => do
      match ← key? first with
      | none => do
          skip
          pure (.inr draft)
      | some name => do
          let draft ← readMember fields draft name
          pure (.inl (false, draft))

/-- An object is read in rounds, and completed by defaults. -/
theorem readObject_eq (fields : List Field) :
    readObject fields = (do
      let draft ← loop (fieldRound fields) (true, blank fields)
      Shape.orStop (complete fields draft)) :=
  rfl

/-- A member is taken in a round, with a comma in front if it is not the first one. -/
theorem takes_fieldRound {fields : List Field} {draft next : Draft fields} {name : String}
    {taken : List Char} (h : (readMember fields draft name).Takes taken rest next) (first : Bool) :
    (fieldRound fields (first, draft)).Takes ((if first then [] else [',']) ++ stringText name ++ taken)
      rest (.inl (false, next)) := by
  have htail : (do
      let draft ← readMember fields draft name
      pure (.inl (false, draft)) : Reader ((Bool × Draft fields) ⊕ Draft fields)).Takes taken rest
        (.inl (false, next)) :=
    h.andThen (takes_pure _)
  cases first with
  | true => exact (Json.takes_key?_first name).bind htail
  | false => exact (Json.takes_key?_comma name).bind htail

/-- Members that are written for the fields are taken by the rounds of the loop, one after the other. -/
theorem exists_rounds {fields : List Field} (hnames : (fields.map Field.name).Nodup)
    {values : Values fields} {listed : List (String × Value)}
    (htaken : Taken (maxDepth - 1) rest listed listed)
    (hlisted : ∀ member ∈ listed, member ∈ members fields values)
    (hdistinct : (listed.map Prod.fst).Nodup) {read : List String}
    (hfresh : ∀ member ∈ listed, member.1 ∉ read) {draft : Draft fields}
    (hdraft : Gathered read fields values draft) (first : Bool) :
    ∃ last, Rounds (fieldRound fields) rest (first, draft)
        ((if first then compactMembers listed else moreMembers listed) ++ ['}']) last ∧
      Gathered (listed.map Prod.fst ++ read) fields values last := by
  induction listed generalizing read draft first with
  | nil =>
      refine ⟨draft, rounds_members_nil ?_, hdraft⟩
      exact (Json.takes_key?_brace first).look
        ((takes_skip '}').andThen (takes_pure (Sum.inr draft)))
  | cons member listed ih =>
      obtain ⟨name, written⟩ := member
      cases htaken with
      | cons _ htakes htaken =>
          rw [List.map_cons, List.nodup_cons] at hdistinct
          obtain ⟨next, hmember, hnext⟩ := exists_takes_readMember hnames hdraft
            (hlisted _ List.mem_cons_self) (hfresh _ List.mem_cons_self)
            (closes_moreMembers listed rest) htakes
          have hunread : ∀ member ∈ listed, member.1 ∉ name :: read := by
            intro member hmem hread
            rw [List.mem_cons] at hread
            obtain hname | hread := hread
            · have hlater : member.1 ∈ listed.map Prod.fst := List.mem_map_of_mem hmem
              exact hdistinct.1 (hname ▸ hlater)
            · exact hfresh member (List.mem_cons_of_mem _ hmem) hread
          obtain ⟨last, hrounds, hlast⟩ := ih htaken
            (fun member hmem => hlisted member (List.mem_cons_of_mem _ hmem)) hdistinct.2 hunread hnext
            false
          refine ⟨last, ?_, hlast.congr fun field _ => ?_⟩
          · exact rounds_members_cons (takes_fieldRound hmember first) hrounds
          · simp only [List.map_cons, List.mem_append, List.mem_cons]
            rw [or_left_comm, or_assoc]

/-- The members that are written for the fields are taken as their values. -/
theorem takes_readObject {fields : List Field} (hnames : (fields.map Field.name).Nodup)
    (hlawful : ∀ field ∈ fields, field.Lawful) {values : Values fields}
    (htaken : Taken (maxDepth - 1) rest (members fields values) (members fields values)) :
    (readObject fields).Takes (compactMembers (members fields values) ++ ['}']) rest values := by
  obtain ⟨last, hrounds, hlast⟩ := exists_rounds hnames htaken (fun _ => id)
    (nodup_members hnames values) (fun _ _ => List.not_mem_nil) (gathered_blank fields values) true
  have hcomplete : complete fields last = .ok values := by
    refine complete_of_drafted hlawful (holds_members hnames values) (fun name hlook => ?_) hlast.drafted
    obtain ⟨written, hwritten⟩ := Option.ne_none_iff_exists'.1 hlook
    rw [SortedMap.find?_ofList (nodup_members hnames values)] at hwritten
    exact List.mem_append_left _ (List.mem_map_of_mem (f := Prod.fst) hwritten)
  rw [readObject_eq]
  refine hrounds.takes_loop.andThen ?_
  rw [hcomplete]
  exact takes_pure values

end Field

/-! ## Whole entities -/

namespace Entity

variable [Entity α] [LawfulEntity α]

/-- An entity is read back from its text if that text denotes the record of the entity. -/
theorem parse_of_parse {entity : α}
    (h : Value.parse (toValue entity).compact = .ok (Record.ofEntity entity).toValue) :
    parse (toValue entity).compact = .ok entity := by
  have htaken := Json.Value.taken_of_parse
    (Field.nodup_members LawfulEntity.nodup_names (values entity)) h
  refine Takes.readAll (Shape.takes_readExpecting (by decide) (by decide) ?_)
  refine Takes.bind (s := ['{']) (takes_skip '{') ?_
  have hvalues := (Field.takes_readObject LawfulEntity.nodup_names LawfulEntity.lawful htaken).map
    (ofValues (α := α))
  rw [ofValues_values] at hvalues
  exact hvalues

end Entity

end AccountPool
