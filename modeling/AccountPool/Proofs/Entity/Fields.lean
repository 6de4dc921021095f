import AccountPool.Entity.Layout

/-!
# Members that hold the values of fields

When members hold the values of a list of fields, whatever else they contain and in whatever order,
reading the fields gives these values: `Field.ofMembers_of_holds`. The members that are written for the
fields hold their values: `Field.holds_members`. Empty metadata may be left out or be present; this is
the only freedom.
-/

namespace AccountPool

open Json (Value Members Mismatch)

/-! ## One value -/

/-- A signed 64-bit integer is read back from the number that it is written as. -/
theorem Json.WideInteger.toInt64?_ofInt64 (n : Int64) :
    (Json.WideInteger.ofInt64 n).toInt64? = some n := by
  have hlt : (Json.WideInteger.ofInt64 n).val < 0x8000000000000000 := n.toInt_lt
  rw [toInt64?, if_pos hlt]
  exact congrArg some (Int64.ofInt_toInt n)

namespace Shape

/-- An attribute holds a value: it is what is written for the value, except that empty metadata may be
present although it is not written. -/
def Holds : (shape : Shape) → Option Value → shape.Carrier → Prop
  | metadata, held, members => held = some (.ofMembers members) ∨ held = none ∧ members = {}
  | shape, held, value => held = shape.encode value

/-- What is written for a value holds it. -/
theorem holds_encode (shape : Shape) (value : shape.Carrier) :
    shape.Holds (shape.encode value) value := by
  cases shape with
  | metadata =>
      simp only [Holds, encode]
      split
      · next hempty => exact .inr ⟨rfl, SortedMap.eq_empty_of_isEmpty hempty⟩
      · exact .inl rfl
  | text | optionalText | accountStatus | leaseStatus | timestamp => rfl

/-- The status with a given name is read back from the name. -/
theorem decodeStatus_name {α : Type} [Status α] (status : α) :
    decodeStatus (.string (Status.name status)) = .ok status := by
  simp [decodeStatus, statusNamed, Status.parse?_name]

/-- An attribute that is present and holds a value is read as that value. -/
theorem decode_of_holds {shape : Shape} {held : Value} {value : shape.Carrier}
    (h : shape.Holds (some held) value) : shape.decode held = .ok value := by
  cases shape with
  | text =>
      cases h
      rfl
  | optionalText =>
      -- A missing text is left out, so an attribute that is present holds a text.
      cases value with
      | none => cases h
      | some text =>
          cases h
          rfl
  | accountStatus =>
      cases h
      exact decodeStatus_name (α := AccountStatus) value
  | leaseStatus =>
      cases h
      exact decodeStatus_name (α := LeaseStatus) value
  | timestamp =>
      cases h
      simp [decode, decodeTimestamp, Value.int64, timestampOf, Json.WideInteger.toInt64?_ofInt64]
  | metadata =>
      obtain hheld | ⟨hheld, -⟩ := h
      · cases hheld
        exact congrArg Except.ok (SortedMap.ofList_entries value)
      · cases hheld

end Shape

namespace Field

/-! ## Reading -/

/-- A field whose attribute may be absent has the value that is then meant as its default. -/
def Lawful (field : Field) : Prop :=
  ∀ value, field.shape.Holds none value → field.default? = some value

/-- The attributes that `look` finds hold the values of the fields. -/
def Holds (look : String → Option Value) : (fields : List Field) → Values fields → Prop
  | [], () => True
  | field :: fields, (value, values) =>
      field.shape.Holds (look field.name) value ∧ Holds look fields values

/-- A draft has nothing but the given values, and has those of the fields with a name that was seen. -/
def Drafted (seen : String → Prop) : (fields : List Field) → Values fields → Draft fields → Prop
  | [], (), () => True
  | field :: fields, (value, values), (found, draft) =>
      (∀ other, found = some other → other = value) ∧ (seen field.name → found = some value) ∧
        Drafted seen fields values draft

/-- Before any name was seen the draft is blank. -/
theorem drafted_blank {seen : String → Prop} {fields : List Field} (values : Values fields)
    (hseen : ∀ field ∈ fields, ¬ seen field.name) : Drafted seen fields values (blank fields) := by
  induction fields with
  | nil => trivial
  | cons field fields ih =>
      obtain ⟨value, values⟩ := values
      refine ⟨fun other hother => ?_, fun hname => ?_, ?_⟩
      · cases hother
      · exact absurd hname (hseen field List.mem_cons_self)
      · exact ih values fun rest hmem => hseen rest (List.mem_cons_of_mem _ hmem)

/-- A name that belongs to no field adds nothing to a draft. -/
theorem Drafted.of_unnamed {seen : String → Prop} {fields : List Field} {values : Values fields}
    {draft : Draft fields} {name : String} (hname : ∀ field ∈ fields, field.name ≠ name)
    (h : Drafted seen fields values draft) :
    Drafted (fun other => other = name ∨ seen other) fields values draft := by
  induction fields with
  | nil => trivial
  | cons field fields ih =>
      refine ⟨h.1, ?_, ih (fun rest hmem => hname rest (List.mem_cons_of_mem _ hmem)) h.2.2⟩
      rintro (hsame | hseen)
      · exact absurd hsame (hname field List.mem_cons_self)
      · exact h.2.1 hseen

/-- Taking over a member that holds the value of its field. -/
theorem assign_of_holds {fields : List Field} (hnames : (fields.map Field.name).Nodup)
    {look : String → Option Value} {values : Values fields} (hholds : Holds look fields values)
    {seen : String → Prop} {draft : Draft fields} (hdraft : Drafted seen fields values draft)
    {name : String} {held : Value} (hlook : look name = some held) :
    ∃ next, assign fields draft name held = .ok next ∧
      Drafted (fun other => other = name ∨ seen other) fields values next := by
  induction fields with
  | nil => exact ⟨(), rfl, trivial⟩
  | cons field fields ih =>
      rw [List.map_cons, List.nodup_cons] at hnames
      obtain ⟨value, values⟩ := values
      obtain ⟨found, draft⟩ := draft
      obtain ⟨hvalue, hvalues⟩ := hholds
      obtain ⟨hfound, hseen, hrest⟩ := hdraft
      by_cases hname : name = field.name
      · -- The names of fields differ, so the fields that follow see nothing new.
        have hunnamed : ∀ rest ∈ fields, rest.name ≠ name := by
          rintro rest hmem rfl
          exact hnames.1 (hname ▸ List.mem_map_of_mem hmem)
        rw [← hname, hlook] at hvalue
        refine ⟨(some value, draft), ?_, ?_, ?_, hrest.of_unnamed hunnamed⟩
        · simp only [assign, if_pos hname, Shape.decode_of_holds hvalue]
          rfl
        · rintro other hother
          exact (Option.some.inj hother).symm
        · exact fun _ => rfl
      · obtain ⟨next, hassign, hnext⟩ := ih hnames.2 hvalues hrest
        refine ⟨(found, next), ?_, hfound, ?_, hnext⟩
        · simp only [assign, if_neg hname, hassign]
          rfl
        · rintro (hsame | hbefore)
          · exact absurd hsame.symm hname
          · exact hseen hbefore

/-- Taking over members one after the other, all of which hold the values of their fields. -/
theorem foldlM_assign_of_holds {fields : List Field} (hnames : (fields.map Field.name).Nodup)
    {look : String → Option Value} {values : Values fields} (hholds : Holds look fields values)
    {members : List (String × Value)} (hmembers : ∀ entry ∈ members, look entry.1 = some entry.2)
    {seen : String → Prop} {draft : Draft fields} (hdraft : Drafted seen fields values draft) :
    ∃ next, members.foldlM (fun draft (name, held) => assign fields draft name held) draft = .ok next ∧
      Drafted (fun name => name ∈ members.map Prod.fst ∨ seen name) fields values next := by
  -- Every member adds its name to those that were seen before.
  induction members generalizing seen draft with
  | nil => exact ⟨draft, rfl, by simpa using hdraft⟩
  | cons entry members ih =>
      obtain ⟨name, held⟩ := entry
      obtain ⟨next, hassign, hnext⟩ :=
        assign_of_holds hnames hholds hdraft (hmembers _ List.mem_cons_self)
      obtain ⟨last, hfold, hlast⟩ :=
        ih (fun other hmem => hmembers other (List.mem_cons_of_mem _ hmem)) hnext
      refine ⟨last, ?_, ?_⟩
      · simp only [List.foldlM_cons, hassign]
        exact hfold
      · simpa only [List.map_cons, List.mem_cons, or_assoc, or_left_comm] using hlast

/-- A draft with the values of all attributes that are present is completed by defaults. -/
theorem complete_of_drafted {fields : List Field} (hlawful : ∀ field ∈ fields, field.Lawful)
    {look : String → Option Value} {values : Values fields} (hholds : Holds look fields values)
    {seen : String → Prop} (hseen : ∀ name, look name ≠ none → seen name) {draft : Draft fields}
    (hdraft : Drafted seen fields values draft) : complete fields draft = .ok values := by
  induction fields with
  | nil => rfl
  | cons field fields ih =>
      obtain ⟨value, values⟩ := values
      obtain ⟨found, draft⟩ := draft
      obtain ⟨hvalue, hvalues⟩ := hholds
      obtain ⟨hfound, hpresent, hrest⟩ := hdraft
      have hcomplete := ih (fun rest hmem => hlawful rest (List.mem_cons_of_mem _ hmem)) hvalues hrest
      cases found with
      | some other =>
          rw [hfound other rfl]
          simp only [complete, hcomplete]
          rfl
      | none =>
          -- No value was taken over, so the attribute is absent and its default stands for it.
          have habsent : look field.name = none := by
            cases hlook : look field.name with
            | none => rfl
            | some held => cases hpresent (hseen field.name (by simp [hlook]))
          have hdefault := hlawful field List.mem_cons_self value (habsent ▸ hvalue)
          simp only [complete, orDefault, hdefault, hcomplete]
          rfl

/-- Members that hold the values of fields are read as these values. -/
theorem ofMembers_of_holds {fields : List Field} (hnames : (fields.map Field.name).Nodup)
    (hlawful : ∀ field ∈ fields, field.Lawful) {members : Members} {values : Values fields}
    (hholds : Holds members.find? fields values) :
    ofMembers fields members.entries = .ok values := by
  have hblank : Drafted (fun _ => False) fields values (blank fields) :=
    drafted_blank values fun _ _ => id
  obtain ⟨draft, hfold, hdraft⟩ := foldlM_assign_of_holds hnames hholds
    (fun entry hmem => SortedMap.mem_entries_iff.1 hmem) hblank
  unfold ofMembers
  rw [hfold]
  refine complete_of_drafted hlawful hholds (fun name hlook => .inl ?_) hdraft
  obtain ⟨held, hheld⟩ := Option.ne_none_iff_exists'.1 hlook
  exact List.mem_map_of_mem (f := Prod.fst) (SortedMap.mem_entries_iff.2 hheld)

/-! ## Writing -/

/-- Only names of fields are written. -/
theorem mem_names_of_mem_members {fields : List Field} {values : Values fields} {name : String}
    (hmem : name ∈ (members fields values).map Prod.fst) : name ∈ fields.map Field.name := by
  induction fields with
  | nil => cases hmem
  | cons field fields ih =>
      obtain ⟨value, values⟩ := values
      rw [members] at hmem
      split at hmem
      · rw [List.map_cons, List.mem_cons] at hmem ⊢
        exact hmem.imp_right ih
      · exact List.mem_cons_of_mem _ (ih hmem)

/-- No name is written twice. -/
theorem nodup_members {fields : List Field} (hnames : (fields.map Field.name).Nodup)
    (values : Values fields) : ((members fields values).map Prod.fst).Nodup := by
  induction fields with
  | nil => exact List.nodup_nil
  | cons field fields ih =>
      obtain ⟨value, values⟩ := values
      rw [List.map_cons, List.nodup_cons] at hnames
      rw [members]
      split
      · refine List.nodup_cons.2 ⟨fun hmem => ?_, ih hnames.2 values⟩
        exact hnames.1 (mem_names_of_mem_members hmem)
      · exact ih hnames.2 values

/-- Looking up what is written finds the value of each field that is written. -/
theorem mem_members_cons {field : Field} {fields : List Field}
    (hname : field.name ∉ fields.map Field.name) (value : field.shape.Carrier)
    (values : Values fields) {name : String} {held : Value} :
    (name, held) ∈ members (field :: fields) (value, values) ↔
      if name = field.name then field.shape.encode value = some held
      else (name, held) ∈ members fields values := by
  have hunwritten : (field.name, held) ∉ members fields values := fun hmem =>
    hname (mem_names_of_mem_members (List.mem_map_of_mem (f := Prod.fst) hmem))
  rw [members]
  by_cases hsame : name = field.name
  · subst hsame
    rw [if_pos rfl]
    split
    · next written hwritten => simp [hwritten, hunwritten, eq_comm]
    · next hwritten => simp [hwritten, hunwritten]
  · rw [if_neg hsame]
    split
    · simp [hsame]
    · rfl

/-- The attributes that `look` finds are those that are written for the values of the fields. -/
def Written (look : String → Option Value) : (fields : List Field) → Values fields → Prop
  | [], () => True
  | field :: fields, (value, values) =>
      look field.name = field.shape.encode value ∧ Written look fields values

/-- What is found under the names of the fields is what is listed for their values. -/
theorem written_iff {fields : List Field} (hnames : (fields.map Field.name).Nodup)
    {look : String → Option Value} {values : Values fields} :
    Written look fields values ↔ ∀ name ∈ fields.map Field.name, ∀ held,
      look name = some held ↔ (name, held) ∈ members fields values := by
  induction fields with
  | nil => simp [Written]
  | cons field fields ih =>
      obtain ⟨value, values⟩ := values
      rw [List.map_cons, List.nodup_cons] at hnames
      have hfirst : look field.name = field.shape.encode value ↔
          ∀ held, look field.name = some held ↔
            (field.name, held) ∈ members (field :: fields) (value, values) := by
        rw [Option.ext_iff]
        refine forall_congr' fun held => ?_
        rw [mem_members_cons hnames.1, if_pos rfl]
      have hrest : (∀ name ∈ fields.map Field.name, ∀ held,
          look name = some held ↔ (name, held) ∈ members fields values) ↔
            ∀ name ∈ fields.map Field.name, ∀ held,
              look name = some held ↔ (name, held) ∈ members (field :: fields) (value, values) := by
        refine forall₂_congr fun name hmem => forall_congr' fun held => ?_
        have hne : name ≠ field.name := fun hsame => hnames.1 (hsame ▸ hmem)
        rw [mem_members_cons hnames.1, if_neg hne]
      rw [Written, ih hnames.2, hfirst, hrest, List.map_cons, List.forall_mem_cons]

/-- Attributes that are those written for the values of fields hold them. -/
theorem Written.holds {fields : List Field} {look : String → Option Value} {values : Values fields}
    (h : Written look fields values) : Holds look fields values := by
  induction fields with
  | nil => trivial
  | cons field fields ih =>
      refine ⟨?_, ih h.2⟩
      rw [h.1]
      exact field.shape.holds_encode values.1

/-- What is written for the values of fields holds them. -/
theorem holds_members {fields : List Field} (hnames : (fields.map Field.name).Nodup)
    (values : Values fields) :
    Holds (SortedMap.ofList (members fields values)).find? fields values :=
  Written.holds ((written_iff hnames).2 fun _ _ _ => SortedMap.find?_ofList (nodup_members hnames values))

end Field

end AccountPool
