import AccountPool.Proofs.Entity.Carried

/-!
# The format of entities

Which values an entity is read from. `Field.values?` says in one line per field what an object or an
array stands for: what is found under the name of the field is read, and a default stands for what is
not found. Both ways to read an entity agree with it, `Field.toOption_ofMembers` for objects and
`Field.toOption_ofItems` for arrays. The main statement is `decode_format`, in which the two formats are
written out attribute by attribute.
-/

namespace AccountPool

open Json (Value Members Mismatch)

/-! ## Results without their reasons -/

@[simp] theorem toOption_ok {ε α : Type} (value : α) :
    (.ok value : Except ε α).toOption = some value :=
  rfl

@[simp] theorem toOption_error {ε α : Type} (reason : ε) :
    (.error reason : Except ε α).toOption = none :=
  rfl

@[simp] theorem toOption_bind {ε α β : Type} (first : Except ε α) (next : α → Except ε β) :
    (first >>= next).toOption = first.toOption.bind fun value => (next value).toOption := by
  cases first <;> rfl

@[simp] theorem toOption_map {ε α β : Type} (change : α → β) (result : Except ε α) :
    (result.map change).toOption = result.toOption.map change := by
  cases result <;> rfl

theorem toOption_eq_some {ε α : Type} {result : Except ε α} {value : α} :
    result.toOption = some value ↔ result = .ok value := by
  cases result <;> simp

/-! ## Look-ups in lists of members -/

namespace SortedMap

variable {κ : Type u} {ν : Type v} [Ord κ] [Std.LawfulEqOrd κ]

/-- The first entry is found under its key, and the rest under all others. -/
theorem lookup_cons [DecidableEq κ] (key other : κ) (value : ν) (entries : List (κ × ν)) :
    lookup key ((other, value) :: entries) =
      if key = other then some value else lookup key entries := by
  by_cases hsame : key = other
  · subst hsame
    simp [lookup]
  · have hne : compare key other ≠ .eq := fun heq => hsame (Std.LawfulEqOrd.eq_of_compare heq)
    rw [if_neg hsame, lookup]
    split
    · next heq => exact absurd heq hne
    · rfl

/-- Entries that are left out are not found, and the others are found as before. -/
theorem lookup_filter (keep : κ → Bool) {entries : List (κ × ν)}
    (hsorted : entries.Pairwise fun earlier later => compare earlier.1 later.1 = .lt) (key : κ) :
    lookup key (entries.filter fun entry => keep entry.1) =
      if keep key then lookup key entries else none := by
  refine Option.ext fun value => ?_
  rw [← mem_iff_lookup (hsorted.filter _), List.mem_filter]
  by_cases hkeep : keep key = true
  · simp [hkeep, mem_iff_lookup hsorted]
  · simp [hkeep]

/-- Maps that agree on the keys to keep have the same entries under them. -/
theorem filter_entries_congr [Std.TransOrd κ] {map map' : SortedMap κ ν} {keep : κ → Bool}
    (hagree : ∀ key, keep key = true → map.find? key = map'.find? key) :
    (map.entries.filter fun entry => keep entry.1) =
      map'.entries.filter fun entry => keep entry.1 := by
  refine entries_eq_of_lookup (map.sorted.filter _) (map'.sorted.filter _) fun key => ?_
  rw [lookup_filter keep map.sorted, lookup_filter keep map'.sorted]
  split
  · next hkeep => exact hagree key hkeep
  · rfl

end SortedMap

/-! ## What fields are read as -/

namespace Field

/-- The value of a field: what `look` finds under its name is read; if it finds nothing, the value found
earlier stands, and without one the default. -/
def value? (look : String → Option Value) (field : Field) (found : Option field.shape.Carrier) :
    Option field.shape.Carrier :=
  match look field.name with
  | some held => (field.shape.decode held).toOption
  | none => found.or field.default?

/-- The values of a list of fields, of which those of a draft were found earlier. -/
def values? (look : String → Option Value) : (fields : List Field) → Draft fields →
    Option (Values fields)
  | [], () => some ()
  | field :: fields, (found, draft) =>
      (field.value? look found).bind fun value =>
        (values? look fields draft).map fun values => (value, values)

/-- Only what is found under the name of a field matters. -/
theorem value?_congr {look look' : String → Option Value} {field : Field}
    (h : look field.name = look' field.name) (found : Option field.shape.Carrier) :
    field.value? look found = field.value? look' found := by
  rw [value?, value?, h]

/-- Only what is found under the names of the fields matters. -/
theorem values?_congr {look look' : String → Option Value} {fields : List Field}
    (h : ∀ field ∈ fields, look field.name = look' field.name) (draft : Draft fields) :
    values? look fields draft = values? look' fields draft := by
  induction fields with
  | nil => rfl
  | cons field fields ih =>
      obtain ⟨found, draft⟩ := draft
      rw [values?, values?, value?_congr (h field List.mem_cons_self),
        ih (fun rest hmem => h rest (List.mem_cons_of_mem _ hmem))]

/-- The fields have values exactly if each of them has one. -/
theorem isSome_values?_blank {look : String → Option Value} {fields : List Field} :
    (values? look fields (blank fields)).isSome ↔
      ∀ field ∈ fields, (field.value? look none).isSome := by
  induction fields with
  | nil => simp [values?]
  | cons field fields ih =>
      rw [List.forall_mem_cons, ← ih, blank, values?]
      cases field.value? look none <;> simp

/-- Each of the values is what its field is read as. -/
def Valued (look : String → Option Value) : (fields : List Field) → Values fields → Prop
  | [], () => True
  | field :: fields, (value, values) =>
      field.value? look none = some value ∧ Valued look fields values

/-- The fields have the values that they are read as, one by one. -/
theorem values?_blank_eq_some {look : String → Option Value} {fields : List Field}
    {values : Values fields} :
    values? look fields (blank fields) = some values ↔ Valued look fields values := by
  induction fields with
  | nil => exact iff_of_true rfl trivial
  | cons field fields ih =>
      obtain ⟨value, values⟩ := values
      rw [blank, values?, Valued, ← ih, Option.bind_eq_some_iff]
      constructor
      · rintro ⟨found, hfound, hrest⟩
        obtain ⟨others, hothers, hpair⟩ := Option.map_eq_some_iff.1 hrest
        cases hpair
        exact ⟨hfound, hothers⟩
      · rintro ⟨hvalue, hvalues⟩
        exact ⟨value, hvalue, Option.map_eq_some_iff.2 ⟨values, hvalues, rfl⟩⟩

/-- A value that is followed by those of the other fields. -/
theorem toOption_cons {β γ : Type} (value : γ) (result : Except Mismatch β) :
    (result >>= fun values => pure (value, values)).toOption =
      result.toOption.map fun values => (value, values) := by
  cases result <;> rfl

/-! ## Objects -/

/-- A draft is completed by defaults. -/
theorem toOption_complete (fields : List Field) (draft : Draft fields) :
    (complete fields draft).toOption = values? (fun _ => none) fields draft := by
  induction fields with
  | nil => rfl
  | cons field fields ih =>
      obtain ⟨found, draft⟩ := draft
      cases found with
      | some value =>
          rw [values?, ← ih draft]
          exact toOption_cons value _
      | none =>
          rw [values?, value?, Option.none_or, ← ih draft]
          cases hdefault : field.default? with
          | none =>
              simp only [complete, orDefault, hdefault]
              rfl
          | some value =>
              simp only [complete, orDefault, hdefault]
              exact toOption_cons value _

/-- A name that belongs to no field is ignored. -/
theorem assign_of_unnamed {fields : List Field} {name : String}
    (hname : ∀ field ∈ fields, field.name ≠ name) (draft : Draft fields) (held : Value) :
    assign fields draft name held = .ok draft := by
  induction fields with
  | nil => rfl
  | cons field fields ih =>
      rw [assign, if_neg (hname field List.mem_cons_self).symm,
        ih fun rest hmem => hname rest (List.mem_cons_of_mem _ hmem)]
      rfl

/-- Taking over a member comes to finding it later, if nothing else is found under its name. -/
theorem values?_assign {fields : List Field} (hnames : (fields.map Field.name).Nodup)
    {look : String → Option Value} {name : String} (hlook : look name = none) (held : Value)
    (draft : Draft fields) :
    (assign fields draft name held).toOption.bind (values? look fields) =
      values? (fun other => if other = name then some held else look other) fields draft := by
  induction fields with
  | nil => rfl
  | cons field fields ih =>
      rw [List.map_cons, List.nodup_cons] at hnames
      obtain ⟨found, draft⟩ := draft
      by_cases hname : name = field.name
      · -- The names of fields differ, so the fields that follow see no change.
        subst hname
        have hrest : ∀ rest ∈ fields,
            look rest.name = if rest.name = field.name then some held else look rest.name := by
          intro rest hmem
          have hne : rest.name ≠ field.name := fun hsame =>
            hnames.1 (hsame ▸ List.mem_map_of_mem (f := Field.name) hmem)
          rw [if_neg hne]
        rw [assign, if_pos rfl, toOption_map, values?, ← values?_congr hrest]
        simp only [value?, if_pos]
        cases (field.shape.decode held).toOption with
        | none => rfl
        | some value => simp [values?, value?, hlook]
      · have hvalue : field.value? look found =
            field.value? (fun other => if other = name then some held else look other) found :=
          value?_congr (if_neg (Ne.symm hname)).symm found
        rw [assign, if_neg hname, toOption_map, values?, ← hvalue, ← ih hnames.2 draft]
        cases (assign fields draft name held).toOption with
        | none => cases field.value? look found <;> rfl
        | some next => rfl

/-- Members with increasing keys are read as what is found in them. -/
theorem toOption_foldlM_assign {fields : List Field} (hnames : (fields.map Field.name).Nodup)
    {members : List (String × Value)}
    (hsorted : members.Pairwise fun earlier later => compare earlier.1 later.1 = .lt)
    (draft : Draft fields) :
    (members.foldlM (fun draft (name, held) => assign fields draft name held) draft >>=
        complete fields).toOption =
      values? (fun name => SortedMap.lookup name members) fields draft := by
  induction members generalizing draft with
  | nil => exact toOption_complete fields draft
  | cons entry members ih =>
      obtain ⟨name, held⟩ := entry
      obtain ⟨hfirst, hrest⟩ := List.pairwise_cons.1 hsorted
      have hlook : SortedMap.lookup name members = none := SortedMap.lookup_eq_none_of_lt hfirst
      simp only [SortedMap.lookup_cons]
      rw [← values?_assign hnames hlook held draft, List.foldlM_cons, bind_assoc, toOption_bind]
      exact congrArg _ (funext fun next => ih hrest next)

/-- An object is read as what is found under the names of the fields. -/
theorem toOption_ofMembers {fields : List Field} (hnames : (fields.map Field.name).Nodup)
    (members : Members) :
    (ofMembers fields members.entries).toOption = values? members.find? fields (blank fields) :=
  toOption_foldlM_assign hnames members.sorted (blank fields)

/-- Members that belong to no field can be left out. -/
theorem foldlM_assign_filter {fields : List Field} (keep : String → Bool)
    (hkeep : ∀ field ∈ fields, keep field.name = true) (members : List (String × Value))
    (draft : Draft fields) :
    (members.filter fun entry => keep entry.1).foldlM
        (fun draft (name, held) => assign fields draft name held) draft =
      members.foldlM (fun draft (name, held) => assign fields draft name held) draft := by
  induction members generalizing draft with
  | nil => rfl
  | cons entry members ih =>
      obtain ⟨name, held⟩ := entry
      by_cases hname : keep name = true
      · rw [List.filter_cons_of_pos (by exact hname), List.foldlM_cons, List.foldlM_cons]
        exact congrArg _ (funext ih)
      · have hunnamed : ∀ field ∈ fields, field.name ≠ name := fun field hmem hsame =>
          hname (hsame ▸ hkeep field hmem)
        rw [List.filter_cons_of_neg (by exact hname), List.foldlM_cons, ih]
        simp only [assign_of_unnamed hunnamed]
        rfl

/-- Objects that agree on the names of the fields are read alike, and refused for the same reason. -/
theorem ofMembers_congr {fields : List Field} {members members' : Members}
    (hagree : ∀ field ∈ fields, members.find? field.name = members'.find? field.name) :
    ofMembers fields members.entries = ofMembers fields members'.entries := by
  let keep (name : String) : Bool := decide (name ∈ fields.map Field.name)
  have hkeep : ∀ field ∈ fields, keep field.name = true := fun field hmem =>
    decide_eq_true (List.mem_map_of_mem hmem)
  have hsame : ∀ name, keep name = true → members.find? name = members'.find? name := by
    intro name hname
    obtain ⟨field, hmem, rfl⟩ := List.mem_map.1 (of_decide_eq_true hname)
    exact hagree field hmem
  rw [ofMembers, ofMembers, ← foldlM_assign_filter keep hkeep members.entries,
    ← foldlM_assign_filter keep hkeep members'.entries, SortedMap.filter_entries_congr hsame]

/-! ## Arrays -/

/-- An array is read as an object in which each field is found that has an item. -/
theorem toOption_ofItems {look : String → Option Value} (expected : String) (size : Nat)
    {fields : List Field} {items : List Value} (hlength : items.length ≤ fields.length)
    (hlook : ∀ (position : Nat) (field : Field), fields[position]? = some field →
      look field.name = items[position]?) (index : Nat) :
    (ofItems expected size fields index items).toOption = values? look fields (blank fields) := by
  induction fields generalizing items index with
  | nil =>
      obtain rfl : items = [] := List.eq_nil_of_length_eq_zero (Nat.le_zero.1 hlength)
      rfl
  | cons field fields ih =>
      have hfirst : look field.name = items[0]? := hlook 0 field rfl
      have hrest : ∀ (position : Nat) (rest : Field), fields[position]? = some rest →
          look rest.name = items.tail[position]? := by
        intro position rest hrest
        rw [List.getElem?_tail]
        exact hlook (position + 1) rest hrest
      cases items with
      | nil =>
          rw [blank, values?, value?, hfirst, List.getElem?_nil, Option.none_or,
            ← ih (Nat.zero_le _) hrest (index + 1)]
          cases hdefault : field.default? with
          | none =>
              simp only [ofItems, hdefault]
              rfl
          | some value =>
              simp only [ofItems, hdefault]
              exact toOption_cons value _
      | cons held items =>
          rw [ofItems, blank, values?, value?, hfirst, toOption_bind,
            ← ih (Nat.le_of_succ_le_succ hlength) hrest (index + 1)]
          exact congrArg _ (funext fun value => toOption_cons value _)

/-- An array has no more items than there are fields. -/
theorem length_le_of_ofItems {expected : String} {size : Nat} {fields : List Field} {index : Nat}
    {items : List Value} {values : Values fields}
    (h : ofItems expected size fields index items = .ok values) : items.length ≤ fields.length := by
  induction fields generalizing items index with
  | nil =>
      cases items with
      | nil => exact Nat.le_refl 0
      | cons held items => cases h
  | cons field fields ih =>
      cases items with
      | nil => exact Nat.zero_le _
      | cons held items =>
          rw [ofItems] at h
          cases hvalue : field.shape.decode held with
          | error reason =>
              rw [hvalue] at h
              cases h
          | ok value =>
              cases hvalues : ofItems expected size fields (index + 1) items with
              | error reason =>
                  rw [hvalue, hvalues] at h
                  cases h
              | ok rest => exact Nat.succ_le_succ (ih hvalues)

end Field

/-! ## Accepted attributes -/

/-- A text. -/
def IsText (found : Option Value) : Prop :=
  ∃ text, found = some (.string text)

/-- A text, null or nothing. -/
def IsOptionalText (found : Option Value) : Prop :=
  found = none ∨ found = some .null ∨ IsText found

/-- One of the names of a status, or an object that maps the name to null. -/
def IsStatus (names : List String) (found : Option Value) : Prop :=
  ∃ name ∈ names, found = some (.string name) ∨ found = some (.object [(name, .null)])

/-- A signed 64-bit integer or nothing. -/
def IsTimestamp (found : Option Value) : Prop :=
  found = none ∨ ∃ n : Json.WideInteger, found = some (.number (.integer n)) ∧
    -0x8000000000000000 ≤ n.val ∧ n.val < 0x8000000000000000

/-- An object or nothing. -/
def IsMetadata (found : Option Value) : Prop :=
  found = none ∨ ∃ members, found = some (.object members)

namespace Shape

/-- A text is read from a text only. -/
theorem isSome_decodeText {value : Value} :
    (decodeText value).toOption.isSome ↔ ∃ text, value = .string text := by
  cases value with
  | string text => simp [decodeText]
  | null | bool | number | array | object => simp [decodeText]

/-- A status is read from each of its names and from nothing else. -/
theorem isSome_statusNamed {α : Type} [Status α] {name : String} :
    (statusNamed name : Except Mismatch α).toOption.isSome ↔ name ∈ Status.names α := by
  rw [statusNamed, Status.names, List.mem_map]
  cases hparse : (Status.parse? name : Option α) with
  | none =>
      simp only [toOption_error, Option.isSome_none, Bool.false_eq_true, false_iff]
      rintro ⟨status, -, rfl⟩
      rw [Status.parse?_name] at hparse
      cases hparse
  | some status =>
      simp only [toOption_ok, Option.isSome_some, true_iff]
      exact ⟨status, Status.mem_all status, Status.name_of_parse? hparse⟩

/-- A status is read from its name, also where the name is mapped to null. -/
theorem isSome_decodeStatus {α : Type} [Status α] {value : Value} :
    (decodeStatus value : Except Mismatch α).toOption.isSome ↔
      ∃ name ∈ Status.names α, value = .string name ∨ value = .object [(name, .null)] := by
  match value with
  | .string name => simp [decodeStatus, isSome_statusNamed]
  | .object [(name, .null)] =>
      have hread : (decodeStatus (.object [(name, .null)]) : Except Mismatch α) = statusNamed name :=
        bind_pure _
      simp [hread, isSome_statusNamed]
  | .object [(name, .bool _)] | .object [(name, .number _)] | .object [(name, .string _)]
  | .object [(name, .array _)] | .object [(name, .object _)] =>
      -- Whether or not the name is one, an error comes out.
      cases hnamed : (statusNamed name : Except Mismatch α) with
      | error mismatch => simp [decodeStatus, hnamed]
      | ok status => simp [decodeStatus, hnamed]; rfl
  | .object [] | .object (_ :: _ :: _) => simp [decodeStatus]
  | .null | .bool _ | .number _ | .array _ => simp [decodeStatus]

/-- A timestamp is read from an integer in the range of signed 64-bit integers. -/
theorem isSome_decodeTimestamp {value : Value} :
    (decodeTimestamp value).toOption.isSome ↔
      ∃ n : Json.WideInteger, value = .number (.integer n) ∧
        -0x8000000000000000 ≤ n.val ∧ n.val < 0x8000000000000000 := by
  match value with
  | .number (.integer n) =>
      have hlower : -0x8000000000000000 ≤ n.val := n.lower
      simp only [decodeTimestamp, timestampOf, Json.WideInteger.toInt64?]
      by_cases hupper : n.val < 0x8000000000000000
      · simpa [hupper] using hlower
      · simp [hupper]
  | .number (.binary f) => simp [decodeTimestamp, timestampOf]
  | .null | .bool _ | .string _ | .array _ | .object _ => simp [decodeTimestamp]

end Shape

namespace Field

variable {look : String → Option Value} {name : String}

/-- A text must be there. -/
theorem isSome_text :
    ((⟨name, .text, none⟩ : Field).value? look none).isSome ↔ IsText (look name) := by
  rw [value?]
  cases look name with
  | none => simp [IsText]
  | some held => simp [IsText, Shape.decode, Shape.isSome_decodeText]

/-- An optional text may be null or missing. -/
theorem isSome_optionalText :
    ((⟨name, .optionalText, some none⟩ : Field).value? look none).isSome ↔
      IsOptionalText (look name) := by
  rw [value?]
  cases look name with
  | none => simp [IsOptionalText]
  | some held =>
      cases held <;>
        simp [IsOptionalText, IsText, Shape.decode, Shape.decodeText, Functor.map]

/-- The status of an account must be there. -/
theorem isSome_accountStatus :
    ((⟨name, .accountStatus, none⟩ : Field).value? look none).isSome ↔
      IsStatus (Status.names AccountStatus) (look name) := by
  rw [value?]
  cases look name with
  | none => simp [IsStatus]
  | some held => simp [IsStatus, Shape.decode, Shape.isSome_decodeStatus]

/-- The status of a lease must be there. -/
theorem isSome_leaseStatus :
    ((⟨name, .leaseStatus, none⟩ : Field).value? look none).isSome ↔
      IsStatus (Status.names LeaseStatus) (look name) := by
  rw [value?]
  cases look name with
  | none => simp [IsStatus]
  | some held => simp [IsStatus, Shape.decode, Shape.isSome_decodeStatus]

/-- A timestamp may be missing but not null. -/
theorem isSome_timestamp :
    ((⟨name, .timestamp, some 0⟩ : Field).value? look none).isSome ↔ IsTimestamp (look name) := by
  rw [value?]
  cases look name with
  | none => simp [IsTimestamp]
  | some held => simp [IsTimestamp, Shape.decode, Shape.isSome_decodeTimestamp]

/-- Metadata may be missing but not null. -/
theorem isSome_metadata :
    ((⟨name, .metadata, some {}⟩ : Field).value? look none).isSome ↔ IsMetadata (look name) := by
  rw [value?]
  cases look name with
  | none => simp [IsMetadata]
  | some held =>
      cases held <;> simp [IsMetadata, Shape.decode, Shape.decodeMetadata]

end Field

/-! ## The two formats -/

/-- What must be found under the names of the attributes of an account. -/
structure Account.Accepted (look : String → Option Value) : Prop where
  id : IsText (look "Id")
  status : IsStatus ["NotReady", "Ready", "Leased"] (look "AccountStatus")
  roleArn : IsOptionalText (look "PrincipalRoleArn")
  policyHash : IsOptionalText (look "PrincipalPolicyHash")
  lastModifiedOn : IsTimestamp (look "LastModifiedOn")
  metadata : IsMetadata (look "Metadata")

/-- What must be found under the names of the attributes of a lease. -/
structure Lease.Accepted (look : String → Option Value) : Prop where
  accountId : IsText (look "AccountId")
  principalId : IsText (look "PrincipalId")
  status : IsStatus ["Active", "ResetLock", "FinanceLock", "Decommissioned"] (look "LeaseStatus")
  createdOn : IsTimestamp (look "CreatedOn")
  lastModifiedOn : IsTimestamp (look "LastModifiedOn")
  statusModifiedOn : IsTimestamp (look "LeaseStatusModifiedOn")

/-- An entity with the given attribute names is read from the objects whose attributes are accepted,
whatever else they contain, and from the arrays of values for the first of the attributes. -/
structure Format (α : Type) [Entity α] (names : List String)
    (Accepted : (String → Option Value) → Prop) : Prop where
  /-- An object is read exactly if its attributes are accepted. -/
  object (members : Members) :
    (∃ entity : α, Entity.decode (.ofMembers members) = .ok entity) ↔ Accepted members.find?
  /-- Objects with the same attributes are read alike, and refused for the same reason. -/
  ignored (members members' : Members)
      (hagree : ∀ name ∈ names, members.find? name = members'.find? name) :
    (Entity.decode (.ofMembers members) : Except Mismatch α) = Entity.decode (.ofMembers members')
  /-- An array is read as the object that pairs the first names with its items. -/
  array (items : List Value) (hlength : items.length ≤ names.length) (entity : α) :
    Entity.decode (.array items) = .ok entity ↔
      Entity.decode (.ofMembers (.ofList (names.zip items))) = .ok entity
  /-- An array with more items than there are names is refused. -/
  long (items : List Value) (hlength : names.length < items.length) (entity : α) :
    Entity.decode (.array items) ≠ .ok entity
  /-- Whatever is neither an object nor an array is refused. -/
  other (value : Value) (hobject : ∀ members, value ≠ .object members)
      (harray : ∀ items, value ≠ .array items) (entity : α) :
    Entity.decode value ≠ .ok entity

/-- Names that are paired with values are still distinct. -/
theorem nodup_zip {names : List String} (hnames : names.Nodup) (items : List Value) :
    ((names.zip items).map Prod.fst).Nodup := by
  induction names generalizing items with
  | nil => exact List.nodup_nil
  | cons name names ih =>
      rw [List.nodup_cons] at hnames
      cases items with
      | nil => exact List.nodup_nil
      | cons item items =>
          refine List.nodup_cons.2 ⟨fun hmem => ?_, ih hnames.2 items⟩
          obtain ⟨entry, hentry, rfl⟩ := List.mem_map.1 hmem
          exact hnames.1 (List.of_mem_zip hentry).1

/-- A name is paired with the value at its position. -/
theorem find?_ofList_zip {names : List String} (hnames : names.Nodup) (items : List Value)
    {position : Nat} {name : String} (hname : names[position]? = some name) :
    (SortedMap.ofList (names.zip items)).find? name = items[position]? := by
  refine Option.ext fun value => ?_
  rw [SortedMap.find?_ofList (nodup_zip hnames items), List.mem_iff_getElem?]
  constructor
  · rintro ⟨index, hindex⟩
    obtain ⟨hother, hvalue⟩ := List.getElem?_zip_eq_some.1 hindex
    have hbound : index < names.length := (List.getElem?_eq_some_iff.1 hother).1
    rwa [(List.getElem?_inj hbound hnames).1 (hother.trans hname.symm)] at hvalue
  · exact fun hvalue => ⟨position, List.getElem?_zip_eq_some.2 ⟨hname, hvalue⟩⟩

namespace Entity

variable {α : Type} [Entity α] [LawfulEntity α]

/-- What an object is read as. -/
theorem toOption_decode_ofMembers (members : Members) :
    (decode (.ofMembers members) : Except Mismatch α).toOption =
      (Field.values? members.find? (fields α) (Field.blank (fields α))).map ofValues := by
  rw [← Field.toOption_ofMembers LawfulEntity.nodup_names]
  exact toOption_map ofValues _

/-- An entity that is read from a record has the values that its fields are read as. -/
theorem valued_of_toEntity {record : Record} {entity : α} (h : record.toEntity = .ok entity) :
    Field.Valued record.get? (fields α) (values entity) := by
  obtain ⟨found, hfound, rfl⟩ := Option.map_eq_some_iff.1
    ((toOption_decode_ofMembers record.attributes).symm.trans (toOption_eq_some.2 h))
  rw [values_ofValues]
  exact Field.values?_blank_eq_some.1 hfound

/-- What an array is read as, if it is not too long. -/
theorem toOption_decode_array {names : List String} (hnames : names = (fields α).map Field.name)
    {items : List Value} (hlength : items.length ≤ names.length) :
    (decode (.array items) : Except Mismatch α).toOption =
      (Field.values? (SortedMap.ofList (names.zip items)).find? (fields α)
        (Field.blank (fields α))).map ofValues := by
  subst hnames
  rw [List.length_map] at hlength
  rw [← Field.toOption_ofItems (arrayWords α) items.length hlength (fun position field hfield => ?_) 0]
  · exact toOption_map ofValues _
  · refine find?_ofList_zip LawfulEntity.nodup_names items ?_
    rw [List.getElem?_map, hfield]
    rfl

/-- An entity has the format that its fields describe. -/
theorem format {names : List String} (hnames : names = (fields α).map Field.name)
    {Accepted : (String → Option Value) → Prop}
    (haccepted : ∀ look, Accepted look ↔ ∀ field ∈ fields α, (field.value? look none).isSome) :
    Format α names Accepted where
  object members := by
    rw [haccepted, ← Field.isSome_values?_blank, ← Option.isSome_map (f := ofValues),
      ← toOption_decode_ofMembers, Option.isSome_iff_exists]
    exact exists_congr fun entity => toOption_eq_some.symm
  ignored members members' hagree := by
    refine congrArg (ofValues <$> ·) (Field.ofMembers_congr fun field hmem => ?_)
    exact hagree field.name (hnames ▸ List.mem_map_of_mem hmem)
  array items hlength entity := by
    rw [← toOption_eq_some, toOption_decode_array hnames hlength, ← toOption_decode_ofMembers,
      toOption_eq_some]
  long items hlength entity hdecode := by
    obtain ⟨values, hvalues, -⟩ := Option.map_eq_some_iff.1
      ((toOption_map ofValues _).symm.trans (toOption_eq_some.2 hdecode))
    have hshort := Field.length_le_of_ofItems (toOption_eq_some.1 hvalues)
    rw [hnames, List.length_map] at hlength
    omega
  other value hobject harray entity hdecode := by
    cases value with
    | object members => exact hobject members rfl
    | array items => exact harray items rfl
    | null | bool | number | string => cases hdecode

end Entity

/-- The attributes of an account are accepted if each of its fields has a value. -/
theorem Account.accepted_iff {look : String → Option Value} :
    Account.Accepted look ↔ ∀ field ∈ fields, (field.value? look none).isSome := by
  simp only [fields, List.forall_mem_cons]
  constructor
  · rintro ⟨hid, hstatus, hroleArn, hpolicyHash, hmodified, hmetadata⟩
    exact ⟨Field.isSome_text.2 hid, Field.isSome_accountStatus.2 hstatus,
      Field.isSome_optionalText.2 hroleArn, Field.isSome_optionalText.2 hpolicyHash,
      Field.isSome_timestamp.2 hmodified, Field.isSome_metadata.2 hmetadata, by simp⟩
  · rintro ⟨hid, hstatus, hroleArn, hpolicyHash, hmodified, hmetadata, -⟩
    exact ⟨Field.isSome_text.1 hid, Field.isSome_accountStatus.1 hstatus,
      Field.isSome_optionalText.1 hroleArn, Field.isSome_optionalText.1 hpolicyHash,
      Field.isSome_timestamp.1 hmodified, Field.isSome_metadata.1 hmetadata⟩

/-- The attributes of a lease are accepted if each of its fields has a value. -/
theorem Lease.accepted_iff {look : String → Option Value} :
    Lease.Accepted look ↔ ∀ field ∈ fields, (field.value? look none).isSome := by
  simp only [fields, List.forall_mem_cons]
  constructor
  · rintro ⟨haccount, hprincipal, hstatus, hcreated, hmodified, hstatusModified⟩
    exact ⟨Field.isSome_text.2 haccount, Field.isSome_text.2 hprincipal,
      Field.isSome_leaseStatus.2 hstatus, Field.isSome_timestamp.2 hcreated,
      Field.isSome_timestamp.2 hmodified, Field.isSome_timestamp.2 hstatusModified, by simp⟩
  · rintro ⟨haccount, hprincipal, hstatus, hcreated, hmodified, hstatusModified, -⟩
    exact ⟨Field.isSome_text.1 haccount, Field.isSome_text.1 hprincipal,
      Field.isSome_leaseStatus.1 hstatus, Field.isSome_timestamp.1 hcreated,
      Field.isSome_timestamp.1 hmodified, Field.isSome_timestamp.1 hstatusModified⟩

/-- Accounts and leases are read from exactly their formats. -/
theorem decode_format :
    Format Account ["Id", "AccountStatus", "PrincipalRoleArn", "PrincipalPolicyHash",
        "LastModifiedOn", "Metadata"] Account.Accepted ∧
      Format Lease ["AccountId", "PrincipalId", "LeaseStatus", "CreatedOn", "LastModifiedOn",
        "LeaseStatusModifiedOn"] Lease.Accepted :=
  ⟨Entity.format rfl fun _ => Account.accepted_iff, Entity.format rfl fun _ => Lease.accepted_iff⟩

end AccountPool
