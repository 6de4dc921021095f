import AccountPool.Proofs.Json.Depth
import AccountPool.Proofs.Json.Numbers

/-!
# Outlines of values

What is left of a value if its floating-point numbers are forgotten is its outline; this is what reading a
printed value keeps. A value is sound if it is one that a document can denote: its floating-point numbers
are finite, and objects list their members by increasing key. Every value that is read is sound:
`Value.parse_sound`.
-/

namespace AccountPool.Json

namespace Value

mutual

/-- The value without its floating-point numbers. -/
def outline : Value → Value
  | .null => .null
  | .bool b => .bool b
  | .number n => .number n.outline
  | .string s => .string s
  | .array items => .array (outlineItems items)
  | .object members => .object (outlineMembers members)

/-- The outlines of the items of an array. -/
def outlineItems : List Value → List Value
  | [] => []
  | item :: items => outline item :: outlineItems items

/-- The outlines of the members of an object. -/
def outlineMembers : List (String × Value) → List (String × Value)
  | [] => []
  | (name, value) :: members => (name, outline value) :: outlineMembers members

end

mutual

/-- A value that a document can denote. -/
def Sound : Value → Prop
  | .null | .bool _ | .string _ => True
  | .number n => n.isFinite = true
  | .array items => SoundItems items
  | .object members =>
      members.Pairwise (fun earlier later => compare earlier.1 later.1 = .lt) ∧ SoundMembers members

/-- The items of an array are sound. -/
def SoundItems : List Value → Prop
  | [] => True
  | item :: items => Sound item ∧ SoundItems items

/-- The members of an object are sound. -/
def SoundMembers : List (String × Value) → Prop
  | [] => True
  | (_, value) :: members => Sound value ∧ SoundMembers members

end

mutual

/-- The value has no floating-point numbers. -/
def Integral : Value → Prop
  | .null | .bool _ | .string _ | .number (.integer _) => True
  | .number (.binary _) => False
  | .array items => IntegralItems items
  | .object members => IntegralMembers members

/-- The items of an array have no floating-point numbers. -/
def IntegralItems : List Value → Prop
  | [] => True
  | item :: items => Integral item ∧ IntegralItems items

/-- The members of an object have no floating-point numbers. -/
def IntegralMembers : List (String × Value) → Prop
  | [] => True
  | (_, value) :: members => Integral value ∧ IntegralMembers members

end

/-! ## Items and members -/

theorem soundItems_iff {items : List Value} : SoundItems items ↔ ∀ item ∈ items, item.Sound := by
  induction items with
  | nil => simp [SoundItems]
  | cons item items ih => rw [SoundItems, ih, List.forall_mem_cons]

theorem soundMembers_iff {members : List (String × Value)} :
    SoundMembers members ↔ ∀ member ∈ members, member.2.Sound := by
  induction members with
  | nil => simp [SoundMembers]
  | cons member members ih => rw [SoundMembers, ih, List.forall_mem_cons]

/-- An object made of a map is sound if the values in the map are. -/
theorem sound_ofMembers {members : Members} :
    (ofMembers members).Sound ↔ ∀ name value, members.find? name = some value → value.Sound := by
  simp only [ofMembers, Sound, members.sorted, true_and, soundMembers_iff, Prod.forall,
    SortedMap.mem_entries_iff]

/-- A sound object is made of a map. -/
theorem exists_ofMembers {members : List (String × Value)} (h : (object members).Sound) :
    ∃ map : Members, object members = ofMembers map :=
  ⟨⟨members, h.1⟩, rfl⟩

/-- Setting a member keeps an object sound if the member is. -/
theorem sound_insert {members : Members} (h : (ofMembers members).Sound) (name : String) {value : Value}
    (hvalue : value.Sound) : (ofMembers (members.insert name value)).Sound := by
  refine sound_ofMembers.2 fun other found hfind => ?_
  rw [SortedMap.find?_insert] at hfind
  split at hfind
  · cases hfind
    exact hvalue
  · exact sound_ofMembers.1 h other found hfind

/-- An object made of the last members of each name is sound if all members are. -/
theorem sound_ofList {members : List (String × Value)} (h : SoundMembers members) :
    (ofMembers (.ofList members)).Sound := by
  have hfold : ∀ (rest : List (String × Value)) (set : Members), (∀ member ∈ rest, member.2.Sound) →
      (ofMembers set).Sound →
      (ofMembers (rest.foldl (fun set member => set.insert member.1 member.2) set)).Sound := by
    intro rest
    induction rest with
    | nil => exact fun _ _ hset => hset
    | cons member rest ih =>
        intro set hrest hset
        exact ih _ (fun other hmem => hrest other (List.mem_cons_of_mem _ hmem))
          (sound_insert hset member.1 (hrest member List.mem_cons_self))
  exact hfold members {} (soundMembers_iff.1 h) ⟨.nil, trivial⟩

/-! ## What the outline keeps -/

/-- A text is all there is to its outline. -/
theorem outline_eq_string {value : Value} {text : String} :
    value.outline = .string text ↔ value = .string text := by
  cases value <;> simp [outline]

/-- An integer is all there is to its outline. -/
theorem outline_eq_integer {value : Value} {n : WideInteger} :
    value.outline = .number (.integer n) ↔ value = .number (.integer n) := by
  cases value with
  | number m => cases m <;> simp [outline, Number.outline]
  | _ => simp [outline]

mutual

/-- Values of one outline have one depth. -/
theorem depth_outline : (value : Value) → value.outline.depth = value.depth
  | .null | .bool _ | .number _ | .string _ => rfl
  | .array items => congrArg (· + 1) (depthItems_outline items)
  | .object members => congrArg (· + 1) (depthMembers_outline members)

/-- Items of one outline have one depth. -/
theorem depthItems_outline : (items : List Value) → depthItems (outlineItems items) = depthItems items
  | [] => rfl
  | item :: items => by
      rw [outlineItems, depthItems, depthItems, depth_outline item, depthItems_outline items]

/-- Members of one outline have one depth. -/
theorem depthMembers_outline : (members : List (String × Value)) →
    depthMembers (outlineMembers members) = depthMembers members
  | [] => rfl
  | (_, value) :: members => by
      rw [outlineMembers, depthMembers, depthMembers, depth_outline value,
        depthMembers_outline members]

end

mutual

/-- A value without floating-point numbers is all there is to its outline. -/
theorem eq_of_outline_eq : (value : Value) → value.Integral → {other : Value} →
    other.outline = value.outline → other = value
  | .null, _, other, h => by cases other <;> first | rfl | cases h
  | .bool b, _, other, h => by cases other <;> cases h; rfl
  | .string text, _, other, h => outline_eq_string.1 h
  | .number (.integer n), _, other, h => outline_eq_integer.1 h
  | .array items, hintegral, other, h => by
      cases other with
      | array others =>
          injection h with hitems
          rw [eq_of_outlineItems_eq items hintegral hitems]
      | _ => cases h
  | .object members, hintegral, other, h => by
      cases other with
      | object others =>
          injection h with hmembers
          rw [eq_of_outlineMembers_eq members hintegral hmembers]
      | _ => cases h

/-- Items without floating-point numbers are all there is to their outlines. -/
theorem eq_of_outlineItems_eq : (items : List Value) → IntegralItems items → {others : List Value} →
    outlineItems others = outlineItems items → others = items
  | [], _, [], _ => rfl
  | item :: items, hintegral, other :: others, h => by
      injection h with hitem hitems
      rw [eq_of_outline_eq item hintegral.1 hitem, eq_of_outlineItems_eq items hintegral.2 hitems]

/-- Members without floating-point numbers are all there is to their outlines. -/
theorem eq_of_outlineMembers_eq : (members : List (String × Value)) → IntegralMembers members →
    {others : List (String × Value)} → outlineMembers others = outlineMembers members → others = members
  | [], _, [], _ => rfl
  | (name, value) :: members, hintegral, (_, other) :: others, h => by
      injection h with hmember hmembers
      injection hmember with hname hvalue
      rw [hname, eq_of_outline_eq value hintegral.1 hvalue,
        eq_of_outlineMembers_eq members hintegral.2 hmembers]

end

/-- The attributes of an object are found in its outline as their outlines. -/
theorem find?_outline {members other : Members}
    (h : (ofMembers members).outline = (ofMembers other).outline) (name : String) :
    (members.find? name).map outline = (other.find? name).map outline := by
  have hlookup (entries : List (String × Value)) :
      SortedMap.lookup name (outlineMembers entries) = (SortedMap.lookup name entries).map outline := by
    induction entries with
    | nil => rfl
    | cons entry entries ih =>
        rw [outlineMembers, SortedMap.lookup, SortedMap.lookup]
        cases compare name entry.1 with
        | eq => rfl
        | lt | gt => exact ih
  injection h with hentries
  show (SortedMap.lookup name members.entries).map outline =
    (SortedMap.lookup name other.entries).map outline
  rw [← hlookup, ← hlookup, hentries]

end Value

/-! ## What is read is sound -/

namespace Reader

/-- A scaled number is finite. -/
theorem scaled_gives (negative : Bool) {significand : Nat} (h : significand < 0x10000000000000000)
    (exponent : Int) : (scaled negative significand exponent).Gives (·.isFinite = true) := by
  unfold scaled
  split
  · next hscaled => exact gives_pure (isFinite_signed (scaled?_finite h hscaled) negative)
  · exact gives_stop _

/-- A number with an exponent is finite. -/
theorem exponentTail_gives (negative : Bool) {significand : Nat}
    (h : significand < 0x10000000000000000) (exponent : Int) :
    (exponentTail negative significand exponent).Gives (·.isFinite = true) := by
  have hthrow (stop : Stop) : (throw stop : Reader Number).Gives (·.isFinite = true) :=
    fun _ _ _ hread => nomatch hread
  refine gives_bind _ fun _ => gives_bind _ fun sign => ?_
  dsimp only
  split
  case' isTrue => refine gives_bind _ fun _ => ?_
  all_goals
    -- The sign is taken if there is one, and all else goes on in the same way.
    refine gives_bind _ fun next => ?_
    split
    · exact gives_stop _
    · split
      · exact gives_stopAfter _
      · refine gives_bind _ fun start => gives_bind _ fun digits => ?_
        split
        · split
          · exact hthrow _
          · exact gives_pure (Binary64.isFinite_zero negative)
        · exact scaled_gives negative h _

/-- A number with a fraction is finite. -/
theorem fractionTail_gives (negative : Bool) {significand : Nat}
    (h : significand < 0x10000000000000000) (exponent : Int) :
    (fractionTail negative significand exponent).Gives (·.isFinite = true) := by
  refine gives_bind _ fun _ => gives_bind _ fun digits => gives_bind _ fun next => ?_
  split
  · split
    · exact gives_stop _
    · exact gives_stopAfter _
  · have hfill := fill_lt h digits
    dsimp only
    split
    · exact exponentTail_gives negative hfill _
    · exact scaled_gives negative hfill _

/-- Integers are finite. -/
theorem isFinite_of_signedInteger? {negative : Bool} {significand : Nat} {n : Number}
    (h : signedInteger? negative significand = some n) : n.isFinite = true := by
  unfold signedInteger? at h
  split at h
  · split at h
    · cases h
    · obtain ⟨wide, -, rfl⟩ := Option.map_eq_some_iff.1 h
      rfl
  · obtain ⟨wide, -, rfl⟩ := Option.map_eq_some_iff.1 h
    rfl

/-- A number is finite. -/
theorem number_gives (first : Char) : (number first).Gives (·.isFinite = true) := by
  have htail (negative : Bool) : (numberTail negative).Gives (·.isFinite = true) := by
    refine gives_bind _ fun c => ?_
    split
    · exact gives_stop _
    · split
      · exact gives_stopAfter _
      · refine gives_bind _ fun digits => gives_bind _ fun next => ?_
        have hfill := fill_lt (show 0 < 0x10000000000000000 by decide) digits
        dsimp only
        split
        · exact gives_stopAfter _
        split
        · exact fractionTail_gives negative hfill _
        split
        · exact exponentTail_gives negative hfill _
        split
        · split
          · next hinteger => exact gives_pure (isFinite_of_signedInteger? hinteger)
          · exact scaled_gives negative hfill _
        · exact scaled_gives negative hfill _
  unfold number
  split
  · exact gives_bind _ fun _ => htail true
  · exact htail false

/-- A value is sound if the values inside it are. -/
theorem valueWith_gives_sound {inner : Option (Reader Value)}
    (h : ∀ reader, inner = some reader → reader.Gives Value.Sound) :
    (valueWith inner).Gives Value.Sound := by
  refine gives_bind _ fun next => ?_
  split
  · exact gives_stop _
  · repeat' split
    · exact gives_bind _ fun _ => gives_pure trivial
    · exact gives_bind _ fun _ => gives_pure trivial
    · exact gives_bind _ fun _ => gives_pure trivial
    · exact (number_gives _).map fun _ hnumber => hnumber
    · exact gives_bind _ fun _ => (gives_any _).map fun _ _ => trivial
    · exact gives_stopAfter _
    · next reader =>
        refine gives_bind _ fun _ => (items_gives (h reader rfl)).map fun found hfound => ?_
        exact Value.soundItems_iff.2 hfound
    · exact gives_stopAfter _
    · next reader =>
        refine gives_bind _ fun _ => (members_gives (h reader rfl)).map fun found hfound => ?_
        exact Value.sound_ofMembers.2 hfound
    · exact gives_stopAfter _

/-- Every value that is read is sound. -/
theorem value_gives_sound (levels : Nat) : (value levels).Gives Value.Sound := by
  induction levels with
  | zero => exact valueWith_gives_sound fun _ hnone => nomatch hnone
  | succ levels ih =>
      refine valueWith_gives_sound fun reader hreader => ?_
      cases hreader
      exact ih

end Reader

/-- A text denotes a sound value. -/
theorem Value.parse_sound {text : String} {value : Value} (hparse : Value.parse text = .ok value) :
    value.Sound :=
  (Reader.value_gives_sound Reader.maxDepth).readAll hparse

end AccountPool.Json
