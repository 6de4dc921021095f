import AccountPool.Json.Document

/-!
# How deep values are nested

An object is one level deeper than the deepest of its members, and so is an array. A reader of values that
is allowed a number of levels gives no value that is nested deeper: `Reader.value_gives`. So every text that
denotes a value denotes one of at most `Reader.maxDepth` levels: `Value.parse_depth`.
-/

namespace AccountPool.Json

/-! ## Depths of objects -/

namespace Value

/-- The depth of a list of values bounds each of them, and no lower number does. -/
theorem depthItems_le {items : List Value} {levels : Nat} :
    depthItems items ≤ levels ↔ ∀ item ∈ items, item.depth ≤ levels := by
  induction items with
  | nil => simp [depthItems]
  | cons item items ih => rw [depthItems, Nat.max_le, ih, List.forall_mem_cons]

/-- The depth of a list of members bounds each of their values, and no lower number does. -/
theorem depthMembers_le {members : List (String × Value)} {levels : Nat} :
    depthMembers members ≤ levels ↔ ∀ member ∈ members, member.2.depth ≤ levels := by
  induction members with
  | nil => simp [depthMembers]
  | cons member members ih => rw [depthMembers, Nat.max_le, ih, List.forall_mem_cons]

/-- An object is deeper than the values of its members, and one level is enough. -/
theorem depth_ofMembers_le {members : Members} {levels : Nat} :
    (ofMembers members).depth ≤ levels + 1 ↔
      ∀ name value, members.find? name = some value → value.depth ≤ levels := by
  simp only [ofMembers, depth, Nat.add_le_add_iff_right, depthMembers_le, Prod.forall,
    SortedMap.mem_entries_iff]

/-- A member is less deep than its object. -/
theorem depth_lt_ofMembers {members : Members} {name : String} {value : Value}
    (hfind : members.find? name = some value) : value.depth < (ofMembers members).depth := by
  have hmember := depthMembers_le.1 (Nat.le_refl _) _ (SortedMap.mem_entries_iff.2 hfind)
  exact Nat.lt_succ_of_le hmember

/-- Setting a member makes an object at most one level deeper than the member. -/
theorem depth_insert_le {members : Members} {levels : Nat} (h : (ofMembers members).depth ≤ levels + 1)
    {name : String} {value : Value} (hvalue : value.depth ≤ levels) :
    (ofMembers (members.insert name value)).depth ≤ levels + 1 := by
  refine depth_ofMembers_le.2 fun other found hfind => ?_
  rw [SortedMap.find?_insert] at hfind
  split at hfind
  · cases hfind
    exact hvalue
  · exact depth_ofMembers_le.1 h other found hfind

/-- An object with the last of several members of a name is not deeper than one with all of them. -/
theorem depth_ofList_le (members : List (String × Value)) :
    (ofMembers (.ofList members)).depth ≤ (object members).depth := by
  -- Members are set one after the other, so the bound is kept from the empty object on.
  have hfold : ∀ (rest : List (String × Value)) (set : Members),
      (∀ member ∈ rest, member.2.depth ≤ depthMembers members) →
      (ofMembers set).depth ≤ depthMembers members + 1 →
      (ofMembers (rest.foldl (fun set member => set.insert member.1 member.2) set)).depth ≤
        depthMembers members + 1 := by
    intro rest
    induction rest with
    | nil => exact fun _ _ hset => hset
    | cons member rest ih =>
        intro set hrest hset
        exact ih _ (fun other hmem => hrest other (List.mem_cons_of_mem _ hmem))
          (depth_insert_le hset (hrest member List.mem_cons_self))
  exact hfold members {} (depthMembers_le.1 (Nat.le_refl _)) (Nat.succ_le_succ (Nat.zero_le _))

end Value

/-! ## Depths of what readers give -/

namespace Reader

variable {α β σ : Type}

/-- Whatever a reader gives is good. -/
def Gives (reader : Reader α) (good : α → Prop) : Prop :=
  ∀ cursor value rest, reader cursor = .ok (value, rest) → good value

/-- Of a reader that nothing is asked of nothing is known. -/
theorem gives_any (reader : Reader α) : reader.Gives fun _ => True :=
  fun _ _ _ _ => trivial

/-- A reader that gives one value. -/
theorem gives_pure {good : α → Prop} {value : α} (h : good value) :
    (pure value : Reader α).Gives good := by
  rintro cursor found rest hread
  cases hread
  exact h

/-- A reader that stops gives nothing. -/
theorem gives_stop {good : α → Prop} (reason : Reason) : (stop reason : Reader α).Gives good :=
  fun _ _ _ hread => nomatch hread

@[inherit_doc gives_stop]
theorem gives_stopAfter {good : α → Prop} (reason : Reason) :
    (stopAfter reason : Reader α).Gives good :=
  fun _ _ _ hread => nomatch hread

/-- A reader that goes on with another one gives what this one gives. -/
theorem Gives.bind {reader : Reader α} {next : α → Reader β} {between : α → Prop} {good : β → Prop}
    (h : reader.Gives between) (hnext : ∀ value, between value → (next value).Gives good) :
    (reader >>= next).Gives good := by
  intro cursor result rest hread
  change (reader cursor >>= fun found => next found.1 found.2) = _ at hread
  cases hfirst : reader cursor with
  | error stop =>
      rw [hfirst] at hread
      cases hread
  | ok found =>
      rw [hfirst] at hread
      exact hnext found.1 (h cursor found.1 found.2 hfirst) found.2 result rest hread

/-- Nothing needs to be known of what was read before. -/
theorem gives_bind (reader : Reader α) {next : α → Reader β} {good : β → Prop}
    (hnext : ∀ value, (next value).Gives good) : (reader >>= next).Gives good :=
  (gives_any reader).bind fun value _ => hnext value

/-- A reader whose values are translated. -/
theorem Gives.map {reader : Reader α} {good : α → Prop} {translate : α → β} {fine : β → Prop}
    (h : reader.Gives good) (htranslate : ∀ value, good value → fine (translate value)) :
    (translate <$> reader).Gives fine :=
  h.bind fun value hvalue => gives_pure (htranslate value hvalue)

/-- A loop gives what its body gives in the end if the body keeps an invariant until then. -/
theorem gives_loop {body : σ → Reader (σ ⊕ α)} {invariant : σ → Prop} {good : α → Prop}
    (hbody : ∀ state, invariant state → (body state).Gives (Sum.elim invariant good)) {init : σ}
    (hinit : invariant init) : (loop body init).Gives good := by
  have hgo : ∀ (bound : Nat) (state : σ), invariant state → (loop.go body bound state).Gives good := by
    intro bound
    induction bound with
    | zero => exact fun _ _ => gives_stop _
    | succ bound ih =>
        intro state hstate
        refine (hbody state hstate).bind fun outcome houtcome => ?_
        cases outcome with
        | inl next => exact ih next houtcome
        | inr result => exact gives_pure houtcome
  exact fun cursor => hgo _ init hinit cursor

section Inner

variable {inner : Reader Value} {good : Value → Prop} (h : inner.Gives good)

include h

/-- The items of an array are what the reader of values inside it gives. -/
theorem items_gives : (items inner).Gives fun found => ∀ item ∈ found, good item := by
  let fine (read : List Value) : Prop := ∀ item ∈ read, good item
  have hloop : (loop (fun (read : List Value) => do
      if ← hasItem read.isEmpty then do
        let value ← inner
        pure (Sum.inl (value :: read))
      else pure (Sum.inr read.reverse)) []).Gives fine := by
    refine gives_loop (fun read (hread : fine read) => gives_bind _ fun more => ?_) (fun _ => nofun)
    split
    · exact h.bind fun value hvalue => gives_pure (List.forall_mem_cons.2 ⟨hvalue, hread⟩)
    · exact gives_pure fun item hmem => hread item (List.mem_reverse.1 hmem)
  exact hloop.bind fun found hfound => gives_bind _ fun _ => gives_pure hfound

/-- The values of the members of an object are what the reader of values inside it gives. -/
theorem members_gives :
    (members inner).Gives fun found => ∀ name value, found.find? name = some value → good value := by
  let fine (state : Bool × Members) : Prop :=
    ∀ name value, state.2.find? name = some value → good value
  have hempty : fine (true, {}) := fun name value hfind => nomatch hfind
  refine gives_loop (fun state (hstate : fine state) => gives_bind _ fun key => ?_) hempty
  split
  · exact gives_bind _ fun _ => gives_pure hstate
  · refine gives_bind _ fun _ => h.bind fun value hvalue => gives_pure fun name found hfind => ?_
    rw [SortedMap.find?_insert] at hfind
    split at hfind
    · cases hfind
      exact hvalue
    · exact hstate name found hfind

end Inner

/-- A value is at most one level deeper than the values inside it may be, and a scalar if there may be
none. -/
theorem valueWith_gives {inner : Option (Reader Value)} {levels : Nat}
    (h : ∀ reader, inner = some reader →
      0 < levels ∧ reader.Gives fun value => value.depth ≤ levels - 1) :
    (valueWith inner).Gives fun value => value.depth ≤ levels := by
  refine gives_bind _ fun next => ?_
  split
  · exact gives_stop _
  · repeat' split
    · exact gives_bind _ fun _ => gives_pure (Nat.zero_le _)
    · exact gives_bind _ fun _ => gives_pure (Nat.zero_le _)
    · exact gives_bind _ fun _ => gives_pure (Nat.zero_le _)
    · exact (gives_any _).map fun _ _ => Nat.zero_le _
    · exact gives_bind _ fun _ => (gives_any _).map fun _ _ => Nat.zero_le _
    · exact gives_stopAfter _
    · next reader =>
        obtain ⟨hpos, hreader⟩ := h reader rfl
        refine gives_bind _ fun _ => (items_gives hreader).map fun found hfound => ?_
        have hdepth := Value.depthItems_le.2 hfound
        show Value.depthItems found + 1 ≤ levels
        omega
    · exact gives_stopAfter _
    · next reader =>
        obtain ⟨hpos, hreader⟩ := h reader rfl
        refine gives_bind _ fun _ => (members_gives hreader).map fun found hfound => ?_
        have hdepth := Value.depth_ofMembers_le.2 hfound
        omega
    · exact gives_stopAfter _

/-- No value is deeper than its reader allows. -/
theorem value_gives (levels : Nat) : (value levels).Gives fun found => found.depth ≤ levels := by
  induction levels with
  | zero => exact valueWith_gives fun _ hnone => nomatch hnone
  | succ levels ih =>
      refine valueWith_gives fun reader hreader => ⟨Nat.succ_pos _, ?_⟩
      cases hreader
      exact ih

/-- What is read from a whole text is what the reader gives. -/
theorem Gives.readAll {reader : Reader α} {good : α → Prop} (h : reader.Gives good) {text : String}
    {value : α} (hread : readAll reader text = .ok value) : good value := by
  have hwhole : Gives (do let value ← reader; finish; pure value) good :=
    h.bind fun value hvalue => gives_bind _ fun _ => gives_pure hvalue
  unfold Reader.readAll at hread
  dsimp only at hread
  split at hread
  · next found rest hfound =>
      cases hread
      exact hwhole _ _ _ hfound
  · cases hread

end Reader

/-- A document, up to the end of the text. -/
def Reader.document : Reader Value := do
  let value ← value maxDepth
  finish
  pure value

/-- The members of the object that the characters of a document denote. -/
def Reader.object? (chars : List Char) : Option (List (String × Value)) :=
  match document ⟨chars, 0⟩ with
  | .ok (value, _) =>
      match value with
      | .object members => some members
      | _ => none
  | .error _ => none

/-- A text denotes the object that is read from its characters. -/
theorem Value.parse_of_object? {chars : List Char} {members : List (String × Value)}
    (h : Reader.object? chars = some members) :
    Value.parse (String.ofList chars) = .ok (.object members) := by
  unfold Reader.object? at h
  cases hread : Reader.document ⟨chars, 0⟩ with
  | error stop =>
      rw [hread] at h
      cases h
  | ok found =>
      obtain ⟨value, rest⟩ := found
      rw [hread] at h
      cases value with
      | object found =>
          cases h
          unfold Reader.document at hread
          simp only [Value.parse, Reader.readAll, String.toList_ofList, hread]
      | _ => cases h

/-- A text denotes nothing if its characters cannot be read. -/
theorem Value.exists_parse_ofList_error {chars : List Char} {stop : Stop}
    (hread : Reader.document ⟨chars, 0⟩ = .error stop) :
    ∃ fault, Value.parse (String.ofList chars) = .error fault := by
  unfold Reader.document at hread
  simp only [Value.parse, Reader.readAll, String.toList_ofList, hread]
  exact ⟨_, rfl⟩

/-- A text denotes no value that is deeper than documents may be. -/
theorem Value.parse_depth {text : String} {value : Value} (hparse : Value.parse text = .ok value) :
    value.depth ≤ Reader.maxDepth :=
  (Reader.value_gives Reader.maxDepth).readAll hparse

end AccountPool.Json
