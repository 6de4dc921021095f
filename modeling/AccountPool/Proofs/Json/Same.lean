import AccountPool.Json.Printer

/-!
# Values that are equal as JSON

Equality as JSON does not tell the two floating-point zeros apart, and it tells apart everything else. So
a value without such a zero equals only itself, `Value.eq_of_same`. The zeros print differently: if all
zeros of a value get a sign, its text gets longer, `Value.length_compactChars_withZeros`.
-/

namespace AccountPool

namespace Binary64

/-- Zero with a sign. -/
def zero (negative : Bool) : Binary64 :=
  ofMagnitude negative 0

/-- The two zeros are zeros. -/
theorem isZero_zero (negative : Bool) : (zero negative).isZero = true := by
  cases negative <;> decide

/-- Numbers that are equal are the same, unless they are zeros. -/
theorem eq_of_same {f g : Binary64} (hsame : f.same g = true) (hzero : g.isZero = false) : f = g := by
  simpa [same, hzero] using hsame

end Binary64

namespace Json

namespace Number

/-- A floating-point zero. -/
def isZero : Number → Bool
  | integer _ => false
  | binary f => f.isZero

/-- A number that is equal to itself. -/
theorem same_self (n : Number) : n.same n = true := by
  cases n <;> simp [same, Binary64.same]

/-- Numbers that are equal are the same, unless they are zeros. -/
theorem eq_of_same {m n : Number} (hsame : m.same n = true) (hzero : n.isZero = false) : m = n := by
  cases m with
  | integer m =>
      cases n with
      | integer n => exact congrArg integer (eq_of_beq hsame)
      | binary g => cases hsame
  | binary f =>
      cases n with
      | integer n => cases hsame
      | binary g => exact congrArg binary (Binary64.eq_of_same hsame hzero)

/-- The number, or zero with another sign. -/
def withZero (negative : Bool) (n : Number) : Number :=
  if n.isZero then .binary (.zero negative) else n

/-- Zero is equal to zero with another sign. -/
theorem same_withZero (negative : Bool) (n : Number) : (n.withZero negative).same n = true := by
  unfold withZero
  split
  · next hzero =>
      cases n with
      | integer n => cases hzero
      | binary f => simp [same, Binary64.same, Binary64.isZero_zero, show f.isZero = true from hzero]
  · exact n.same_self

/-- The sign of a zero is printed. -/
theorem length_text_withZero (n : Number) :
    (n.withZero true).text.length = (n.withZero false).text.length + if n.isZero then 1 else 0 := by
  unfold withZero
  split
  · decide
  · rfl

end Number

namespace Value

mutual

/-- The number of floating-point zeros in the value. -/
def zeros : Value → Nat
  | .number n => if n.isZero then 1 else 0
  | .array items => zerosItems items
  | .object members => zerosMembers members
  | .null | .bool _ | .string _ => 0

/-- The number of floating-point zeros in a list of values. -/
def zerosItems : List Value → Nat
  | [] => 0
  | item :: items => zeros item + zerosItems items

/-- The number of floating-point zeros in the values of a list of members. -/
def zerosMembers : List (String × Value) → Nat
  | [] => 0
  | (_, value) :: members => zeros value + zerosMembers members

end

mutual

/-- The value with a sign for all zeros. -/
def withZeros (negative : Bool) : Value → Value
  | .number n => .number (n.withZero negative)
  | .array items => .array (withZerosItems negative items)
  | .object members => .object (withZerosMembers negative members)
  | .null => .null
  | .bool b => .bool b
  | .string s => .string s

/-- Values with a sign for all zeros. -/
def withZerosItems (negative : Bool) : List Value → List Value
  | [] => []
  | item :: items => withZeros negative item :: withZerosItems negative items

/-- Members with a sign for all zeros. -/
def withZerosMembers (negative : Bool) : List (String × Value) → List (String × Value)
  | [] => []
  | (key, value) :: members => (key, withZeros negative value) :: withZerosMembers negative members

end

/-! ## What equals a value -/

/-- Only null equals null. -/
theorem same_null {held : Value} : held.same .null = true ↔ held = .null := by
  cases held <;> simp [same]

/-- Only a truth value equals itself. -/
theorem same_bool {held : Value} {b : Bool} : held.same (.bool b) = true ↔ held = .bool b := by
  cases held <;> simp [same]

/-- Only a number equals a number. -/
theorem same_number {held : Value} {n : Number} :
    held.same (.number n) = true ↔ ∃ m, held = .number m ∧ m.same n = true := by
  cases held <;> simp [same]

/-- Only an array equals an array. -/
theorem same_array {held : Value} {items : List Value} :
    held.same (.array items) = true ↔ ∃ others, held = .array others ∧ sameItems others items = true := by
  cases held <;> simp [same]

/-- Only an object equals an object. -/
theorem same_object {held : Value} {members : List (String × Value)} :
    held.same (.object members) = true ↔
      ∃ others, held = .object others ∧ sameMembers others members = true := by
  cases held <;> simp [same]

/-- Items equal the items of a list if the first ones and the others do. -/
theorem sameItems_cons {others : List Value} {item : Value} {items : List Value} :
    sameItems others (item :: items) = true ↔
      ∃ head tail, others = head :: tail ∧ head.same item = true ∧ sameItems tail items = true := by
  cases others with
  | nil => simp [sameItems]
  | cons head tail =>
      rw [sameItems, Bool.and_eq_true]
      exact ⟨fun h => ⟨head, tail, rfl, h⟩, by rintro ⟨_, _, ⟨⟩, h⟩; exact h⟩

/-- Members equal the members of a list if the first ones and the others do. -/
theorem sameMembers_cons {others : List (String × Value)} {key : String} {value : Value}
    {members : List (String × Value)} :
    sameMembers others ((key, value) :: members) = true ↔
      ∃ head tail, others = (key, head) :: tail ∧ head.same value = true ∧
        sameMembers tail members = true := by
  cases others with
  | nil => simp [sameMembers]
  | cons head tail =>
      obtain ⟨name, held⟩ := head
      simp [sameMembers, and_assoc]

mutual

/-- Only the value itself equals a value without zeros. -/
theorem eq_of_same {held : Value} : (value : Value) → held.same value = true →
    value.zeros = 0 → held = value
  | .null, hsame, _ => same_null.1 hsame
  | .bool _, hsame, _ => same_bool.1 hsame
  | .number n, hsame, hzero => by
      obtain ⟨m, rfl, hm⟩ := same_number.1 hsame
      rw [Number.eq_of_same hm (by simpa [zeros] using hzero)]
  | .string _, hsame, _ => same_string.1 hsame
  | .array items, hsame, hzero => by
      obtain ⟨others, rfl, hothers⟩ := same_array.1 hsame
      rw [eq_of_sameItems items hothers hzero]
  | .object members, hsame, hzero => by
      obtain ⟨others, rfl, hothers⟩ := same_object.1 hsame
      rw [eq_of_sameMembers members hothers hzero]

/-- Only the items themselves equal items without zeros. -/
theorem eq_of_sameItems {others : List Value} : (items : List Value) → sameItems others items = true →
    zerosItems items = 0 → others = items
  | [], hsame, _ => by
      cases others with
      | nil => rfl
      | cons other others => cases hsame
  | item :: items, hsame, hzero => by
      obtain ⟨head, tail, rfl, hhead, htail⟩ := sameItems_cons.1 hsame
      obtain ⟨hitem, hitems⟩ := Nat.add_eq_zero_iff.1 hzero
      rw [eq_of_same item hhead hitem, eq_of_sameItems items htail hitems]

/-- Only the members themselves equal members without zeros. -/
theorem eq_of_sameMembers {others : List (String × Value)} : (members : List (String × Value)) →
    sameMembers others members = true → zerosMembers members = 0 → others = members
  | [], hsame, _ => by
      cases others with
      | nil => rfl
      | cons other others => cases hsame
  | (key, value) :: members, hsame, hzero => by
      obtain ⟨head, tail, rfl, hhead, htail⟩ := sameMembers_cons.1 hsame
      obtain ⟨hvalue, hmembers⟩ := Nat.add_eq_zero_iff.1 hzero
      rw [eq_of_same value hhead hvalue, eq_of_sameMembers members htail hmembers]

end

/-! ## Values with zeros -/

mutual

/-- A value is equal to itself with other signs of zeros. -/
theorem same_withZeros (negative : Bool) : (value : Value) →
    (value.withZeros negative).same value = true
  | .null => rfl
  | .bool b => by simp [withZeros, same]
  | .number n => n.same_withZero negative
  | .string s => by simp [withZeros, same]
  | .array items => sameItems_withZeros negative items
  | .object members => sameMembers_withZeros negative members

/-- Items are equal to themselves with other signs of zeros. -/
theorem sameItems_withZeros (negative : Bool) : (items : List Value) →
    sameItems (withZerosItems negative items) items = true
  | [] => rfl
  | item :: items => by
      simp only [withZerosItems, sameItems, same_withZeros negative item,
        sameItems_withZeros negative items, Bool.and_self]

/-- Members are equal to themselves with other signs of zeros. -/
theorem sameMembers_withZeros (negative : Bool) : (members : List (String × Value)) →
    sameMembers (withZerosMembers negative members) members = true
  | [] => rfl
  | (key, value) :: members => by
      simp only [withZerosMembers, sameMembers, same_withZeros negative value,
        sameMembers_withZeros negative members, beq_self_eq_true, Bool.and_self]

end

mutual

/-- The signs of zeros are printed. -/
theorem length_compactChars_withZeros : (value : Value) →
    (value.withZeros true).compactChars.length =
      (value.withZeros false).compactChars.length + value.zeros
  | .null | .bool _ | .string _ => rfl
  | .number n => n.length_text_withZero
  | .array items => by
      have hitems := length_compactItems_withZeros items
      simp only [withZeros, compactChars, zeros, List.length_cons, List.length_append, hitems]
      omega
  | .object members => by
      have hmembers := length_compactMembers_withZeros members
      simp only [withZeros, compactChars, zeros, List.length_cons, List.length_append, hmembers]
      omega

/-- The signs of zeros in items are printed. -/
theorem length_compactItems_withZeros : (items : List Value) →
    (compactItems (withZerosItems true items)).length =
      (compactItems (withZerosItems false items)).length + zerosItems items
  | [] => rfl
  | [item] => length_compactChars_withZeros item
  | item :: next :: items => by
      have hitem := length_compactChars_withZeros item
      have hitems := length_compactItems_withZeros (next :: items)
      simp only [withZerosItems, compactItems, zerosItems, List.length_cons, List.length_append]
        at hitems ⊢
      omega

/-- The signs of zeros in members are printed. -/
theorem length_compactMembers_withZeros : (members : List (String × Value)) →
    (compactMembers (withZerosMembers true members)).length =
      (compactMembers (withZerosMembers false members)).length + zerosMembers members
  | [] => rfl
  | [(key, value)] => by
      have hvalue := length_compactChars_withZeros value
      simp only [withZerosMembers, compactMembers, zerosMembers, List.length_cons,
        List.length_append, hvalue]
      omega
  | (key, value) :: (name, next) :: members => by
      have hvalue := length_compactChars_withZeros value
      have hmembers := length_compactMembers_withZeros ((name, next) :: members)
      simp only [withZerosMembers, compactMembers, zerosMembers, List.length_cons,
        List.length_append] at hmembers ⊢
      omega

end

end Value

end Json

end AccountPool
