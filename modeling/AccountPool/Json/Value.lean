import AccountPool.Json.Number
import AccountPool.SortedMap

/-!
# JSON values

The values of JSON documents. An object is the list of its members in the order in which they are to
be printed; objects that are read, stored or compared list them by increasing key, as the entries of
a `SortedMap` do.
-/

namespace AccountPool.Json

/-- A JSON value. -/
inductive Value where
  | null
  | bool (b : Bool)
  | number (n : Number)
  | string (s : String)
  | array (items : List Value)
  | object (members : List (String × Value))
deriving Inhabited

/-- The members of an object, by increasing key. -/
abbrev Members := SortedMap String Value

namespace Value

/-- The object with the given members. -/
def ofMembers (members : Members) : Value :=
  .object members.entries

/-- A signed 64-bit integer. -/
def int64 (n : Int64) : Value :=
  .number (.integer (.ofInt64 n))

/-- The text of a string value. -/
def string? : Value → Option String
  | .string s => some s
  | _ => none

mutual

/-- Equality as JSON: numbers by `Number.same`, all else by structure. -/
def same : Value → Value → Bool
  | .null, .null => true
  | .bool a, .bool b => a == b
  | .number m, .number n => m.same n
  | .string s, .string t => s == t
  | .array xs, .array ys => sameItems xs ys
  | .object xs, .object ys => sameMembers xs ys
  | _, _ => false

/-- Equality of the items of two arrays, one by one. -/
def sameItems : List Value → List Value → Bool
  | [], [] => true
  | x :: xs, y :: ys => same x y && sameItems xs ys
  | _, _ => false

/-- Equality of the members of two objects, one by one. -/
def sameMembers : List (String × Value) → List (String × Value) → Bool
  | [], [] => true
  | (k, x) :: xs, (l, y) :: ys => k == l && same x y && sameMembers xs ys
  | _, _ => false

end

/-- Only a text equals a text as JSON. -/
theorem same_string {held : Value} {text : String} :
    held.same (.string text) = true ↔ held = .string text := by
  cases held <;> simp [same]

mutual

/-- The number of arrays and objects around the innermost value. -/
def depth : Value → Nat
  | .array items => depthItems items + 1
  | .object members => depthMembers members + 1
  | _ => 0

/-- The greatest depth of a list of values. -/
def depthItems : List Value → Nat
  | [] => 0
  | item :: items => max (depth item) (depthItems items)

/-- The greatest depth among the values of a list of members. -/
def depthMembers : List (String × Value) → Nat
  | [] => 0
  | (_, value) :: members => max (depth value) (depthMembers members)

end

end Value

end AccountPool.Json
