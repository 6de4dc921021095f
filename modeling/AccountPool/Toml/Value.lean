import AccountPool.Binary64.Basic

/-!
# TOML values

The values of TOML documents: scalars, arrays and tables. A date or time is kept as its text.
-/

namespace AccountPool.Toml

/-- A TOML value. -/
inductive Value where
  | string (s : String)
  | integer (n : Int)
  | float (f : Binary64)
  | boolean (b : Bool)
  | moment (text : String)
  | array (items : List Value)
  | table (entries : List (String × Value))
deriving Inhabited

namespace Value

/-- The text of a string. -/
def string? : Value → Option String
  | string s => some s
  | _ => none

/-- An integer from zero on that fits 64 bits. -/
def count? : Value → Option Nat
  | integer n => if 0 ≤ n ∧ n < 0x10000000000000000 then some n.toNat else none
  | _ => none

end Value

end AccountPool.Toml
