import AccountPool.Binary64.Reading
import AccountPool.Config.Error
import AccountPool.SortedMap

/-!
# Variables of the environment

Variables have texts as values, and a variable with an empty text counts as not set. A number is read
after the blanks around it are taken off. Getting a variable falls back to a default where there is
nothing to read; requiring it fails instead.
-/

namespace AccountPool

/-- The variables of an environment. -/
structure Environment where
  bindings : SortedMap String String := {}

namespace Environment

/-- The names and values as which a text `name=value` can be read: each equals sign may be the one
between the two. -/
def readings (entry : List Char) : List (String × String) :=
  (List.range entry.length).filterMap fun length =>
    match entry.drop length with
    | '=' :: value => some (String.ofList (entry.take length), String.ofList value)
    | _ => none

/-- The environment of a process is a list of texts `name=value`. A name stands for what follows it
and an equals sign in the first text that starts with these, so that it may contain equals signs
itself. -/
def ofEntries (entries : List String) : Environment :=
  ⟨.ofList (entries.flatMap fun entry => readings entry.toList).reverse⟩

/-- The environment of a process that was started with the given variables. -/
def ofVariables (given : SortedMap String String) : Environment :=
  ofEntries (given.entries.map fun entry => entry.1 ++ "=" ++ entry.2)

variable (environment : Environment)

/-- The text of a variable, possibly empty; empty also if it does not exist. -/
def expand (name : String) : String :=
  (environment.bindings.find? name).getD ""

/-- The text of a variable that is set. -/
def value? (name : String) : Option String :=
  (environment.bindings.find? name).filter fun value => !value.isEmpty

/-- The text of a variable, or a default. -/
def get (name default : String) : String :=
  (environment.value? name).getD default

/-- A variable as an integer, or a default. -/
def getInt (name : String) (default : Int64) : Int64 :=
  match environment.value? name with
  | some value => (Text.readInt64? value.toList).getD default
  | none => default

/-- A variable as a number, or a default. -/
def getNumber (name : String) (default : Binary64) : Binary64 :=
  match environment.value? name with
  | some value => (Binary64.read? (Text.trim value.toList)).getD default
  | none => default

/-- The text of a variable that has to be set. -/
def require (name : String) : Except ConfigError String :=
  match environment.value? name with
  | some value => .ok value
  | none => .error (.missingVariable name)

/-- A variable that has to be set, as an integer. -/
def requireInt (name : String) : Except ConfigError Int64 := do
  let value ← environment.require name
  match Text.readInt64? value.toList with
  | some n => pure n
  | none => throw (.invalidVariable name value .integer)

/-- A variable as an integer, if it is set. -/
def int? (name : String) : Except ConfigError (Option Int64) :=
  match environment.requireInt name with
  | .ok n => .ok (some n)
  | .error (.missingVariable _) => .ok none
  | .error error => .error error

/-- A variable as an integer from zero on, if it is set. -/
def count? (name : String) : Except ConfigError (Option Nat) := do
  match ← environment.int? name with
  | none => pure none
  | some n =>
      if 0 ≤ n.toInt then pure (some n.toInt.toNat)
      else throw (.invalidVariable name (toString n.toInt) .nonNegativeInteger)

end Environment

end AccountPool
