import AccountPool.Entity.Shape

/-!
# Entities as lists of fields

An entity is described by its fields in order of declaration, each with a name, a shape and possibly
a default. From the description follow the members that are written and the two accepted forms: an
object, in which unknown members are ignored and their order does not matter, and an array of the
fields in order of declaration.
-/

namespace AccountPool

open Json (Value Members Mismatch Reader)

/-- A field of an entity. A field with a default may be missing. -/
structure Field where
  name : String
  shape : Shape
  default? : Option shape.Carrier

namespace Field

/-- One value for each of a list of fields. -/
abbrev Values : List Field → Type
  | [] => Unit
  | field :: fields => field.shape.Carrier × Values fields

/-- The values of a list of fields that were found so far. -/
abbrev Draft : List Field → Type
  | [] => Unit
  | field :: fields => Option field.shape.Carrier × Draft fields

/-- The members written for a list of fields, in order of declaration. -/
def members : (fields : List Field) → Values fields → List (String × Value)
  | [], () => []
  | field :: fields, (value, values) =>
      match field.shape.encode value with
      | some written => (field.name, written) :: members fields values
      | none => members fields values

/-- No value was found yet. -/
def blank : (fields : List Field) → Draft fields
  | [] => ()
  | _ :: fields => (none, blank fields)

/-- The default of a field, if it may be missing. -/
def orDefault (field : Field) : Except Mismatch field.shape.Carrier :=
  match field.default? with
  | some value => .ok value
  | none => .error (.missingField field.name)

/-- The values of a draft, with defaults for what was not found; the first missing field without a
default is reported. -/
def complete : (fields : List Field) → Draft fields → Except Mismatch (Values fields)
  | [], () => .ok ()
  | field :: fields, (found, draft) => do
      let value ← (match found with
        | some value => .ok value
        | none => field.orDefault)
      let values ← complete fields draft
      pure (value, values)

/-! ## Reading values -/

/-- Take over one member; a member that is no field is ignored. -/
def assign : (fields : List Field) → Draft fields → String → Value → Except Mismatch (Draft fields)
  | [], (), _, _ => .ok ()
  | field :: fields, (found, draft), name, value =>
      if name = field.name then (field.shape.decode value).map fun value => (some value, draft)
      else (assign fields draft name value).map fun draft => (found, draft)

/-- The values in the members of an object, which are taken over in order. -/
def ofMembers (fields : List Field) (members : List (String × Value)) :
    Except Mismatch (Values fields) := do
  let draft ← members.foldlM (fun draft (name, value) => assign fields draft name value)
    (blank fields)
  complete fields draft

/-- The values in the items of an array; `size` is the length of the array and `index` the number of
items used. -/
def ofItems (expected : String) (size : Nat) :
    (fields : List Field) → Nat → List Value → Except Mismatch (Values fields)
  | [], _, [] => .ok ()
  | [], _, _ :: _ => .error (.wrongLength size "fewer elements in array")
  | field :: fields, index, value :: items => do
      let value ← field.shape.decode value
      let values ← ofItems expected size fields (index + 1) items
      pure (value, values)
  | field :: fields, index, [] => do
      let value ← (match field.default? with
        | some value => .ok value
        | none => .error (.wrongLength index expected))
      let values ← ofItems expected size fields (index + 1) []
      pure (value, values)

/-! ## Reading texts -/

open Json.Reader Shape

/-- Stop at a member that repeats a field. The object is closed first if it ends here. -/
def stopDuplicate (name : String) : Reader α := do
  if (← peekToken) == some '\x7d' then skip
  stopMismatch (.duplicateField name)

/-- Read the member whose key is consumed; a member that is no field is skipped. -/
def readMember : (fields : List Field) → Draft fields → String → Reader (Draft fields)
  | [], (), _ => do
      colon
      ignoredValue
  | field :: fields, (found, draft), name =>
      if name = field.name then
        if found.isSome then stopDuplicate field.name
        else do
          colon
          let value ← field.shape.read
          pure (some value, draft)
      else do
        let draft ← readMember fields draft name
        pure (found, draft)

/-- Read the members of an object whose opening brace is consumed. -/
def readObject (fields : List Field) : Reader (Values fields) := do
  let draft ← loop (fun ((first, draft) : Bool × Draft fields) => do
    match ← key? first with
    | none => do
        skip
        pure (.inr draft)
    | some name => do
        let draft ← readMember fields draft name
        pure (.inl (false, draft))) (true, blank fields)
  orStop (complete fields draft)

/-- Read the items of an array whose opening bracket is consumed, up to its end. -/
def readItems (expected : String) : (fields : List Field) → Nat → Reader (Values fields)
  | [], _ => listEnd
  | field :: fields, index => do
      if ← hasItem (index == 0) then do
        let value ← field.shape.read
        let values ← readItems expected fields (index + 1)
        pure (value, values)
      else
        match field.default? with
        | some value => do
            let values ← readItems expected fields (index + 1)
            pure (value, values)
        | none => do
            listEnd
            stopMismatch (.wrongLength index expected)

end Field

/-- A type whose values are written as the fields of a record. -/
class Entity (α : Type) where
  /-- The words for the type in messages. -/
  title : String
  /-- The fields in order of declaration. -/
  fields : List Field
  /-- The values of the fields. -/
  values : α → Field.Values fields
  /-- The entity with the given values. -/
  ofValues : Field.Values fields → α
  ofValues_values : ∀ entity : α, ofValues (values entity) = entity
  values_ofValues : ∀ found : Field.Values fields, values (ofValues found) = found

namespace Entity

variable {α : Type} [Entity α]

/-- The members written for an entity, in order of declaration. -/
def members (entity : α) : List (String × Value) :=
  Field.members (fields α) (values entity)

/-- An entity as an object with its members in order of declaration. -/
def toValue (entity : α) : Value :=
  .object (members entity)

/-- What an array of another length should have been. -/
def arrayWords (α : Type) [Entity α] : String :=
  title α ++ " with " ++ toString (fields α).length ++ " elements"

/-- The entity that a value denotes. -/
def decode : Value → Except Mismatch α
  | .object members => ofValues <$> Field.ofMembers (fields α) members
  | .array items => ofValues <$> Field.ofItems (arrayWords α) items.length (fields α) 0 items
  | value => .error (Shape.wrongType value (title α))

open Json.Reader in
/-- Read an entity from a text. -/
def read : Reader α :=
  Shape.readExpecting (fun c => c == '[' || c == '\x7b') (title α) fun c => do
    skip
    if c = '[' then ofValues <$> Field.readItems (arrayWords α) (fields α) 0
    else ofValues <$> Field.readObject (fields α)

/-- The entity that a text denotes. -/
def parse (text : String) : Except Json.Fault α :=
  Json.Reader.readAll read text

end Entity

end AccountPool
