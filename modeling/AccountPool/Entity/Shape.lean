import AccountPool.Json.Document
import AccountPool.Json.Ignored
import AccountPool.Status

/-!
# Shapes of fields

A field of an entity holds a text, an optional text, a status, a timestamp or a map of metadata.
Each shape says how its values are written as JSON, which JSON values are read back, and how they
are read from a text. An absent optional text and empty metadata are not written at all.
-/

namespace AccountPool

open Json (Value Members Mismatch Seen Reader)

/-- What a field of an entity holds. -/
inductive Shape where
  | text
  | optionalText
  | accountStatus
  | leaseStatus
  | timestamp
  | metadata
deriving DecidableEq, Repr

namespace Shape

/-- The values of a shape. -/
abbrev Carrier : Shape → Type
  | text => String
  | optionalText => Option String
  | accountStatus => AccountStatus
  | leaseStatus => LeaseStatus
  | timestamp => Int64
  | metadata => Members

/-! ## Writing -/

/-- The JSON value written for a field, unless the field is left out. -/
def encode : (shape : Shape) → shape.Carrier → Option Value
  | text, s => some (.string s)
  | optionalText, s => s.map .string
  | accountStatus, status => some (.string status.name)
  | leaseStatus, status => some (.string status.name)
  | timestamp, n => some (.int64 n)
  | metadata, members => if members.isEmpty then none else some (.ofMembers members)

/-! ## Reading values -/

/-- A value of another type than the expected one. -/
def wrongType (value : Value) (expected : String) : Mismatch :=
  .wrongType (.ofValue value) expected

/-- A text. -/
def decodeText : Value → Except Mismatch String
  | .string s => .ok s
  | value => .error (wrongType value "a string")

/-- A status by its name. -/
def statusNamed {α : Type} [Status α] (name : String) : Except Mismatch α :=
  match Status.parse? name with
  | some status => .ok status
  | none => .error (.unknownVariant name (Status.names α))

/-- A status: its name, or a map from its name to null. -/
def decodeStatus {α : Type} [Status α] : Value → Except Mismatch α
  | .string name => statusNamed name
  | .object [(name, payload)] => do
      let status ← statusNamed name
      match payload with
      | .null => pure status
      | other => throw (wrongType other "unit")
  | .object _ => .error (.wrongValue .map "map with a single key")
  | value => .error (wrongType value "string or map")

/-- A signed 64-bit integer as a number. -/
def timestampOf (n : Json.Number) : Except Mismatch Int64 :=
  match n with
  | .integer wide =>
      match wide.toInt64? with
      | some n => .ok n
      | none => .error (.wrongValue (.number n) "i64")
  | .binary _ => .error (.wrongType (.number n) "i64")

/-- A signed 64-bit integer. -/
def decodeTimestamp : Value → Except Mismatch Int64
  | .number n => timestampOf n
  | value => .error (wrongType value "i64")

/-- A map of metadata. -/
def decodeMetadata : Value → Except Mismatch Members
  | .object members => .ok (.ofList members)
  | value => .error (wrongType value "a map")

/-- The value of a field of the given shape. -/
def decode : (shape : Shape) → Value → Except Mismatch shape.Carrier
  | text, value => decodeText value
  | optionalText, .null => .ok none
  | optionalText, value => some <$> decodeText value
  | accountStatus, value => decodeStatus value
  | leaseStatus, value => decodeStatus value
  | timestamp, value => decodeTimestamp value
  | metadata, value => decodeMetadata value

/-! ## Reading texts -/

open Json.Reader

/-- Stop at a value of another type than the expected one. Scalars are read first, so that the
reason can show them. -/
def readWrongType (expected : String) : Reader α := do
  match ← peek with
  | none => stopAfter .expectedValue
  | some c =>
      if c = 'n' then do
        word ['n', 'u', 'l', 'l']
        stopMismatch (.wrongType .null expected)
      else if c = 't' then do
        word ['t', 'r', 'u', 'e']
        stopMismatch (.wrongType (.bool true) expected)
      else if c = 'f' then do
        word ['f', 'a', 'l', 's', 'e']
        stopMismatch (.wrongType (.bool false) expected)
      else if startsNumber c then do
        let n ← number c
        stopMismatch (.wrongType (.number n) expected)
      else if c = '"' then do
        skip
        let s ← stringTail
        stopMismatch (.wrongType (.string s) expected)
      else if c = '[' then stopMismatch (.wrongType .sequence expected)
      else if c = '\x7b' then stopMismatch (.wrongType .map expected)
      else stopAfter .expectedValue

/-- A token that starts with an accepted character; another value has the wrong type. -/
def readExpecting (accepts : Char → Bool) (expected : String) (token : Char → Reader α) :
    Reader α := do
  match ← peekToken with
  | none => stop .endInValue
  | some c => if accepts c then token c else readWrongType expected

/-- A text. -/
def readText (expected : String) : Reader String :=
  readExpecting (· == '"') expected fun _ => do
    skip
    stringTail

/-- A text or null. -/
def readOptionalText : Reader (Option String) := do
  match ← peekToken with
  | some 'n' => do
      word ['n', 'u', 'l', 'l']
      pure none
  | _ => some <$> readText "a string"

/-- Stop at the cursor if a value does not have the expected shape. -/
def orStop : Except Mismatch α → Reader α
  | .ok value => pure value
  | .error m => stopMismatch m

/-- The name of a status whose opening quote comes next. -/
def readStatusName {α : Type} [Status α] : Reader α := do
  skip
  orStop (statusNamed (← stringTail))

/-- The only key of a map, which names a status. -/
def readStatusKey {α : Type} [Status α] : Reader α := do
  match ← peekToken with
  | none => stop .endInObject
  | some c =>
      if c = '"' then readStatusName
      else if c = '\x7d' then stopAfter .expectedValue
      else stopAfter .keyNotString

/-- Null, where nothing else carries information. -/
def readUnit : Reader Unit :=
  readExpecting (· == 'n') "unit" fun _ => word ['n', 'u', 'l', 'l']

/-- A status: its name, or a map from its name to null. -/
def readStatus {α : Type} [Status α] : Reader α := do
  match ← peekToken with
  | none => stop .endInValue
  | some c =>
      if c = '"' then readStatusName
      else if c = '\x7b' then do
        skip
        let status ← readStatusKey
        colon
        readUnit
        match ← peekToken with
        | none => stop .endInObject
        | some c =>
            if c = '\x7d' then do
              skip
              pure status
            else stop .expectedValue
      else stopAfter .expectedValue

/-- A signed 64-bit integer. -/
def readTimestamp : Reader Int64 :=
  readExpecting startsNumber "i64" fun c => do
    orStop (timestampOf (← number c))

/-- A map of metadata inside an entity; the entity and the map are two levels of the document. -/
def readMetadata : Reader Members :=
  readExpecting (· == '\x7b') "a map" fun _ => do
    skip
    members (value (maxDepth - 2))

/-- A field of the given shape. -/
def read : (shape : Shape) → Reader shape.Carrier
  | text => readText "a string"
  | optionalText => readOptionalText
  | accountStatus => readStatus
  | leaseStatus => readStatus
  | timestamp => readTimestamp
  | metadata => readMetadata

end Shape

end AccountPool
