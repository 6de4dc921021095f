import AccountPool.Json.Value
import AccountPool.Text.Quoted

/-!
# What can be wrong with a JSON document

A document can be malformed, or well-formed and not of the expected shape. Either way the fault has
a reason and, when it was found in a text, the place at which the reader stood. `Fault.message` is
the wording.
-/

namespace AccountPool.Json

/-- What stood where something else was expected. -/
inductive Seen where
  | null
  | bool (b : Bool)
  | number (n : Number)
  | string (s : String)
  | sequence
  | map

namespace Seen

/-- What a value is seen as. -/
def ofValue : Value → Seen
  | .null => .null
  | .bool b => .bool b
  | .number n => .number n
  | .string s => .string s
  | .array _ => .sequence
  | .object _ => .map

/-- The words for what was seen. -/
def words : Seen → String
  | .null => "null"
  | .bool b => "boolean `" ++ (if b then "true" else "false") ++ "`"
  | .number (.integer n) => "integer `" ++ String.ofList (Number.integer n).text ++ "`"
  | .number (.binary f) => "floating point `" ++ String.ofList (Number.binary f).text ++ "`"
  | .string s => "string " ++ Text.quoted s
  | .sequence => "sequence"
  | .map => "map"

end Seen

/-- Why a well-formed value does not have the expected shape. -/
inductive Mismatch where
  | wrongType (seen : Seen) (expected : String)
  | wrongValue (seen : Seen) (expected : String)
  | wrongLength (length : Nat) (expected : String)
  | unknownVariant (name : String) (expected : List String)
  | missingField (name : String)
  | duplicateField (name : String)

/-- The wording of a mismatch. -/
def Mismatch.message : Mismatch → String
  | .wrongType seen expected => "invalid type: " ++ seen.words ++ ", expected " ++ expected
  | .wrongValue seen expected => "invalid value: " ++ seen.words ++ ", expected " ++ expected
  | .wrongLength length expected =>
      "invalid length " ++ toString length ++ ", expected " ++ expected
  | .unknownVariant name expected =>
      "unknown variant `" ++ name ++ "`, expected one of " ++
        ", ".intercalate (expected.map fun variant => "`" ++ variant ++ "`")
  | .missingField name => "missing field `" ++ name ++ "`"
  | .duplicateField name => "duplicate field `" ++ name ++ "`"

/-- Why a text cannot be read. -/
inductive Reason where
  | endInList
  | endInObject
  | endInString
  | endInValue
  | expectedColon
  | expectedListEnd
  | expectedObjectEnd
  | expectedWord
  | expectedValue
  | invalidEscape
  | invalidNumber
  | numberOutOfRange
  | controlCharacter
  | keyNotString
  | loneSurrogate
  | unfinishedSurrogate
  | trailingComma
  | trailingCharacters
  | tooDeep
  | mismatch (m : Mismatch)

/-- The wording of a reason. -/
def Reason.message : Reason → String
  | .endInList => "EOF while parsing a list"
  | .endInObject => "EOF while parsing an object"
  | .endInString => "EOF while parsing a string"
  | .endInValue => "EOF while parsing a value"
  | .expectedColon => "expected `:`"
  | .expectedListEnd => "expected `,` or `]`"
  | .expectedObjectEnd => "expected `,` or `\x7d`"
  | .expectedWord => "expected ident"
  | .expectedValue => "expected value"
  | .invalidEscape => "invalid escape"
  | .invalidNumber => "invalid number"
  | .numberOutOfRange => "number out of range"
  | .controlCharacter =>
      "control character (\\u0000-\\u001F) found while parsing a string"
  | .keyNotString => "key must be a string"
  | .loneSurrogate => "lone leading surrogate in hex escape"
  | .unfinishedSurrogate => "unexpected end of hex escape"
  | .trailingComma => "trailing comma"
  | .trailingCharacters => "trailing characters"
  | .tooDeep => "recursion limit exceeded"
  | .mismatch m => m.message

/-- A line, counted from one, and the number of bytes read from it. -/
structure Place where
  line : Nat
  column : Nat
deriving DecidableEq, Repr

/-- The place reached after the first `offset` bytes of a text. -/
def Place.ofOffset (text : List Char) (offset : Nat) : Place :=
  go text 0 1 0
where
  /-- Walk the text: `index` is where the next character starts, `start` where its line does. -/
  go : List Char → Nat → Nat → Nat → Place
    | [], _, line, start => ⟨line, offset - start⟩
    | c :: rest, index, line, start =>
        if offset ≤ index then ⟨line, offset - start⟩
        else if c = '\n' then go rest (index + 1) (line + 1) (index + 1)
        else go rest (index + c.utf8Size) line start

/-- A reason, with the place where it was found if a text was read. -/
structure Fault where
  reason : Reason
  place : Option Place

/-- A mismatch in a value that was not read from a text. -/
def Fault.ofMismatch (m : Mismatch) : Fault :=
  ⟨.mismatch m, none⟩

/-- The wording of a fault. -/
def Fault.message (fault : Fault) : String :=
  match fault.place with
  | none => fault.reason.message
  | some place =>
      fault.reason.message ++ " at line " ++ toString place.line ++ " column " ++
        toString place.column

end AccountPool.Json
