import AccountPool.Json.Value

/-!
# Printing JSON

The compact text of a value, without blanks, and the indented text, two blanks a level and one
member or item a line. Both print members in the order in which the object lists them.
-/

namespace AccountPool.Json

/-- Four hexadecimal digits of a number below `2 ^ 16`. -/
def fourHexDigits (n : Nat) : List Char :=
  let digits := Nat.toDigits 16 n
  List.replicate (4 - digits.length) '0' ++ digits

/-- How one character is written inside a string: only quotes, backslashes and control characters
are escaped. -/
def escapedChar (c : Char) : List Char :=
  if c = '"' then ['\\', '"']
  else if c = '\\' then ['\\', '\\']
  else if c = '\n' then ['\\', 'n']
  else if c = '\r' then ['\\', 'r']
  else if c = '\t' then ['\\', 't']
  else if c.toNat = 0x8 then ['\\', 'b']
  else if c.toNat = 0xC then ['\\', 'f']
  else if c.toNat < 0x20 then '\\' :: 'u' :: fourHexDigits c.toNat
  else [c]

/-- A text as a JSON string. -/
def stringText (s : String) : List Char :=
  '"' :: s.toList.flatMap escapedChar ++ ['"']

namespace Value

mutual

/-- The compact text of a value. -/
def compactChars : Value → List Char
  | .null => "null".toList
  | .bool true => "true".toList
  | .bool false => "false".toList
  | .number n => n.text
  | .string s => stringText s
  | .array items => '[' :: compactItems items ++ [']']
  | .object members => '\x7b' :: compactMembers members ++ ['\x7d']

/-- The items of an array with commas between them. -/
def compactItems : List Value → List Char
  | [] => []
  | [item] => compactChars item
  | item :: items => compactChars item ++ ',' :: compactItems items

/-- The members of an object with commas between them. -/
def compactMembers : List (String × Value) → List Char
  | [] => []
  | [(key, value)] => stringText key ++ ':' :: compactChars value
  | (key, value) :: members =>
      stringText key ++ ':' :: compactChars value ++ ',' :: compactMembers members

end

/-- The compact text of a value. -/
def compact (value : Value) : String :=
  String.ofList value.compactChars

/-- A line break and the indentation of a level. -/
def newLine (level : Nat) : List Char :=
  '\n' :: List.replicate (2 * level) ' '

mutual

/-- The indented text of a value that stands at a level. -/
def indentedChars (level : Nat) : Value → List Char
  | .array [] => ['[', ']']
  | .array items => '[' :: indentedItems (level + 1) items ++ newLine level ++ [']']
  | .object [] => ['\x7b', '\x7d']
  | .object members =>
      '\x7b' :: indentedMembers (level + 1) members ++ newLine level ++ ['\x7d']
  | .null => "null".toList
  | .bool true => "true".toList
  | .bool false => "false".toList
  | .number n => n.text
  | .string s => stringText s

/-- The items of an array, each on a line of its own. -/
def indentedItems (level : Nat) : List Value → List Char
  | [] => []
  | [item] => newLine level ++ indentedChars level item
  | item :: items => newLine level ++ indentedChars level item ++ ',' :: indentedItems level items

/-- The members of an object, each on a line of its own. -/
def indentedMembers (level : Nat) : List (String × Value) → List Char
  | [] => []
  | [(key, value)] => newLine level ++ stringText key ++ ':' :: ' ' :: indentedChars level value
  | (key, value) :: members =>
      newLine level ++ stringText key ++ ':' :: ' ' :: indentedChars level value ++
        ',' :: indentedMembers level members

end

/-- The indented text of a value. -/
def indented (value : Value) : String :=
  String.ofList (value.indentedChars 0)

end Value

end AccountPool.Json
