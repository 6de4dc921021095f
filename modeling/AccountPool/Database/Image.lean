import AccountPool.Database.Fault

/-!
# Database images

A file that holds a database starts with a header of one hundred bytes: a mark, the size of a page,
the versions that a reader and a writer have to know, fixed fractions, the number of pages and the
format of the tables. The description of the tables follows on the first page. An image here describes
no tables.
-/

namespace AccountPool

/-- What the header of a database without tables says. -/
structure DatabaseImage where
  /-- Changes are written to a log. -/
  logged : Bool
  /-- The format is not too new to be written. -/
  writable : Bool
  /-- More pages are said to be free than there are. -/
  overspent : Bool
deriving DecidableEq, Repr

namespace DatabaseImage

/-- The text that every database starts with. -/
def mark : String := "SQLite format 3\x00"

/-- The sizes that a page may have. -/
def pageSizes : List Nat := [512, 1024, 2048, 4096, 8192, 16384, 32768, 65536]

/-- The part of a page that has to be left for content. -/
def minUsableSize : Nat := 480

/-- The newest format of tables. -/
def maxFormat : Nat := 4

/-- The byte at an offset, zero behind the end. -/
def byte (bytes : ByteArray) (offset : Nat) : Nat :=
  (bytes.data[offset]?.map UInt8.toNat).getD 0

/-- The bytes at offsets, as one number, most significant byte first. -/
def number (bytes : ByteArray) (offset length : Nat) : Nat :=
  (List.range length).foldl (fun value index => 256 * value + byte bytes (offset + index)) 0

/-- A text starts like a database, and its reader has to know the log or not. -/
def isLogged (text : String) : Except EngineFault Bool :=
  let version := byte text.toUTF8 19
  if !text.startsWith mark || 2 < version then .error .notDatabase else .ok (version = 2)

/-- The size of a page. -/
def pageSize (bytes : ByteArray) : Nat :=
  256 * byte bytes 16 + 65536 * byte bytes 17

/-- The number of pages of a file. -/
def filePages (bytes : ByteArray) : Nat :=
  (bytes.size + pageSize bytes - 1) / pageSize bytes

/-- The number of pages that the header states, unless it is out of date. -/
def pages (bytes : ByteArray) : Nat :=
  let stated := number bytes 28 4
  if stated = 0 || number bytes 24 4 ≠ number bytes 92 4 then filePages bytes else stated

/-- The image in a text. -/
def read (text : String) : Except EngineFault DatabaseImage := do
  let logged ← isLogged text
  let bytes := text.toUTF8
  if number bytes 21 3 ≠ 0x402020 || !pageSizes.contains (pageSize bytes) then throw .notDatabase
  else if filePages bytes < pages bytes then throw .malformed
  else if pageSize bytes < minUsableSize + byte bytes 20 then throw .notDatabase
  else if maxFormat < byte bytes 47 then throw .unsupportedFormat
  else if byte bytes 100 ≠ 13 || number bytes 103 2 ≠ 0 then throw .malformed
  else pure ⟨logged, byte bytes 18 ≤ 2, 0 < number bytes 36 4 && pages bytes ≤ number bytes 36 4⟩

/-- A text with other characters from a position on. -/
def overwrite (text : List Char) (position : Nat) (bytes : List Nat) : List Char :=
  text.take position ++ bytes.map Char.ofNat ++ text.drop (position + bytes.length)

/-- The text of an image after it was changed to use a log. -/
def withLog (text : String) : String :=
  String.ofList (overwrite text.toList 18 [2, 2])

/-- The text of a new image that uses a log. -/
def fresh : String :=
  let page := mark.toList ++ List.replicate (4096 - mark.length) (Char.ofNat 0)
  let page := overwrite page 16 [16, 0, 2, 2, 0, 64, 32, 32, 0, 0, 0, 1, 0, 0, 0, 1]
  let page := overwrite page 92 [0, 0, 0, 1]
  String.ofList (overwrite page 100 [13, 0, 0, 0, 0, 16, 0])

end DatabaseImage

end AccountPool
