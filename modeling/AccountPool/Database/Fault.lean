/-!
# Faults of the database engine

Why the engine refuses to open, read or change a database. A fault has a number, whose low byte says
what kind of fault it is and whose high byte says more, a wording, and the general words for its kind.
-/

namespace AccountPool

/-- What the database engine reports. -/
inductive EngineFault where
  /-- No way to keep files has this name. -/
  | unknownFileSystem (name : String)
  /-- A file on another machine. -/
  | foreignAuthority (name : String)
  /-- An option has no such value. -/
  | unknownMode (option value : String)
  /-- An option has a value that an earlier one rules out. -/
  | refusedMode (option value : String)
  /-- The file has a newer format. -/
  | unsupportedFormat
  /-- Changes are not allowed. -/
  | readOnly
  /-- Changes that an earlier user left unfinished cannot be undone. -/
  | unfinished
  /-- No files can be made in the directory of the database. -/
  | readOnlyFolder
  | unreadable
  | unwritable
  | undeletable
  /-- The content contradicts itself. -/
  | malformed
  /-- A file that is needed cannot be opened; the name of the database is reported if it is meant. -/
  | unopenable (path : Option String)
  | notDatabase
deriving DecidableEq, Repr

namespace EngineFault

/-- The number of a fault. -/
def code : EngineFault → Nat
  | unknownFileSystem _ | foreignAuthority _ | unknownMode .. | unsupportedFormat => 1
  | refusedMode .. => 3
  | readOnly => 8
  | unfinished => 8 + 3 * 256
  | readOnlyFolder => 8 + 6 * 256
  | unreadable => 10 + 1 * 256
  | unwritable => 10 + 3 * 256
  | undeletable => 10 + 10 * 256
  | malformed => 11
  | unopenable _ => 14
  | notDatabase => 26

/-- The general words for a fault. -/
def words : EngineFault → String
  | unknownFileSystem _ | foreignAuthority _ | unknownMode .. | unsupportedFormat =>
      "SQL logic error"
  | refusedMode .. => "access permission denied"
  | readOnly | unfinished | readOnlyFolder => "attempt to write a readonly database"
  | unreadable | unwritable | undeletable => "disk I/O error"
  | malformed => "database disk image is malformed"
  | unopenable _ => "unable to open database file"
  | notDatabase => "file is not a database"

/-- The wording of a fault. -/
def message : EngineFault → String
  | unknownFileSystem name => "no such vfs: " ++ name
  | foreignAuthority name => "invalid uri authority: " ++ name
  | unknownMode option value => "no such " ++ option ++ " mode: " ++ value
  | refusedMode option value => option ++ " mode not allowed: " ++ value
  | unsupportedFormat => "unsupported file format"
  | unopenable (some path) => (unopenable none).words ++ ": " ++ path
  | fault => fault.words

/-- The wording of what caused a fault. -/
def cause (fault : EngineFault) : String :=
  "Error code " ++ toString fault.code ++ ": " ++ fault.words

end EngineFault

end AccountPool
