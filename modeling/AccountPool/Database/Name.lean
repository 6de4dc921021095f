import AccountPool.Database.Fault
import AccountPool.Text.Percent

/-!
# Names of databases

A name is the path of a file, except for a special one and for those with the scheme of files. After
the scheme come an authority, which may only be this machine, the path and options; all parts may have
percent escapes. A number sign ends the name. Options say how the file is kept, whether it may be
changed or made, and that it stays in memory. A database without a file stays in memory as well; it is
forgotten when it is closed.
-/

namespace AccountPool

/-- What may be done with the file of a database. -/
inductive FileAccess where
  | readOnly
  | readWrite
  /-- A missing file is made. -/
  | create
  /-- The database is kept in memory instead. -/
  | transient
deriving DecidableEq, Repr

namespace FileAccess

/-- The access with a name. -/
def ofName? : String → Option FileAccess
  | "ro" => some readOnly
  | "rw" => some readWrite
  | "rwc" => some create
  | "memory" => some transient
  | _ => none

/-- How much an access permits. -/
def level : FileAccess → Nat
  | readOnly => 1
  | readWrite => 2
  | create => 3
  | transient => 4

/-- An access may be replaced by one that permits no more, or by memory. -/
def admits (current next : FileAccess) : Bool :=
  next = transient || next.level ≤ current.level

end FileAccess

/-- How files are kept. -/
inductive FileSystemKind where
  | ordinary
  /-- Several users of a file cannot share memory, so there are no write-ahead logs. -/
  | unshared
  /-- Files are kept in memory. -/
  | memory
deriving DecidableEq, Repr

/-- The way to keep files that has a name. -/
def FileSystemKind.ofName? : String → Option FileSystemKind
  | "unix" | "unix-excl" => some ordinary
  | "unix-none" | "unix-dotfile" => some unshared
  | "memdb" => some memory
  | _ => none

/-- What the name of a database means. -/
structure DatabaseName where
  /-- The path of the file, empty if there is none. -/
  path : String
  access : FileAccess := .create
  files : FileSystemKind := .ordinary
  /-- Nobody else uses the file. -/
  unlocked : Bool := false
  /-- Nobody ever changes the file. -/
  immutable : Bool := false
deriving DecidableEq, Repr

namespace DatabaseName

/-- The path that stands for a database in memory. -/
def memoryPath : String := ":memory:"

/-- The database is forgotten when it is closed. -/
def isTransient (name : DatabaseName) : Bool :=
  name.path.isEmpty || name.path = memoryPath || name.access = .transient || name.files = .memory

/-- Changes may be written to a log beside the file. -/
def isLoggable (name : DatabaseName) : Bool :=
  name.files = .ordinary && !name.unlocked && !name.immutable

/-! ## Options -/

/-- The name and the value of an option. -/
def splitOption (text : List Char) : String × String :=
  (Text.unescaped (text.takeWhile (· ≠ '=')), Text.unescaped ((text.dropWhile (· ≠ '=')).drop 1))

/-- The options in a text in which ampersands separate them; those without a name do not count. -/
def splitOptions (text : List Char) : List (String × String) :=
  ((text.splitOn '&').map splitOption).filter fun option => !option.1.isEmpty

/-- Whether the value of an option switches something on: a word, or a number whose low byte is not
zero. -/
def isOn (value : String) : Bool :=
  let digits := value.toList.takeWhile Char.isDigit
  let number := Text.digitsValue digits
  if digits.isEmpty then ["on", "yes", "true"].contains (value.map Char.toLower)
  else number < 0x80000000 && number % 256 ≠ 0

/-- The first value of an option switches it on. -/
def hasSwitch (options : List (String × String)) (name : String) : Bool :=
  (options.lookup name).any isOn

/-- The access after an option. -/
def accessAfter (access : FileAccess) : String × String → Except EngineFault FileAccess
  | ("mode", value) =>
      match FileAccess.ofName? value with
      | none => .error (.unknownMode "access" value)
      | some next => if access.admits next then .ok next else .error (.refusedMode "access" value)
  | ("cache", value) =>
      if value = "shared" || value = "private" then .ok access
      else .error (.unknownMode "cache" value)
  | _ => .ok access

/-- The last way to keep files that options name. -/
def filesOf (options : List (String × String)) : Except EngineFault FileSystemKind :=
  match options.reverse.lookup "vfs" with
  | none => .ok .ordinary
  | some name =>
      match FileSystemKind.ofName? name with
      | some files => .ok files
      | none => .error (.unknownFileSystem name)

/-- The name with a path and options. -/
def ofOptions (path : String) (options : List (String × String)) :
    Except EngineFault DatabaseName := do
  let access ← options.foldlM accessAfter .create
  let files ← filesOf options
  pure { path, access, files, unlocked := hasSwitch options "nolock",
         immutable := hasSwitch options "immutable" }

/-! ## Reading -/

/-- What follows the authority, if two slashes announce one. -/
def afterAuthority : List Char → Except EngineFault (List Char)
  | '/' :: '/' :: rest =>
      let authority := rest.takeWhile (· ≠ '/')
      if authority.isEmpty || authority = "localhost".toList then .ok (rest.dropWhile (· ≠ '/'))
      else .error (.foreignAuthority (String.ofList authority))
  | rest => .ok rest

/-- The name in what follows the scheme. -/
def ofReference (reference : List Char) : Except EngineFault DatabaseName := do
  let reference ← afterAuthority reference
  let reference := reference.takeWhile (· ≠ '#')
  ofOptions (Text.unescaped (reference.takeWhile (· ≠ '?')))
    (splitOptions ((reference.dropWhile (· ≠ '?')).drop 1))

/-- What a name means. -/
def parse (text : String) : Except EngineFault DatabaseName :=
  match text.toList with
  | 'f' :: 'i' :: 'l' :: 'e' :: ':' :: reference => ofReference reference
  | _ => .ok { path := text }

end DatabaseName

end AccountPool
