/-!
# Why the operating system refuses

The reasons for which an operation on files fails, with their numbers and wording.
-/

namespace AccountPool

/-- Why an operation on a file or directory failed. -/
inductive FileCause where
  | notPermitted
  | notFound
  | permissionDenied
  | alreadyExists
  | notDirectory
  | isDirectory
  | nameTooLong
  | notText
  | nullInName
deriving DecidableEq, Repr

namespace FileCause

/-- The number of a reason; a text that cannot be decoded or handed over has none. -/
def code? : FileCause → Option Nat
  | notPermitted => some 1
  | notFound => some 2
  | permissionDenied => some 13
  | alreadyExists => some 17
  | notDirectory => some 20
  | isDirectory => some 21
  | nameTooLong => some 36
  | notText | nullInName => none

/-- The words for a reason. -/
def words : FileCause → String
  | notPermitted => "Operation not permitted"
  | notFound => "No such file or directory"
  | permissionDenied => "Permission denied"
  | alreadyExists => "File exists"
  | notDirectory => "Not a directory"
  | isDirectory => "Is a directory"
  | nameTooLong => "File name too long"
  | notText => "stream did not contain valid UTF-8"
  | nullInName => "file name contained an unexpected NUL byte"

/-- The wording of a reason, with its number if it has one. -/
def message (cause : FileCause) : String :=
  match cause.code? with
  | some code => cause.words ++ " (os error " ++ toString code ++ ")"
  | none => cause.words

end FileCause

end AccountPool
