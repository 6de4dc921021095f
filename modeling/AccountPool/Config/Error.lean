import AccountPool.Files.Cause
import AccountPool.Text.Quoted

/-!
# Errors of the configuration

Why a configuration file or a variable of the environment cannot be used.
-/

namespace AccountPool

/-- What a variable should have been. -/
inductive Expectation where
  | integer
  | nonNegativeInteger
deriving DecidableEq, Repr

/-- The words for an expectation. -/
def Expectation.words : Expectation → String
  | integer => "an integer"
  | nonNegativeInteger => "a non-negative integer"

/-- Why a configuration cannot be used. -/
inductive ConfigError where
  | unreadable (path : String) (cause : FileCause)
  | unparsable (path : String)
  | missingVariable (name : String)
  | invalidVariable (name value : String) (expectation : Expectation)
deriving DecidableEq, Repr

namespace ConfigError

/-- The file that an error is about. -/
def path? : ConfigError → Option String
  | unreadable path _ => some path
  | unparsable path => some path
  | _ => none

/-- The wording of an error. -/
def message : ConfigError → String
  | unreadable path _ => "failed to read config at " ++ path
  | unparsable path => "failed to parse config at " ++ path
  | missingVariable name => "environment variable " ++ name ++ " is not set"
  | invalidVariable name value expectation =>
      "environment variable " ++ name ++ " must be " ++ expectation.words ++ " (got " ++
        Text.quoted value ++ ")"

/-- The words for a file that is not a configuration. -/
def malformedWords : String :=
  "not a TOML document with the settings of a pool"

/-- The wordings of an error's causes, nearest first. -/
def causes : ConfigError → List String
  | unreadable _ cause => [cause.message]
  | unparsable _ => [malformedWords]
  | _ => []

end ConfigError

end AccountPool
