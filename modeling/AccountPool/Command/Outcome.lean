import AccountPool.Command.Usage
import AccountPool.Config.Error
import AccountPool.Pool.Error

/-!
# Outcomes of commands

A command ends with an exit code, text on the standard output and text on the error output. A failure
is printed as the chain of its wording and those of its causes, and its exit code tells the callers
what they may want to act upon: an absent record, a refused transition, a leased account.
-/

namespace AccountPool

/-- What a look-up finds nothing for. -/
inductive Sought where
  | account
  | lease
deriving DecidableEq, Repr

/-- The words for what is sought. -/
def Sought.words : Sought → String
  | account => "account"
  | lease => "lease"

/-- Why a command fails. -/
inductive Failure where
  | usage (error : UsageError)
  | config (error : ConfigError)
  | settings (error : ConfigError)
  /-- Nothing that is kept in memory would be there for the next command. -/
  | keepsNothing
  | unopened (path : String) (error : StoreError)
  /-- The time to wait for a busy database is out of range. -/
  | busyTimeout (milliseconds : Nat)
  | notFound (sought : Sought) (key : String)
  | pool (error : PoolError)
  /-- A scan came to no end. -/
  | endlessScan

namespace Failure

/-- The exit code that stands for a failure. -/
def code : Failure → UInt32
  | notFound .. => 2
  | pool (.accountNotFound _) => 2
  | pool (.rejected _) => 3
  | pool (.accountLeased _) => 4
  | busyTimeout _ => 101
  | _ => 1

/-- The wording of a failure and those of its causes, nearest first. -/
def chain : Failure → List String
  | usage error => [error.message]
  | config error => error.message :: error.causes
  | settings error => "invalid configuration" :: error.message :: error.causes
  | keepsNothing =>
      ["the memory backend keeps nothing between runs; configure a sqlite backend for the CLI"]
  | unopened path error =>
      ("failed to open pool database at " ++ path) :: error.message :: error.causes
  | busyTimeout milliseconds =>
      ["busy timeout of " ++ toString milliseconds ++ " milliseconds is out of range"]
  | notFound sought key => ["no " ++ sought.words ++ " found for " ++ key]
  | pool error => error.message :: error.causes
  | endlessScan => ["a scan came to no end"]

end Failure

/-- How a command ends. -/
structure Outcome where
  code : UInt32
  output : String
  errors : String
deriving DecidableEq, Repr

namespace Outcome

/-- The text of a failure on the error output. -/
def report (failure : Failure) : String :=
  "Error: " ++ ": ".intercalate failure.chain ++ "\n" ++
    (match failure with
      | .usage _ => "\n" ++ usage ++ "\n"
      | _ => "")

/-- A command prints its text, or fails. -/
def ofExcept : Except Failure String → Outcome
  | .ok text => ⟨0, text ++ "\n", ""⟩
  | .error failure => ⟨failure.code, "", report failure⟩

end Outcome

end AccountPool
