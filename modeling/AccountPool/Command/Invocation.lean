import AccountPool.Entity.Account
import AccountPool.Entity.Lease

/-!
# Commands

What an operator can ask for on the command line.
-/

namespace AccountPool

/-- A command about accounts. -/
inductive AccountCommand where
  | list
  | get (id : String)
  | ready
  | resetCandidates
  | status (status : AccountStatus)
  | principal (roleArn : String)
  | put (id : String) (status : AccountStatus) (roleArn : Option String) (metadata : Json.Members)
  | metadata (id : String) (metadata : Json.Members)
  | transition (id : String) (previous next : AccountStatus)
  | policyHash (id : String) (previous : Option String) (next : String)
  | delete (id : String)

/-- A command about leases. -/
inductive LeaseCommand where
  | list
  | get (accountId principalId : String)
  | account (accountId : String)
  | principal (principalId : String)
  | status (status : LeaseStatus)
  | put (accountId principalId : String) (status : LeaseStatus)
  | transition (accountId principalId : String) (previous next : LeaseStatus)
  | delete (accountId principalId : String)
deriving DecidableEq

/-- A command. -/
inductive Command where
  | help
  | accounts (command : AccountCommand)
  | leases (command : LeaseCommand)

/-- A command and the configuration file that it names. -/
structure Invocation where
  config : Option String := none
  command : Command

end AccountPool
