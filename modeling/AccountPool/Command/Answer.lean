import AccountPool.Command.Invocation
import AccountPool.Command.Outcome
import AccountPool.Json.Printer
import AccountPool.Pool.Accounts
import AccountPool.Pool.Leases

/-!
# Answers to commands

Each command is a program over the pool that gives the JSON value to be printed: an entity, a list of
entities, or what was replaced. Some commands fail where there is nothing to print.
-/

namespace AccountPool

open Json (Value)
open Program (Result)

/-- A program whose result is printed. -/
abbrev Answer : Type :=
  Program (Except Failure Value)

namespace Answer

variable {α : Type} [Entity α]

/-- Print an entity. -/
def one (program : Program (Result α)) : Answer := do
  pure (((← program).map Entity.toValue).mapError .pool)

/-- Print an entity that has to be there. -/
def found (program : Program (Result (Option α))) (sought : Sought) (key : String) : Answer := do
  match ← program with
  | .ok (some entity) => pure (.ok (Entity.toValue entity))
  | .ok none => pure (.error (.notFound sought key))
  | .error error => pure (.error (.pool error))

/-- Print an entity, or null. -/
def optional (program : Program (Result (Option α))) : Answer := do
  match ← program with
  | .ok (some entity) => pure (.ok (Entity.toValue entity))
  | .ok none => pure (.ok .null)
  | .error error => pure (.error (.pool error))

/-- Print a list of entities. -/
def all (program : Program (Result (List α))) : Answer := do
  pure (((← program).map fun entities => .array (entities.map Entity.toValue)).mapError .pool)

end Answer

/-- The answer to a command about accounts. -/
def AccountCommand.answer (pool : Pool) : AccountCommand → Answer
  | list => .all pool.listAccounts
  | get id => .found (pool.getAccount id) .account id
  | ready => .found pool.firstReadyAccount .account "status Ready"
  | resetCandidates => .all pool.accountsNotReady
  | status wanted => .all (pool.accountsByStatus wanted)
  | principal roleArn => .all (pool.accountsByRole roleArn)
  | put id initial roleArn content => do
      let now ← Program.now
      Answer.optional (pool.putAccount
        { id, status := initial, roleArn, metadata := content, lastModifiedOn := now })
  | metadata id next => .one (pool.replaceMetadata id next)
  | transition id previous next => .one (pool.changeAccountStatus id previous next)
  | policyHash id previous next => .one (pool.changePolicyHash id previous next)
  | delete id => .one (pool.deleteAccount id)

/-- The answer to a command about leases. -/
def LeaseCommand.answer (pool : Pool) : LeaseCommand → Answer
  | list => .all pool.listLeases
  | get accountId principalId =>
      .found (pool.getLease accountId principalId) .lease
        (Pool.leaseKey accountId principalId).display
  | account accountId => .all (pool.leasesByAccount accountId)
  | principal principalId => .all (pool.leasesByPrincipal principalId)
  | status wanted => .all (pool.leasesByStatus wanted)
  | put accountId principalId initial => do
      let now ← Program.now
      let lease : Lease := { accountId, principalId, status := initial }
      Answer.optional (pool.putLease (lease.createdAt now))
  | transition accountId principalId previous next =>
      .one (pool.changeLeaseStatus accountId principalId previous next)
  | delete accountId principalId =>
      .found (pool.deleteLease accountId principalId) .lease
        (Pool.leaseKey accountId principalId).display

/-- The answer to a command; asking for help needs no pool. -/
def Command.answer (pool : Pool) : Command → Answer
  | help => pure (.ok .null)
  | accounts command => command.answer pool
  | leases command => command.answer pool

end AccountPool
