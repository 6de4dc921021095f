import AccountPool.Command.Invocation
import AccountPool.Command.Usage
import AccountPool.Json.Document

/-!
# Reading command lines

Arguments are read from left to right, and the first one that does not fit is reported. Options in
front name the configuration file; asking for help wins over all that follows. Then come the group,
the command and its operands, and nothing may follow them.
-/

namespace AccountPool

/-- A function that consumes arguments and gives a value, or says why it cannot. -/
abbrev Arguments (α : Type) := StateT (List String) (Except UsageError) α

namespace Arguments

variable {α : Type}

/-- Refuse the arguments. -/
def refuse (error : UsageError) : Arguments α :=
  fun _ => .error error

/-- The next argument, which has to be there. -/
def operand (operand : Operand) : Arguments String
  | [] => .error (.missing operand)
  | argument :: rest => .ok (argument, rest)

/-- The next argument as a status. -/
def status [Status α] (expected : Operand) : Arguments α := do
  let name ← operand expected
  match Status.parse name with
  | .ok status => pure status
  | .error error => refuse (.status error)

/-- The metadata that a text denotes. -/
def parseMetadata (text : String) : Except UsageError Json.Members :=
  match Json.Value.parse text with
  | .ok (.object members) => .ok (.ofList members)
  | .ok value => .error (.otherMetadata value)
  | .error fault => .error (.malformedMetadata fault)

/-- The next argument as metadata. -/
def metadata : Arguments Json.Members := do
  let text ← operand .metadata
  match parseMetadata text with
  | .ok metadata => pure metadata
  | .error error => refuse error

/-- The options of a new account; of several ones of a kind, the last one counts. -/
def accountOptions (roleArn : Option String) (metadata : Json.Members) :
    List String → Except UsageError (Option String × Json.Members)
  | [] => .ok (roleArn, metadata)
  | "--role-arn" :: [] => .error (.missing .roleArn)
  | "--role-arn" :: value :: rest => accountOptions (some value) metadata rest
  | "--metadata" :: [] => .error (.missing .metadata)
  | "--metadata" :: value :: rest => do
      let metadata ← parseMetadata value
      accountOptions roleArn metadata rest
  | argument :: _ => .error (.unexpected argument)

/-- The option that names the policy hash to be replaced. -/
def previousHash : Arguments (Option String)
  | [] => .ok (none, [])
  | "--from" :: [] => .error (.missing .previousHash)
  | "--from" :: value :: rest => .ok (some value, rest)
  | argument :: _ => .error (.unexpected argument)

/-- A command about accounts. -/
def accountCommand : Arguments AccountCommand := do
  let name ← operand .accountsCommand
  match name with
  | "list" => pure .list
  | "get" => .get <$> operand .accountId
  | "ready" => pure .ready
  | "reset-candidates" => pure .resetCandidates
  | "status" => .status <$> status .status
  | "principal" => .principal <$> operand .principalRoleArn
  | "put" => do
      let id ← operand .accountId
      let status ← status .status
      let (roleArn, metadata) ←
        (fun rest => (accountOptions none {} rest).map (·, []) :
          Arguments (Option String × Json.Members))
      pure (.put id status roleArn metadata)
  | "metadata" => .metadata <$> operand .accountId <*> metadata
  | "transition" =>
      .transition <$> operand .accountId <*> status .previousStatus <*> status .nextStatus
  | "policy-hash" => do
      let id ← operand .accountId
      let next ← operand .nextHash
      let previous ← previousHash
      pure (.policyHash id previous next)
  | "delete" => .delete <$> operand .accountId
  | _ => refuse (.unknownCommand name)

/-- A command about leases. -/
def leaseCommand : Arguments LeaseCommand := do
  let name ← operand .leasesCommand
  match name with
  | "list" => pure .list
  | "get" => .get <$> operand .accountId <*> operand .principalId
  | "account" => .account <$> operand .accountId
  | "principal" => .principal <$> operand .principalId
  | "status" => .status <$> status .status
  | "put" => .put <$> operand .accountId <*> operand .principalId <*> status .status
  | "transition" =>
      .transition <$> operand .accountId <*> operand .principalId <*> status .previousStatus <*>
        status .nextStatus
  | "delete" => .delete <$> operand .accountId <*> operand .principalId
  | _ => refuse (.unknownCommand name)

/-- No argument is left. -/
def finish : Arguments Unit
  | [] => .ok ((), [])
  | argument :: _ => .error (.unexpected argument)

/-- The command of a group, up to the end of the arguments. -/
def command (group : String) : Arguments Command := do
  let command ← (match group with
    | "accounts" => .accounts <$> accountCommand
    | "leases" => .leases <$> leaseCommand
    | _ => refuse (.unknownCommand group))
  finish
  pure command

/-- The options in front of a command, and the command. -/
def invocation (config : Option String) : List String → Except UsageError Invocation
  | [] => .error (.missing .group)
  | "--config" :: [] => .error (.missing .configPath)
  | "--config" :: path :: rest => invocation (some path) rest
  | "-h" :: _ | "--help" :: _ | "help" :: _ => .ok ⟨config, .help⟩
  | group :: rest => do
      let (command, _) ← command group rest
      pure ⟨config, command⟩

end Arguments

/-- The invocation that a list of arguments names. -/
def Invocation.parse (arguments : List String) : Except UsageError Invocation :=
  Arguments.invocation none arguments

end AccountPool
