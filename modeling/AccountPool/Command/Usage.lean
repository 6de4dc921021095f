import AccountPool.Json.Fault
import AccountPool.Json.Printer
import AccountPool.Status

/-!
# Errors of usage

Why a command line names no command, and the text that says how to use the command line.
-/

namespace AccountPool

/-- What an argument stands for. -/
inductive Operand where
  | group
  | configPath
  | accountsCommand
  | leasesCommand
  | accountId
  | principalId
  | principalRoleArn
  | status
  | previousStatus
  | nextStatus
  | roleArn
  | metadata
  | previousHash
  | nextHash
deriving DecidableEq, Repr

/-- The words for what an argument stands for. -/
def Operand.words : Operand → String
  | group => "command group"
  | configPath => "config path"
  | accountsCommand => "accounts command"
  | leasesCommand => "leases command"
  | accountId => "account id"
  | principalId => "principal id"
  | principalRoleArn => "principal role arn"
  | status => "status"
  | previousStatus => "from status"
  | nextStatus => "to status"
  | roleArn => "role arn"
  | metadata => "metadata"
  | previousHash => "previous hash"
  | nextHash => "next hash"

/-- Why a command line names no command. -/
inductive UsageError where
  | missing (operand : Operand)
  | unexpected (argument : String)
  | unknownCommand (name : String)
  | status (error : StatusError)
  | malformedMetadata (fault : Json.Fault)
  | otherMetadata (value : Json.Value)

/-- The wording of an error. -/
def UsageError.message : UsageError → String
  | missing operand => "missing " ++ operand.words
  | unexpected argument => "unexpected argument '" ++ argument ++ "'"
  | unknownCommand name => "unknown command '" ++ name ++ "'"
  | status error => error.message
  | malformedMetadata fault => "metadata must be a JSON object: " ++ fault.message
  | otherMetadata value => "metadata must be a JSON object: got " ++ value.compact

/-- How to use the command line. -/
def usage : String := "\n".intercalate [
  "usage: sandpool [--config PATH] <accounts|leases> <command> [args]",
  "",
  "accounts:",
  "  list                              every account",
  "  get <id>                          one account",
  "  ready                             some Ready account",
  "  reset-candidates                  accounts that are not Ready",
  "  status <status>                   accounts in a status",
  "  principal <role-arn>              accounts leased to a principal role",
  "  put <id> <status> [--role-arn ARN] [--metadata JSON]",
  "  metadata <id> <json>              replace metadata",
  "  transition <id> <from> <to>       guarded status change",
  "  policy-hash <id> <next> [--from PREV]",
  "  delete <id>                       delete unless leased",
  "",
  "leases:",
  "  list",
  "  get <account> <principal>",
  "  account <account>",
  "  principal <principal>",
  "  status <status>",
  "  put <account> <principal> <status>",
  "  transition <account> <principal> <from> <to>",
  "  delete <account> <principal>",
  "",
  "exit codes: 0 ok, 1 usage or other error, 2 not found,",
  "            3 transition rejected, 4 account leased"]

end AccountPool
