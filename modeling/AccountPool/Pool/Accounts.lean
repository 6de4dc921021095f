import AccountPool.Pool.Transition

/-!
# Operations on accounts

Reading, listing, writing and removing accounts. The status changes only by a transition that names
the expected one, and an account is not removed while it is leased.
-/

namespace AccountPool.Pool

open Json (Value)
open Program (Result)

/-- The key of an account. -/
def accountKey (id : String) : Key :=
  ⟨id, none⟩

/-- The account with an identifier. -/
def getAccount (pool : Pool) (id : String) : Program (Result (Option Account)) :=
  get pool.accounts (accountKey id)

/-- All accounts. -/
def listAccounts (pool : Pool) : Program (Result (List Account)) :=
  scanWhere pool pool.accounts fun _ => true

/-- The accounts in a status. -/
def accountsByStatus (pool : Pool) (status : AccountStatus) : Program (Result (List Account)) :=
  findBy pool pool.accounts Account.statusName status.name

/-- Some account that is ready. -/
def firstReadyAccount (pool : Pool) : Program (Result (Option Account)) := do
  let found ← accountsByStatus pool .ready
  pure (found.map List.head?)

/-- The accounts that are not ready. -/
def accountsNotReady (pool : Pool) : Program (Result (List Account)) :=
  scanWhere pool pool.accounts fun record =>
    !record.holds Account.statusName (.string AccountStatus.ready.name)

/-- The accounts handed out to a principal role. -/
def accountsByRole (pool : Pool) (roleArn : String) : Program (Result (List Account)) :=
  findBy pool pool.accounts Account.roleArnName roleArn

/-- File an account, whatever was there, and give the account that it replaces. -/
def putAccount (pool : Pool) (account : Account) : Program (Result (Option Account)) :=
  put pool.accounts account

/-- The account after its metadata was replaced, or why it was not. -/
def settleMetadata (pool : Pool) (id : String) : Except StoreError Record → Result Account
  | .ok record => decode pool.accounts record
  | .error (.conditionFailed _) => .error (.accountNotFound id)
  | .error error => .error (.store error)

/-- Replace the metadata of an account. -/
def replaceMetadata (pool : Pool) (id : String) (metadata : Json.Members) :
    Program (Result Account) :=
  .clock fun now =>
    .call (.update pool.accounts (accountKey id)
      [(Account.metadataName, .ofMembers metadata), (Account.lastModifiedOnName, .int64 now)]
      (some [.present])) fun answer => .done (settleMetadata pool id answer)

/-- The change of an account from one status to another. -/
def accountStatusChange (id : String) (previous next : AccountStatus) : Transition where
  rejection := ⟨"account", "status", "account " ++ id, "Status", some previous.name, next.name⟩
  name := Account.statusName
  stamps := [Account.lastModifiedOnName]

/-- Move an account from one status to another, if it is in the former. -/
def changeAccountStatus (pool : Pool) (id : String) (previous next : AccountStatus) :
    Program (Result Account) :=
  (accountStatusChange id previous next).apply pool.accounts (accountKey id)

/-- The change of an account's policy hash; without a previous one there must be none. -/
def policyHashChange (id : String) (previous : Option String) (next : String) : Transition where
  rejection :=
    ⟨"account", "policy hash", "account " ++ id, Account.policyHashName, previous, next⟩
  name := Account.policyHashName
  stamps := [Account.lastModifiedOnName]

/-- Replace the policy hash of an account, if it is the expected one. -/
def changePolicyHash (pool : Pool) (id : String) (previous : Option String) (next : String) :
    Program (Result Account) :=
  (policyHashChange id previous next).apply pool.accounts (accountKey id)

/-- There is a record, and its account is not leased. -/
def removalGuard : Condition :=
  [.present, .notEquals Account.statusName (.string AccountStatus.leased.name)]

/-- Try to remove an account. After a refusal the account is read to tell why; if it is neither
absent nor leased any more, it is tried again while attempts are left. -/
def deleteAccount (pool : Pool) (id : String) (attempts : Nat := 2) : Program (Result Account) :=
  match attempts with
  | 0 => .done (.error (.store (.conditionFailed pool.accounts.name)))
  | attempts + 1 =>
      .call (.delete pool.accounts (accountKey id) (some removalGuard)) fun answer =>
        match answer with
        | .ok (some removed) => .done (decode pool.accounts removed)
        | .ok none => .done (.error (.accountNotFound id))
        | .error (.conditionFailed _) => do
            match ← getAccount pool id with
            | .error error => .done (.error error)
            | .ok none => .done (.error (.accountNotFound id))
            | .ok (some account) =>
                if account.isLeased then .done (.error (.accountLeased account))
                else deleteAccount pool id attempts
        | .error error => .done (.error (.store error))

end AccountPool.Pool
