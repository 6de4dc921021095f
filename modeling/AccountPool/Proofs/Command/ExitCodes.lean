import AccountPool.Proofs.Command.Operations
import AccountPool.Proofs.Pool.Shows

/-!
# Exit codes of commands

Which accounts and leases a database gives back decides how a command ends: what it asks for is absent, the
entity that it changes does not have the expected value, the account that it removes is leased, or it is
done. `Command.endsWith` says that the result of its operation has the exit code for this, and
`Shows.run_operation` that a database with legible records gives this result.
-/

namespace AccountPool

open Json (Value)
open Program (Result)

/-! ## What commands find -/

/-- The entity that a database gives back under a key, if there is one. -/
def Store.entity? {α : Type} [Entity α] (store : Store) (table : Table) (key : Key) : Option α :=
  (Pool.lift (Backend.database.get store table key) (Pool.decode? table)).toOption.join

/-- The account with an identifier in a table. -/
def Store.account? (store : Store) (table id : String) : Option Account :=
  store.entity? (Pool.accountTable table) (Pool.accountKey id)

/-- The lease of an account to a principal in a table. -/
def Store.lease? (store : Store) (table accountId principalId : String) : Option Lease :=
  store.entity? (Pool.leaseTable table) (Pool.leaseKey accountId principalId)

namespace Command

section Ends

variable (account? : String → Option Account) (lease? : String → String → Option Lease)

/-- What a command asks for, or the account that it removes or gives metadata, or the lease that it removes,
is absent. -/
def Lacks : Command → Prop
  | accounts (.get id) | accounts (.metadata id _) | accounts (.delete id) => account? id = none
  | accounts .ready => ∀ id account, account? id = some account → account.status ≠ .ready
  | leases (.get accountId principalId) | leases (.delete accountId principalId) =>
      lease? accountId principalId = none
  | _ => False

/-- The entity that a command changes is absent or does not have the expected value. -/
def Rejects : Command → Prop
  | accounts (.transition id previous _) =>
      ∀ account, account? id = some account → account.status ≠ previous
  | accounts (.policyHash id previous _) =>
      ∀ account, account? id = some account → account.policyHash ≠ previous
  | leases (.transition accountId principalId previous _) =>
      ∀ lease, lease? accountId principalId = some lease → lease.status ≠ previous
  | _ => False

/-- The account that a command removes is leased. -/
def Protects : Command → Prop
  | accounts (.delete id) => ∃ account, account? id = some account ∧ account.status = .leased
  | _ => False

/-- The exit code of a command. -/
inductive EndsWith (command : Command) : UInt32 → Prop where
  | done (hlacks : ¬ command.Lacks account? lease?) (hrejects : ¬ command.Rejects account? lease?)
      (hprotects : ¬ command.Protects account?) : EndsWith command 0
  | lacks (hlacks : command.Lacks account? lease?) : EndsWith command 2
  | rejects (hrejects : command.Rejects account? lease?) : EndsWith command 3
  | protects (hprotects : command.Protects account?) : EndsWith command 4

end Ends

variable {account? : String → Option Account} {lease? : String → String → Option Lease}
  {command : Command}

/-- A command that lacks something rejects nothing. -/
theorem not_rejects_of_lacks (h : command.Lacks account? lease?) :
    ¬ command.Rejects account? lease? := by
  cases command with
  | help => exact False.elim h
  | accounts command =>
      cases command with
      | get | ready | metadata | delete => exact id
      | _ => exact False.elim h
  | leases command =>
      cases command with
      | get | delete => exact id
      | _ => exact False.elim h

/-- An account that is protected is not lacking. -/
theorem not_lacks_of_protects (h : command.Protects account?) : ¬ command.Lacks account? lease? := by
  cases command with
  | help | leases => exact False.elim h
  | accounts command =>
      cases command with
      | delete id =>
          obtain ⟨account, haccount, -⟩ := h
          intro hnone
          rw [show account? id = none from hnone] at haccount
          cases haccount
      | _ => exact False.elim h

/-- A command that protects an account rejects nothing. -/
theorem not_rejects_of_protects (h : command.Protects account?) :
    ¬ command.Rejects account? lease? := by
  cases command with
  | help | leases => exact False.elim h
  | accounts command =>
      cases command with
      | delete => exact id
      | _ => exact False.elim h

namespace EndsWith

variable {code : UInt32} (h : command.EndsWith account? lease? code)

include h

/-- A command ends with 2 exactly if something is absent. -/
theorem lacks_iff : code = 2 ↔ command.Lacks account? lease? := by
  cases h with
  | done hlacks => exact ⟨nofun, fun h => absurd h hlacks⟩
  | lacks hlacks => exact ⟨fun _ => hlacks, fun _ => rfl⟩
  | rejects hrejects => exact ⟨nofun, fun h => absurd hrejects (not_rejects_of_lacks h)⟩
  | protects hprotects => exact ⟨nofun, fun h => absurd h (not_lacks_of_protects hprotects)⟩

/-- A command ends with 3 exactly if a change is rejected. -/
theorem rejects_iff : code = 3 ↔ command.Rejects account? lease? := by
  cases h with
  | done _ hrejects => exact ⟨nofun, fun h => absurd h hrejects⟩
  | lacks hlacks => exact ⟨nofun, fun h => absurd h (not_rejects_of_lacks hlacks)⟩
  | rejects hrejects => exact ⟨fun _ => hrejects, fun _ => rfl⟩
  | protects hprotects => exact ⟨nofun, fun h => absurd h (not_rejects_of_protects hprotects)⟩

/-- A command ends with 4 exactly if an account is protected. -/
theorem protects_iff : code = 4 ↔ command.Protects account? := by
  cases h with
  | done _ _ hprotects => exact ⟨nofun, fun h => absurd h hprotects⟩
  | lacks hlacks => exact ⟨nofun, fun h => absurd hlacks (not_lacks_of_protects h)⟩
  | rejects hrejects => exact ⟨nofun, fun h => absurd hrejects (not_rejects_of_protects h)⟩
  | protects hprotects => exact ⟨fun _ => hprotects, fun _ => rfl⟩

/-- A command ends with 0 exactly if it is done. -/
theorem done_iff : code = 0 ↔ ¬ command.Lacks account? lease? ∧ ¬ command.Rejects account? lease? ∧
    ¬ command.Protects account? := by
  cases h with
  | done hlacks hrejects hprotects => exact ⟨fun _ => ⟨hlacks, hrejects, hprotects⟩, fun _ => rfl⟩
  | lacks hlacks => exact ⟨nofun, fun h => absurd hlacks h.1⟩
  | rejects hrejects => exact ⟨nofun, fun h => absurd hrejects h.2.1⟩
  | protects hprotects => exact ⟨nofun, fun h => absurd hprotects h.2.2⟩

/-- No command that was understood ends with 1. -/
theorem ne_one : code ≠ 1 := by
  cases h <;> decide

end EndsWith

end Command

/-! ## How operations end -/

/-- The exit code of a command that prints something or fails. -/
def exitCode {α : Type} : Except Failure α → UInt32
  | .ok _ => 0
  | .error failure => failure.code

/-- An outcome has the exit code of its result. -/
theorem Outcome.code_ofExcept (result : Except Failure String) :
    (Outcome.ofExcept result).code = exitCode result := by
  cases result <;> rfl

/-- What is printed does not matter to the exit code. -/
theorem exitCode_map {α β : Type} (result : Except Failure α) (translate : α → β) :
    exitCode (result.map translate) = exitCode result := by
  cases result <;> rfl

/-- Only a failure has an exit code other than 0. -/
theorem exists_failure_of_exitCode_ne {α : Type} {result : Except Failure α} (h : exitCode result ≠ 0) :
    ∃ failure, result = .error failure := by
  cases result with
  | ok value => exact absurd rfl h
  | error failure => exact ⟨failure, rfl⟩

/-- The result of an operation is what the machine gives at some time, or what can be read off a list of all
accounts. -/
def Operation.Answered (inventory : Inventory) :
    (operation : Operation) → Result operation.Reply → Prop
  | .one access, result => ∃ now, (inventory.perform now access).1 = result
  | .many search, result => ∃ (accounts : List Account) (leases : List Lease),
      (∀ account, account ∈ accounts ↔ inventory.accounts.find? account.id = some account) ∧
        .ok (search.answer accounts leases) = result

/-- A result that was answered says of no record that it cannot be read. -/
theorem Operation.Answered.decodes {inventory : Inventory} {operation : Operation}
    {result : Result operation.Reply} (h : operation.Answered inventory result) : result.Decodes := by
  cases operation with
  | one access =>
      obtain ⟨now, rfl⟩ := h
      exact inventory.perform_decodes now access
  | many search =>
      obtain ⟨accounts, leases, -, rfl⟩ := h
      rintro table mismatch ⟨⟩

/-- An account is found under its own identifier. -/
def Inventory.Labelled (inventory : Inventory) : Prop :=
  ∀ id account, inventory.accounts.find? id = some account → account.id = id

section Ends

variable {inventory : Inventory} {now : Int64}

/-- The exit code of a change of an account. -/
theorem Inventory.exitCode_editAccount (now : Int64) (id : String) (edit : AccountEdit) :
    ((∃ account, inventory.accounts.find? id = some account ∧ edit.allows account = true) ∧
        exitCode ((Operation.one (.editAccount id edit)).printed
          (inventory.perform now (.editAccount id edit)).1) = 0) ∨
      ((∀ account, inventory.accounts.find? id = some account → edit.allows account = false) ∧
        exitCode ((Operation.one (.editAccount id edit)).printed
          (inventory.perform now (.editAccount id edit)).1) = (Failure.pool (edit.refusal id)).code) := by
  obtain ⟨account, haccount, hallows⟩ | hrefused := inventory.editable_or_not id edit
  · rw [perform_editAccount haccount hallows]
    exact .inl ⟨⟨account, haccount, hallows⟩, rfl⟩
  · rw [perform_editAccount_refused hrefused]
    exact .inr ⟨hrefused, rfl⟩

/-- Some account that is ready is found, unless there is none. -/
theorem Inventory.exists_ready_iff (hlabelled : inventory.Labelled) {accounts : List Account}
    (haccounts : ∀ account, account ∈ accounts ↔ inventory.accounts.find? account.id = some account) :
    (accounts.filter fun account => account.status = .ready).head? = none ↔
      ∀ id account, inventory.accounts.find? id = some account → account.status ≠ .ready := by
  rw [List.head?_eq_none_iff, List.filter_eq_nil_iff]
  constructor
  · intro hnone id account haccount hready
    obtain rfl := hlabelled id account haccount
    exact hnone account ((haccounts account).2 haccount) (decide_eq_true hready)
  · intro hnone account hmem hready
    exact hnone account.id account ((haccounts account).1 hmem) (of_decide_eq_true hready)

/-- A command that prints what it finds lacks it if there is nothing. -/
theorem Command.endsWith_printed {α : Type} [Entity α] {command : Command}
    {account? : String → Option Account} {lease? : String → String → Option Lease} {held : Option α}
    (sought : Sought) (key : String)
    (hlacks : command.Lacks account? lease? ↔ held = none) (hrejects : ¬ command.Rejects account? lease?)
    (hprotects : ¬ command.Protects account?) :
    command.EndsWith account? lease?
      (exitCode (Answer.printed (.error (.notFound sought key)) (.ok held))) := by
  cases held with
  | none => exact .lacks (hlacks.2 rfl)
  | some entity => exact .done (fun h => nomatch hlacks.1 h) hrejects hprotects

/-- A command about accounts ends as what is there tells. -/
theorem AccountCommand.endsWith (hlabelled : inventory.Labelled) (command : AccountCommand)
    {result : Result (command.operation now).Reply}
    (h : (command.operation now).Answered inventory result) :
    (Command.accounts command).EndsWith inventory.accounts.find? inventory.lease?
      (exitCode ((command.operation now).printed result)) := by
  cases command with
  | list | resetCandidates | status | principal =>
      obtain ⟨accounts, leases, -, rfl⟩ := h
      exact .done id id id
  | get id =>
      obtain ⟨now, rfl⟩ := h
      exact Command.endsWith_printed .account id Iff.rfl (fun h => h) fun h => h
  | ready =>
      obtain ⟨accounts, leases, haccounts, rfl⟩ := h
      exact Command.endsWith_printed .account "status Ready"
        (Inventory.exists_ready_iff hlabelled haccounts).symm (fun h => h) fun h => h
  | put id status roleArn metadata =>
      obtain ⟨now, rfl⟩ := h
      show Command.EndsWith _ _ _ (exitCode (Answer.printed _ (.ok (inventory.accounts.find? id))))
      cases inventory.accounts.find? id with
      | none => exact .done (fun h => h) (fun h => h) fun h => h
      | some account => exact .done (fun h => h) (fun h => h) fun h => h
  | metadata id next =>
      obtain ⟨now, rfl⟩ := h
      obtain ⟨⟨account, haccount, -⟩, hcode⟩ | ⟨hrefused, hcode⟩ :=
        inventory.exitCode_editAccount now id (.metadata next)
      · refine hcode.symm ▸ .done (fun hlacks => ?_) (fun h => h) fun h => h
        cases haccount.symm.trans hlacks
      · refine hcode.symm ▸ .lacks (Option.eq_none_iff_forall_ne_some.2 fun account haccount => ?_)
        cases hrefused account haccount
  | transition id previous next =>
      obtain ⟨now, rfl⟩ := h
      obtain ⟨⟨account, haccount, hallows⟩, hcode⟩ | ⟨hrefused, hcode⟩ :=
        inventory.exitCode_editAccount now id (.status previous next)
      · refine hcode.symm ▸ .done (fun h => h) (fun hrejects => ?_) fun h => h
        exact hrejects account haccount (of_decide_eq_true hallows)
      · refine hcode.symm ▸ .rejects fun account haccount => ?_
        exact of_decide_eq_false (hrefused account haccount)
  | policyHash id previous next =>
      obtain ⟨now, rfl⟩ := h
      obtain ⟨⟨account, haccount, hallows⟩, hcode⟩ | ⟨hrefused, hcode⟩ :=
        inventory.exitCode_editAccount now id (.policyHash previous next)
      · refine hcode.symm ▸ .done (fun h => h) (fun hrejects => ?_) fun h => h
        exact hrejects account haccount (of_decide_eq_true hallows)
      · refine hcode.symm ▸ .rejects fun account haccount => ?_
        exact of_decide_eq_false (hrefused account haccount)
  | delete id =>
      obtain ⟨now, rfl⟩ := h
      show Command.EndsWith _ _ _ (exitCode
        (((inventory.perform now (.deleteAccount id)).1.map Entity.toValue).mapError .pool))
      obtain ⟨account, haccount, hfree⟩ | hleased := inventory.removable_or_not id
      · rw [Inventory.perform_deleteAccount haccount hfree]
        refine .done (fun hlacks => ?_) (fun h => h) ?_
        · cases haccount.symm.trans hlacks
        · rintro ⟨other, hother, hstatus⟩
          cases haccount.symm.trans hother
          simp [Account.isLeased, hstatus] at hfree
      · rw [Inventory.perform_deleteAccount_refused hleased]
        cases haccount : inventory.accounts.find? id with
        | none => exact .lacks haccount
        | some account =>
            exact .protects ⟨account, haccount, of_decide_eq_true (hleased account haccount)⟩

/-- A command about leases ends as what is there tells. -/
theorem LeaseCommand.endsWith (command : LeaseCommand)
    {result : Result (command.operation now).Reply}
    (h : (command.operation now).Answered inventory result) :
    (Command.leases command).EndsWith inventory.accounts.find? inventory.lease?
      (exitCode ((command.operation now).printed result)) := by
  cases command with
  | list | account | principal | status =>
      obtain ⟨accounts, leases, -, rfl⟩ := h
      exact .done id id id
  | get accountId principalId | delete accountId principalId =>
      obtain ⟨now, rfl⟩ := h
      exact Command.endsWith_printed .lease _ Iff.rfl (fun h => h) fun h => h
  | put accountId principalId status =>
      obtain ⟨now, rfl⟩ := h
      show Command.EndsWith _ _ _ (exitCode (Answer.printed _ (.ok (inventory.lease? accountId principalId))))
      cases inventory.lease? accountId principalId with
      | none => exact .done (fun h => h) (fun h => h) fun h => h
      | some lease => exact .done (fun h => h) (fun h => h) fun h => h
  | transition accountId principalId previous next =>
      obtain ⟨now, rfl⟩ := h
      show Command.EndsWith _ _ _ (exitCode (((inventory.perform now
        (.moveLease accountId principalId previous next)).1.map Entity.toValue).mapError .pool))
      by_cases hallowed : ∃ lease, inventory.lease? accountId principalId = some lease ∧
          lease.status = previous
      · obtain ⟨lease, hlease, hstatus⟩ := hallowed
        rw [Inventory.perform_moveLease hlease hstatus]
        exact .done (fun h => h) (fun hrejects => hrejects lease hlease hstatus) fun h => h
      · have hrefused : ∀ lease, inventory.lease? accountId principalId = some lease →
            lease.status ≠ previous :=
          fun lease hlease hstatus => hallowed ⟨lease, hlease, hstatus⟩
        rw [Inventory.perform_moveLease_refused hrefused]
        exact .rejects hrefused

/-- A command ends as what is there tells. -/
theorem Command.endsWith (hlabelled : inventory.Labelled) {command : Command} {operation : Operation}
    (hoperation : command.operation? now = some operation) {result : Result operation.Reply}
    (h : operation.Answered inventory result) :
    command.EndsWith inventory.accounts.find? inventory.lease? (exitCode (operation.printed result)) := by
  cases command with
  | help => cases hoperation
  | accounts command =>
      cases hoperation
      exact command.endsWith hlabelled h
  | leases command =>
      cases hoperation
      exact command.endsWith h

end Ends

/-! ## Operations on databases -/

namespace Shows

variable {settings : PoolSettings} {store : Store} {inventory : Inventory}
  (h : Shows settings store inventory)

include h

/-- An entity of the inventory is given back. -/
theorem entity?_eq {α ι : Type} [Entity α] [LawfulEntity α] [Filed α ι] {name : String} {find : ι → Option α}
    (hfiles : Files .faithful store.seen name find) (label : ι) :
    store.entity? (Filed.table α name) (Filed.key α label) = find label := by
  obtain ⟨current, hfound, hget⟩ := hfiles.perform_get (Backend.readsBack_faithful store.seen) label
  obtain ⟨answer, change, -, hstored, hseen⟩ := Backend.perform_seen h.legible
    (show (Request.get (Filed.table α name) (Filed.key α label)).Legible from trivial)
  rw [hget] at hseen
  obtain rfl : .ok current = answer := congrArg Prod.fst hseen
  have hanswer : Backend.database.get store (Filed.table α name) (Filed.key α label) = .ok current :=
    congrArg Prod.fst hstored
  unfold Store.entity?
  rw [hanswer, Pool.lift, hfound.decode?]
  rfl

/-- The accounts of the inventory are given back. -/
theorem account?_eq : store.account? settings.accountTable = inventory.accounts.find? :=
  funext fun id => h.entity?_eq h.represents.accounts id

/-- The leases of the inventory are given back. -/
theorem lease?_eq : store.lease? settings.leaseTable = inventory.lease? :=
  funext fun accountId => funext fun principalId =>
    h.entity?_eq h.represents.leases (accountId, principalId)

/-- Accounts are found under their own identifiers. -/
theorem labelled : inventory.Labelled :=
  fun _ _ haccount => h.represents.accounts.label_eq haccount

/-- Every operation that files legible metadata is answered, and the store shows some inventory
afterwards. -/
theorem run_operation (hnames : settings.accountTable ≠ settings.leaseTable) {operation : Operation}
    (hlegible : operation.Legible) (time : Clock) :
    ∃ result next seen last, (operation.program (.ofSettings settings)).run Backend.database.perform
        (fun store => Scan.steps store.size) store time = (some result, next, last) ∧
      operation.Answered inventory result ∧ Shows settings next seen := by
  cases operation with
  | one access =>
      obtain ⟨next, seen, hrun, hnext⟩ :=
        h.run_access hnames (fun store => Scan.steps store.size) time hlegible
      exact ⟨_, next, seen, _, hrun, ⟨time.now, rfl⟩, hnext⟩
  | many search =>
      obtain ⟨accounts, leases, haccounts, hrun⟩ := h.run_search time
      exact ⟨_, store, inventory, time, hrun search, ⟨accounts, leases, haccounts, rfl⟩, h⟩

end Shows

end AccountPool
