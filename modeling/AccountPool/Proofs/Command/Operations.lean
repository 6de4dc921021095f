import AccountPool.Command.Arguments
import AccountPool.Proofs.Command.Answers
import AccountPool.Proofs.Json.Outline
import AccountPool.Proofs.Pool.Failure
import AccountPool.Proofs.Pool.Machine

/-!
# Commands as operations of the pool

Every command but a call for help is one operation of the pool whose result is printed, and how it is
printed depends on the operation only: `Command.run_answer`. A command that fails has written nothing,
`Operation.spares_refuses`. Metadata that is accepted on the command line can be denoted by a text,
`Arguments.sound_invocation`.
-/

namespace AccountPool

open Json (Value)
open Program (Result)

/-! ## Operations of commands -/

/-- The operation that a command about accounts stands for at a given time. -/
def AccountCommand.operation (now : Int64) : AccountCommand → Operation
  | list => .many .listAccounts
  | get id => .one (.getAccount id)
  | ready => .many .firstReadyAccount
  | resetCandidates => .many .accountsNotReady
  | status wanted => .many (.accountsByStatus wanted)
  | principal roleArn => .many (.accountsByRole roleArn)
  | put id initial roleArn content =>
      .one (.putAccount { id, status := initial, roleArn, metadata := content, lastModifiedOn := now })
  | metadata id next => .one (.editAccount id (.metadata next))
  | transition id previous next => .one (.editAccount id (.status previous next))
  | policyHash id previous next => .one (.editAccount id (.policyHash previous next))
  | delete id => .one (.deleteAccount id)

/-- The operation that a command about leases stands for at a given time. -/
def LeaseCommand.operation (now : Int64) : LeaseCommand → Operation
  | list => .many .listLeases
  | get accountId principalId => .one (.getLease accountId principalId)
  | account accountId => .many (.leasesByAccount accountId)
  | principal principalId => .many (.leasesByPrincipal principalId)
  | status wanted => .many (.leasesByStatus wanted)
  | put accountId principalId initial =>
      .one (.putLease (Lease.createdAt { accountId, principalId, status := initial } now))
  | transition accountId principalId previous next =>
      .one (.moveLease accountId principalId previous next)
  | delete accountId principalId => .one (.deleteLease accountId principalId)

/-- The operation that a command stands for, unless it asks for help. -/
def Command.operation? (now : Int64) : Command → Option Operation
  | help => none
  | accounts command => some (command.operation now)
  | leases command => some (command.operation now)

/-- What is printed of the result of an operation, or why the command fails. -/
def Operation.printed : (operation : Operation) → Result operation.Reply → Except Failure Value
  | .one (.getAccount id) => Answer.printed (.error (.notFound .account id))
  | .one (.putAccount _) => Answer.printed (.ok .null)
  | .one (.editAccount ..) => fun result => (result.map Entity.toValue).mapError .pool
  | .one (.deleteAccount _) => fun result => (result.map Entity.toValue).mapError .pool
  | .one (.getLease accountId principalId) | .one (.deleteLease accountId principalId) =>
      Answer.printed (.error (.notFound .lease (Pool.leaseKey accountId principalId).display))
  | .one (.putLease _) => Answer.printed (.ok .null)
  | .one (.moveLease ..) => fun result => (result.map Entity.toValue).mapError .pool
  | .many .firstReadyAccount => Answer.printed (.error (.notFound .account "status Ready"))
  | .many .listAccounts | .many .accountsNotReady | .many (.accountsByStatus _)
  | .many (.accountsByRole _) => fun result =>
      (result.map fun accounts => .array (accounts.map Entity.toValue)).mapError .pool
  | .many .listLeases | .many (.leasesByAccount _) | .many (.leasesByPrincipal _)
  | .many (.leasesByStatus _) => fun result =>
      (result.map fun leases => .array (leases.map Entity.toValue)).mapError .pool

/-- An operation that fails makes its command fail in the same way. -/
theorem Operation.printed_error (operation : Operation) (error : PoolError) :
    operation.printed (.error error) = .error (.pool error) := by
  cases operation with
  | one access => cases access <;> rfl
  | many search => cases search <;> rfl

section Run

variable {σ : Type} (engine : Engine σ) (fuel : σ → Nat) (pool : Pool) (state : σ) (time : Clock)

/-- A command about accounts prints the result of its operation; what is put is stamped first. -/
theorem AccountCommand.run_answer (command : AccountCommand) :
    ∃ start, (command.answer pool).run engine fuel state time =
      (((command.operation time.now).program pool).run engine fuel state start).map
        (Option.map (command.operation time.now).printed) id := by
  cases command with
  | list | resetCandidates | status | principal => exact ⟨time, Answer.run_all ..⟩
  | get | ready => exact ⟨time, Answer.run_found ..⟩
  | metadata | transition | policyHash | delete => exact ⟨time, Answer.run_one ..⟩
  | put => exact ⟨time.tick, Answer.run_optional ..⟩

/-- A command about leases prints the result of its operation; what is put is stamped first. -/
theorem LeaseCommand.run_answer (command : LeaseCommand) :
    ∃ start, (command.answer pool).run engine fuel state time =
      (((command.operation time.now).program pool).run engine fuel state start).map
        (Option.map (command.operation time.now).printed) id := by
  cases command with
  | list | account | principal | status => exact ⟨time, Answer.run_all ..⟩
  | get | delete => exact ⟨time, Answer.run_found ..⟩
  | transition => exact ⟨time, Answer.run_one ..⟩
  | put => exact ⟨time.tick, Answer.run_optional ..⟩

/-- A command prints the result of its operation. -/
theorem Command.run_answer {command : Command} {operation : Operation}
    (h : command.operation? time.now = some operation) :
    ∃ start, (command.answer pool).run engine fuel state time =
      ((operation.program pool).run engine fuel state start).map (Option.map operation.printed) id := by
  cases command with
  | help => cases h
  | accounts command =>
      cases h
      exact command.run_answer engine fuel pool state time
  | leases command =>
      cases h
      exact command.run_answer engine fuel pool state time

end Run

/-! ## Commands that fail -/

/-- A program spares fewer results than it spares. -/
theorem Program.Spares.mono {α : Type} {kind narrow : α → Prop} {program : Program α}
    (h : program.Spares kind) (hkind : ∀ result, narrow result → kind result) :
    program.Spares narrow := by
  have hafter (program : Program α) (h : program.Avoids kind) : program.Avoids narrow := by
    induction program with
    | done result => exact fun hresult => h (hkind result hresult)
    | call request resume ih => exact fun answer => ih answer (h answer)
    | clock resume ih => exact fun now => ih now (h now)
    | scan table pageSize keep resume ih => exact fun answer => ih answer (h answer)
  induction program with
  | done result => trivial
  | call request resume ih =>
      exact fun answer => ⟨ih answer (h answer).1, fun hwrote => hafter _ ((h answer).2 hwrote)⟩
  | clock resume ih => exact fun now => ih now (h now)
  | scan table pageSize keep resume ih => exact fun answer => ih answer (h answer)

/-- The command of an operation fails with the result, but not since a record is no entity. -/
def Operation.Refuses (operation : Operation) (result : Result operation.Reply) : Prop :=
  result.Decodes ∧ ∃ failure, operation.printed result = .error failure

/-- The command of an operation fails only if nothing was written. -/
theorem Operation.spares_refuses (pool : Pool) (operation : Operation) :
    (operation.program pool).Spares operation.Refuses := by
  -- Most commands fail only if their operations do.
  have hfails (h : ∀ reply, ∃ value, operation.printed (.ok reply) = .ok value) :
      (operation.program pool).Spares operation.Refuses := by
    refine (operation.spares pool).mono fun result hresult => ?_
    obtain ⟨hdecodes, failure, hfailure⟩ := hresult
    cases result with
    | error error => exact ⟨error, rfl, fun table mismatch hsame => hdecodes table mismatch (hsame ▸ rfl)⟩
    | ok reply =>
        obtain ⟨value, hvalue⟩ := h reply
        rw [hvalue] at hfailure
        cases hfailure
  cases operation with
  | many search => exact spares_of_reads pool rfl
  | one access =>
      cases access with
      | getAccount | getLease => exact spares_of_reads pool rfl
      | editAccount | deleteAccount | moveLease => exact hfails fun reply => ⟨_, rfl⟩
      | putAccount | putLease =>
          refine hfails fun reply => ?_
          cases reply with
          | none => exact ⟨_, rfl⟩
          | some entity => exact ⟨_, rfl⟩
      | deleteLease accountId principalId =>
          refine Pool.spares_call ?_
          rintro _ ⟨reply, rfl, hremoved⟩ ⟨hdecodes, failure, hfailure⟩
          obtain ⟨record, rfl⟩ := Option.isSome_iff_exists.1 hremoved
          -- What was removed is printed, unless it is no lease.
          cases hlease : Pool.decode (α := Lease) pool.leases record with
          | ok lease =>
              simp only [Pool.lift, Pool.decode?, hlease] at hfailure
              cases hfailure
          | error error =>
              simp only [Pool.lift, Pool.decode?, hlease] at hdecodes
              unfold Pool.decode at hlease
              cases hentity : record.toEntity (α := Lease) with
              | ok lease =>
                  rw [hentity] at hlease
                  cases hlease
              | error mismatch =>
                  rw [hentity] at hlease
                  cases hlease
                  exact hdecodes _ _ rfl

/-! ## Metadata on the command line -/

/-- The metadata that a command files. -/
def Command.metadata? : Command → Option Json.Members
  | accounts (.put _ _ _ metadata) | accounts (.metadata _ metadata) => some metadata
  | _ => none

namespace Arguments

variable {α β : Type}

/-- Whatever arguments are accepted as is good. -/
def Gives (reader : Arguments α) (good : α → Prop) : Prop :=
  ∀ arguments value rest, reader arguments = .ok (value, rest) → good value

/-- Of a reader that nothing is asked of nothing is known. -/
theorem gives_any (reader : Arguments α) : reader.Gives fun _ => True :=
  fun _ _ _ _ => trivial

/-- A value that is given without looking. -/
theorem gives_pure {good : α → Prop} {value : α} (h : good value) :
    (pure value : Arguments α).Gives good := by
  rintro arguments found rest hread
  cases hread
  exact h

/-- A reader that goes on with another one gives what this one gives. -/
theorem Gives.bind {reader : Arguments α} {next : α → Arguments β} {between : α → Prop}
    {good : β → Prop} (h : reader.Gives between)
    (hnext : ∀ value, between value → (next value).Gives good) : (reader >>= next).Gives good := by
  intro arguments result rest hread
  change (reader arguments >>= fun found => next found.1 found.2) = _ at hread
  cases hfirst : reader arguments with
  | error error =>
      rw [hfirst] at hread
      cases hread
  | ok found =>
      rw [hfirst] at hread
      exact hnext found.1 (h arguments found.1 found.2 hfirst) found.2 result rest hread

/-- A reader whose values are translated. -/
theorem Gives.map {reader : Arguments α} {good : α → Prop} {translate : α → β} {fine : β → Prop}
    (h : reader.Gives good) (htranslate : ∀ value, good value → fine (translate value)) :
    (translate <$> reader).Gives fine :=
  h.bind fun value hvalue => gives_pure (htranslate value hvalue)

/-- Readers of a function and of its argument. -/
theorem Gives.seq {first : Arguments (α → β)} {second : Arguments α} {between : (α → β) → Prop}
    {good : α → Prop} {fine : β → Prop} (h : first.Gives between) (hsecond : second.Gives good)
    (hfine : ∀ translate, between translate → ∀ value, good value → fine (translate value)) :
    (first <*> second).Gives fine := by
  show (first >>= fun translate => translate <$> second).Gives fine
  exact h.bind fun translate htranslate => hsecond.map fun value hvalue =>
    hfine translate htranslate value hvalue

/-- Metadata that is accepted is sound. -/
theorem sound_parseMetadata {text : String} {metadata : Json.Members}
    (hparse : parseMetadata text = .ok metadata) : (Value.ofMembers metadata).Sound := by
  unfold parseMetadata at hparse
  split at hparse
  · next members hvalue =>
      cases hparse
      exact Value.sound_ofList (Value.parse_sound hvalue).2
  · cases hparse
  · cases hparse

/-- The metadata among the options of a new account is sound. -/
theorem sound_accountOptions {roleArn : Option String} {metadata : Json.Members} {arguments : List String}
    (h : (Value.ofMembers metadata).Sound) {found : Option String × Json.Members}
    (hoptions : accountOptions roleArn metadata arguments = .ok found) :
    (Value.ofMembers found.2).Sound := by
  fun_induction accountOptions roleArn metadata arguments with
  | case1 =>
      cases hoptions
      exact h
  | case2 | case4 | case6 => cases hoptions
  | case3 roleArn metadata value rest ih => exact ih h hoptions
  | case5 roleArn metadata value rest ih =>
      cases hparse : parseMetadata value with
      | error error =>
          rw [hparse] at hoptions
          cases hoptions
      | ok next =>
          rw [hparse] at hoptions
          exact ih next (sound_parseMetadata hparse) hoptions

/-- The metadata that a command files is sound. -/
def FilesSound (command : Command) : Prop :=
  ∀ metadata, command.metadata? = some metadata → (Value.ofMembers metadata).Sound

/-- A command without metadata files none that is not sound. -/
theorem filesSound_of_none {command : Command} (h : command.metadata? = none) : FilesSound command := by
  intro metadata hmetadata
  rw [h] at hmetadata
  cases hmetadata

/-- The metadata that a command about accounts files is sound. -/
theorem accountCommand_gives : accountCommand.Gives fun command => FilesSound (.accounts command) := by
  refine (gives_any _).bind fun name _ => ?_
  have hid {command : String → AccountCommand} {expected : Operand}
      (hnone : ∀ id, (Command.accounts (command id)).metadata? = none) :
      (command <$> operand expected).Gives fun command => FilesSound (.accounts command) :=
    (gives_any _).map fun id _ => filesSound_of_none (hnone id)
  split
  case h_1 | h_3 | h_4 => exact gives_pure (filesSound_of_none rfl)
  case h_2 | h_6 | h_11 => exact hid fun _ => rfl
  case h_5 => exact (gives_any _).map fun _ _ => filesSound_of_none rfl
  case h_7 =>
      -- The options are read from the empty metadata on.
      refine (gives_any _).bind fun id _ => (gives_any _).bind fun status _ => ?_
      have hoptions : Gives (fun rest => (accountOptions none {} rest).map (·, []))
          fun found => (Value.ofMembers found.2).Sound := by
        intro arguments found rest hread
        cases haccepted : accountOptions none {} arguments with
        | error error => simp [haccepted, Except.map] at hread
        | ok options =>
            simp only [haccepted, Except.map, Except.ok.injEq, Prod.mk.injEq] at hread
            have hempty : (Value.ofMembers {}).Sound := ⟨.nil, trivial⟩
            exact hread.1 ▸ sound_accountOptions hempty haccepted
      refine hoptions.bind fun found hfound => gives_pure ?_
      rintro metadata ⟨⟩
      exact hfound
  case h_8 =>
      have hmetadata : metadata.Gives fun metadata => (Value.ofMembers metadata).Sound := by
        refine (gives_any _).bind fun text _ => ?_
        split
        · next found hparse => exact gives_pure (sound_parseMetadata hparse)
        · exact fun _ _ _ hread => nomatch hread
      have hfirst : (AccountCommand.metadata <$> operand .accountId).Gives fun translate =>
          ∃ id, translate = AccountCommand.metadata id :=
        (gives_any _).map fun id _ => ⟨id, rfl⟩
      refine hfirst.seq hmetadata ?_
      rintro _ ⟨id, rfl⟩ metadata hsound _ ⟨⟩
      exact hsound
  case h_9 =>
      have hid : (AccountCommand.transition <$> operand .accountId).Gives fun translate =>
          ∃ id, translate = AccountCommand.transition id :=
        (gives_any _).map fun id _ => ⟨id, rfl⟩
      have hprevious : (AccountCommand.transition <$> operand .accountId <*>
          status .previousStatus).Gives fun translate =>
            ∃ id previous, translate = AccountCommand.transition id previous :=
        hid.seq (gives_any _) fun _ ⟨id, hid⟩ previous _ => ⟨id, previous, congrFun hid previous⟩
      refine hprevious.seq (gives_any _) ?_
      rintro _ ⟨id, previous, rfl⟩ next -
      exact filesSound_of_none rfl
  case h_10 =>
      refine (gives_any _).bind fun id _ => (gives_any _).bind fun next _ => ?_
      exact (gives_any _).bind fun previous _ => gives_pure (filesSound_of_none rfl)
  case h_12 => exact fun _ _ _ hread => nomatch hread

/-- The metadata that a command of a group files is sound. -/
theorem command_gives (group : String) : (command group).Gives FilesSound := by
  refine Gives.bind ?_ fun found (hfound : FilesSound found) =>
    (gives_any _).bind fun _ _ => gives_pure hfound
  split
  · exact accountCommand_gives.map fun _ hsound => hsound
  · exact (gives_any _).map fun _ _ => filesSound_of_none rfl
  · exact fun _ _ _ hread => nomatch hread

/-- The metadata of the command behind options is sound. -/
theorem sound_invocation {config : Option String} {arguments : List String} {found : Invocation}
    (hread : invocation config arguments = .ok found) : FilesSound found.command := by
  fun_induction invocation config arguments with
  | case1 | case2 => cases hread
  | case3 config path rest ih => exact ih hread
  | case4 | case5 | case6 =>
      cases hread
      exact filesSound_of_none rfl
  | case7 config group rest =>
      cases hcommand : command group rest with
      | error error =>
          rw [hcommand] at hread
          cases hread
      | ok accepted =>
          rw [hcommand] at hread
          cases hread
          exact command_gives group rest accepted.1 accepted.2 hcommand

end Arguments

end AccountPool
