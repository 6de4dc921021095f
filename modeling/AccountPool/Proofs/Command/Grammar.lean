import AccountPool.Proofs.Command.Operations
import AccountPool.Proofs.Json.RoundTrip

/-!
# The grammar of command lines

Which lists of arguments name which invocation, rule by rule. For each reader of arguments a lemma says what
it accepts, and together they say that exactly the arguments that name an invocation are accepted:
`Invocation.parse_eq_ok`. Operands stand in their places, so they may look like options or commands.
`Invocation.render` writes an invocation down, in arguments that name it: `Invocation.named_render`.
-/

namespace AccountPool

open Json (Value)

/-! ## Rules -/

/-- A text denotes metadata: it is that of a JSON object, of which the last member of a name counts. -/
def Arguments.Denotes (text : String) (metadata : Json.Members) : Prop :=
  ∃ members, Json.Value.parse text = .ok (.object members) ∧ metadata = .ofList members

/-- An option of a new account. -/
inductive PutOption where
  | roleArn (arn : String)
  | metadata (text : String) (metadata : Json.Members) (denotes : Arguments.Denotes text metadata)

namespace PutOption

/-- The arguments of an option. -/
def arguments : PutOption → List String
  | roleArn arn => ["--role-arn", arn]
  | metadata text _ _ => ["--metadata", text]

/-- The role that an option names. -/
def roleArn? : PutOption → Option String
  | roleArn arn => some arn
  | metadata .. => none

/-- The metadata that an option names. -/
def metadata? : PutOption → Option Json.Members
  | .roleArn _ => none
  | .metadata _ found _ => some found

/-- What is named by the last option that names something of the kind. -/
def last? {α : Type} (kind : PutOption → Option α) (options : List PutOption) : Option α :=
  (options.filterMap kind).getLast?

/-- The first option counts if no later one is of its kind. -/
theorem last?_cons {α : Type} (kind : PutOption → Option α) (option : PutOption)
    (options : List PutOption) :
    last? kind (option :: options) = (last? kind options).or (kind option) := by
  cases hkind : kind option with
  | none => simp [last?, hkind]
  | some found =>
      simp only [last?, List.filterMap_cons, hkind, List.getLast?_cons]
      cases (options.filterMap kind).getLast? <;> rfl

/-- What options name, if it is known what counts where there is none of a kind. -/
def named (options : List PutOption) (roleArn : Option String) (metadata : Json.Members) :
    Option String × Json.Members :=
  ((last? roleArn? options).or roleArn, (last? metadata? options).getD metadata)

/-- The role that the first option names counts if no later one names another. -/
theorem named_roleArn (arn : String) (options : List PutOption) (roleArn : Option String)
    (metadata : Json.Members) :
    named (.roleArn arn :: options) roleArn metadata = named options (some arn) metadata := by
  simp [named, last?_cons, roleArn?, metadata?]

/-- The metadata that the first option names counts if no later one names other metadata. -/
theorem named_metadata {text : String} {next : Json.Members} (hdenotes : Arguments.Denotes text next)
    (options : List PutOption) (roleArn : Option String) (metadata : Json.Members) :
    named (.metadata text next hdenotes :: options) roleArn metadata = named options roleArn next := by
  simp [named, last?_cons, roleArn?, metadata?]

end PutOption

/-- The arguments that name a command about accounts. -/
inductive AccountCommand.Named : List String → AccountCommand → Prop where
  | list : Named ["list"] .list
  | get (id : String) : Named ["get", id] (.get id)
  | ready : Named ["ready"] .ready
  | resetCandidates : Named ["reset-candidates"] .resetCandidates
  | status (status : AccountStatus) : Named ["status", status.name] (.status status)
  | principal (roleArn : String) : Named ["principal", roleArn] (.principal roleArn)
  | put (id : String) (status : AccountStatus) (options : List PutOption) :
      Named ("put" :: id :: status.name :: options.flatMap PutOption.arguments)
        (.put id status (PutOption.named options none {}).1 (PutOption.named options none {}).2)
  | metadata (id text : String) (metadata : Json.Members) (denotes : Arguments.Denotes text metadata) :
      Named ["metadata", id, text] (.metadata id metadata)
  | transition (id : String) (previous next : AccountStatus) :
      Named ["transition", id, previous.name, next.name] (.transition id previous next)
  | policyHash (id next : String) : Named ["policy-hash", id, next] (.policyHash id none next)
  | policyHashFrom (id previous next : String) :
      Named ["policy-hash", id, next, "--from", previous] (.policyHash id (some previous) next)
  | delete (id : String) : Named ["delete", id] (.delete id)

/-- The arguments that name a command about leases. -/
inductive LeaseCommand.Named : List String → LeaseCommand → Prop where
  | list : Named ["list"] .list
  | get (accountId principalId : String) :
      Named ["get", accountId, principalId] (.get accountId principalId)
  | account (accountId : String) : Named ["account", accountId] (.account accountId)
  | principal (principalId : String) : Named ["principal", principalId] (.principal principalId)
  | status (status : LeaseStatus) : Named ["status", status.name] (.status status)
  | put (accountId principalId : String) (status : LeaseStatus) :
      Named ["put", accountId, principalId, status.name] (.put accountId principalId status)
  | transition (accountId principalId : String) (previous next : LeaseStatus) :
      Named ["transition", accountId, principalId, previous.name, next.name]
        (.transition accountId principalId previous next)
  | delete (accountId principalId : String) :
      Named ["delete", accountId, principalId] (.delete accountId principalId)

/-- The arguments that name a command. What follows a call for help does not matter. -/
inductive Command.Named : List String → Command → Prop where
  | help {word : String} (hword : word ∈ ["-h", "--help", "help"]) (rest : List String) :
      Named (word :: rest) .help
  | accounts {arguments : List String} {command : AccountCommand} (h : command.Named arguments) :
      Named ("accounts" :: arguments) (.accounts command)
  | leases {arguments : List String} {command : LeaseCommand} (h : command.Named arguments) :
      Named ("leases" :: arguments) (.leases command)

/-- The options that name configuration files. -/
def configOptions (paths : List String) : List String :=
  paths.flatMap fun path => ["--config", path]

/-- The arguments that name an invocation: any number of configuration files, of which the last one counts,
and a command. -/
inductive Invocation.Named : List String → Invocation → Prop where
  | intro (paths : List String) {arguments : List String} {command : Command}
      (h : command.Named arguments) :
      Named (configOptions paths ++ arguments) ⟨paths.getLast?, command⟩

/-! ## Readers -/

namespace Arguments

variable {α β : Type} {arguments rest : List String}

/-- A reader that goes on with another one accepts what both accept in turn. -/
theorem bind_eq_ok {reader : Arguments α} {next : α → Arguments β} {value : β} :
    (reader >>= next) arguments = .ok (value, rest) ↔
      ∃ found between, reader arguments = .ok (found, between) ∧
        next found between = .ok (value, rest) := by
  show (reader arguments >>= fun found => next found.1 found.2) = _ ↔ _
  cases reader arguments with
  | error error => exact ⟨fun h => (nomatch h), fun ⟨_, _, h, _⟩ => (nomatch h)⟩
  | ok found =>
      refine ⟨fun h => ⟨found.1, found.2, rfl, h⟩, ?_⟩
      rintro ⟨found, between, ⟨⟩, h⟩
      exact h

/-- A value is given without looking at the arguments. -/
theorem pure_eq_ok {value found : α} :
    (pure value : Arguments α) arguments = .ok (found, rest) ↔ found = value ∧ rest = arguments := by
  show Except.ok (value, arguments) = .ok (found, rest) ↔ _
  simp [eq_comm]

/-- A reader whose values are translated accepts what it accepts. -/
theorem map_eq_ok {reader : Arguments α} {translate : α → β} {value : β} :
    (translate <$> reader) arguments = .ok (value, rest) ↔
      ∃ found, reader arguments = .ok (found, rest) ∧ value = translate found := by
  show (reader >>= fun found => pure (translate found)) arguments = _ ↔ _
  simp only [bind_eq_ok, pure_eq_ok]
  exact ⟨fun ⟨found, between, hread, hvalue, hrest⟩ => ⟨found, hrest ▸ hread, hvalue⟩,
    fun ⟨found, hread, hvalue⟩ => ⟨found, rest, hread, hvalue, rfl⟩⟩

/-- Readers of a function and of its argument accept what both accept in turn. -/
theorem seq_eq_ok {first : Arguments (α → β)} {second : Arguments α} {value : β} :
    (first <*> second) arguments = .ok (value, rest) ↔
      ∃ translate between, first arguments = .ok (translate, between) ∧
        ∃ found, second between = .ok (found, rest) ∧ value = translate found := by
  show (first >>= fun translate => translate <$> second) arguments = _ ↔ _
  simp only [bind_eq_ok, map_eq_ok]

/-- Nothing is accepted. -/
theorem refuse_eq_ok {error : UsageError} {value : α} :
    refuse error arguments = .ok (value, rest) ↔ False :=
  ⟨fun h => (nomatch h), False.elim⟩

/-- An operand is any argument. -/
theorem operand_eq_ok {expected : Operand} {value : String} :
    operand expected arguments = .ok (value, rest) ↔ arguments = value :: rest := by
  cases arguments <;> simp [operand]

/-- A status is an argument that is its name. -/
theorem status_eq_ok [Status α] {expected : Operand} {value : α} :
    status expected arguments = .ok (value, rest) ↔ arguments = Status.name value :: rest := by
  simp only [status, bind_eq_ok, operand_eq_ok, Status.parse]
  constructor
  · rintro ⟨name, between, rfl, hname⟩
    cases hparse : (Status.parse? name : Option α) with
    | none =>
        rw [hparse] at hname
        cases hname
    | some found =>
        rw [hparse] at hname
        obtain ⟨rfl, rfl⟩ := pure_eq_ok.1 hname
        rw [Status.name_of_parse? hparse]
  · rintro rfl
    refine ⟨_, _, rfl, ?_⟩
    rw [Status.parse?_name]
    exact pure_eq_ok.2 ⟨rfl, rfl⟩

/-- Metadata is read from the texts that denote it. -/
theorem parseMetadata_eq_ok {text : String} {metadata : Json.Members} :
    parseMetadata text = .ok metadata ↔ Denotes text metadata := by
  unfold parseMetadata Denotes
  cases Json.Value.parse text with
  | error fault => simp
  | ok value => cases value <;> simp [eq_comm]

/-- Metadata is an argument that denotes it. -/
theorem metadata_eq_ok {value : Json.Members} :
    metadata arguments = .ok (value, rest) ↔ ∃ text, arguments = text :: rest ∧ Denotes text value := by
  simp only [metadata, bind_eq_ok, operand_eq_ok, ← parseMetadata_eq_ok]
  constructor
  · rintro ⟨text, between, rfl, htext⟩
    cases hparse : parseMetadata text with
    | error error =>
        rw [hparse] at htext
        cases htext
    | ok found =>
        rw [hparse] at htext
        obtain ⟨rfl, rfl⟩ := pure_eq_ok.1 htext
        exact ⟨text, rfl, hparse⟩
  · rintro ⟨text, rfl, hparse⟩
    refine ⟨text, rest, rfl, ?_⟩
    rw [hparse]
    exact pure_eq_ok.2 ⟨rfl, rfl⟩

/-- No argument is left. -/
theorem finish_eq_ok {value : Unit} :
    finish arguments = .ok (value, rest) ↔ arguments = [] ∧ rest = [] := by
  cases arguments <;> simp [finish, eq_comm]

/-- A previous hash is named by an option, unless no argument is left. -/
theorem previousHash_eq_ok {value : Option String} :
    previousHash arguments = .ok (value, rest) ↔
      (arguments = [] ∧ value = none ∧ rest = []) ∨
        ∃ hash, arguments = "--from" :: hash :: rest ∧ value = some hash := by
  fun_cases previousHash arguments with
  | case1 =>
      refine ⟨?_, ?_⟩
      · rintro ⟨⟩
        exact .inl ⟨rfl, rfl, rfl⟩
      · rintro (⟨-, rfl, rfl⟩ | ⟨hash, ⟨⟩, -⟩)
        rfl
  | case2 =>
      refine ⟨fun h => (nomatch h), ?_⟩
      rintro (⟨⟨⟩, -⟩ | ⟨hash, ⟨⟩, -⟩)
  | case3 hash others =>
      refine ⟨?_, ?_⟩
      · rintro ⟨⟩
        exact .inr ⟨hash, rfl, rfl⟩
      · rintro (⟨⟨⟩, -⟩ | ⟨_, ⟨⟩, rfl⟩)
        rfl
  | case4 argument others hmissing hother =>
      refine ⟨fun h => (nomatch h), ?_⟩
      rintro (⟨⟨⟩, -⟩ | ⟨hash, ⟨⟩, -⟩)
      exact absurd rfl (hother hash rest rfl)

/-- The options of an account are read as what they name. -/
theorem accountOptions_eq_ok {roleArn : Option String} {metadata : Json.Members}
    {found : Option String × Json.Members} :
    accountOptions roleArn metadata arguments = .ok found ↔
      ∃ options : List PutOption, arguments = options.flatMap PutOption.arguments ∧
        found = PutOption.named options roleArn metadata := by
  constructor
  · intro h
    fun_induction accountOptions roleArn metadata arguments with
    | case1 roleArn metadata =>
        cases h
        exact ⟨[], rfl, rfl⟩
    | case2 | case4 | case6 => cases h
    | case3 roleArn metadata arn rest ih =>
        obtain ⟨options, rfl, rfl⟩ := ih h
        exact ⟨.roleArn arn :: options, rfl, (PutOption.named_roleArn ..).symm⟩
    | case5 roleArn metadata text rest ih =>
        cases hparse : parseMetadata text with
        | error error =>
            rw [hparse] at h
            cases h
        | ok next =>
            rw [hparse] at h
            obtain ⟨options, rfl, rfl⟩ := ih next h
            exact ⟨.metadata text next (parseMetadata_eq_ok.1 hparse) :: options, rfl,
              (PutOption.named_metadata ..).symm⟩
  · rintro ⟨options, rfl, rfl⟩
    induction options generalizing roleArn metadata with
    | nil => rfl
    | cons option options ih =>
        cases option with
        | roleArn arn => exact ih.trans (congrArg _ (PutOption.named_roleArn ..).symm)
        | metadata text next hdenotes =>
            rw [PutOption.named_metadata]
            show (parseMetadata text >>= fun next => accountOptions roleArn next _) = _
            rw [parseMetadata_eq_ok.2 hdenotes]
            exact ih

/-- All arguments are read as options of an account. -/
theorem allOptions_eq_ok {found : Option String × Json.Members} :
    (accountOptions none {} arguments).map (·, ([] : List String)) = .ok (found, rest) ↔
      rest = [] ∧ ∃ options : List PutOption, arguments = options.flatMap PutOption.arguments ∧
        found = PutOption.named options none {} := by
  rw [← accountOptions_eq_ok]
  cases accountOptions none {} arguments <;> simp [Except.map, eq_comm, and_comm]

/-- A command about accounts is read from the arguments that name it. -/
theorem accountCommand_eq_ok {command : AccountCommand} :
    accountCommand arguments = .ok (command, []) ↔ command.Named arguments := by
  constructor
  · intro h
    simp only [accountCommand, bind_eq_ok, operand_eq_ok] at h
    obtain ⟨name, operands, rfl, hread⟩ := h
    -- One case for each command; other names are refused.
    split at hread <;>
      simp only [bind_eq_ok, map_eq_ok, seq_eq_ok, pure_eq_ok, operand_eq_ok, status_eq_ok,
        metadata_eq_ok, previousHash_eq_ok, allOptions_eq_ok, refuse_eq_ok] at hread
    · obtain ⟨rfl, rfl⟩ := hread
      exact .list
    · obtain ⟨id, rfl, rfl⟩ := hread
      exact .get id
    · obtain ⟨rfl, rfl⟩ := hread
      exact .ready
    · obtain ⟨rfl, rfl⟩ := hread
      exact .resetCandidates
    · obtain ⟨status, rfl, rfl⟩ := hread
      exact .status status
    · obtain ⟨roleArn, rfl, rfl⟩ := hread
      exact .principal roleArn
    · obtain ⟨id, _, rfl, status, _, rfl, _, _, ⟨-, options, rfl, rfl⟩, rfl, -⟩ := hread
      exact .put id status options
    · obtain ⟨_, _, ⟨id, rfl, rfl⟩, metadata, ⟨text, rfl, denotes⟩, rfl⟩ := hread
      exact .metadata id text metadata denotes
    · obtain ⟨_, _, ⟨_, _, ⟨id, rfl, rfl⟩, previous, rfl, rfl⟩, next, rfl, rfl⟩ := hread
      exact .transition id previous next
    · obtain ⟨id, _, rfl, next, _, rfl, _, _, ⟨rfl, rfl, -⟩ | ⟨previous, rfl, rfl⟩, rfl, rfl⟩ := hread
      · exact .policyHash id next
      · exact .policyHashFrom id previous next
    · obtain ⟨id, rfl, rfl⟩ := hread
      exact .delete id
  · intro h
    cases h with
    | list | get | ready | resetCandidates | principal | policyHash | policyHashFrom | delete => rfl
    | status status => cases status <;> rfl
    | transition id previous next => cases previous <;> cases next <;> rfl
    | put id status options =>
        refine bind_eq_ok.2 ⟨_, _, rfl, bind_eq_ok.2 ⟨_, _, rfl, bind_eq_ok.2 ⟨_, _, status_eq_ok.2 rfl, ?_⟩⟩⟩
        exact bind_eq_ok.2 ⟨_, _, allOptions_eq_ok.2 ⟨rfl, options, rfl, rfl⟩, rfl⟩
    | metadata id text metadata denotes =>
        refine bind_eq_ok.2 ⟨_, _, rfl, seq_eq_ok.2 ⟨_, _, rfl, _, ?_, rfl⟩⟩
        exact metadata_eq_ok.2 ⟨text, rfl, denotes⟩

/-- A command about leases is read from the arguments that name it. -/
theorem leaseCommand_eq_ok {command : LeaseCommand} :
    leaseCommand arguments = .ok (command, []) ↔ command.Named arguments := by
  constructor
  · intro h
    simp only [leaseCommand, bind_eq_ok, operand_eq_ok] at h
    obtain ⟨name, operands, rfl, hread⟩ := h
    split at hread <;>
      simp only [map_eq_ok, seq_eq_ok, pure_eq_ok, operand_eq_ok, status_eq_ok, refuse_eq_ok] at hread
    · obtain ⟨rfl, rfl⟩ := hread
      exact .list
    · obtain ⟨_, _, ⟨accountId, rfl, rfl⟩, principalId, rfl, rfl⟩ := hread
      exact .get accountId principalId
    · obtain ⟨accountId, rfl, rfl⟩ := hread
      exact .account accountId
    · obtain ⟨principalId, rfl, rfl⟩ := hread
      exact .principal principalId
    · obtain ⟨status, rfl, rfl⟩ := hread
      exact .status status
    · obtain ⟨_, _, ⟨_, _, ⟨accountId, rfl, rfl⟩, principalId, rfl, rfl⟩, status, rfl, rfl⟩ := hread
      exact .put accountId principalId status
    · obtain ⟨_, _, ⟨_, _, ⟨_, _, ⟨accountId, rfl, rfl⟩, principalId, rfl, rfl⟩, previous, rfl, rfl⟩, next,
        rfl, rfl⟩ := hread
      exact .transition accountId principalId previous next
    · obtain ⟨_, _, ⟨accountId, rfl, rfl⟩, principalId, rfl, rfl⟩ := hread
      exact .delete accountId principalId
  · intro h
    cases h with
    | list | get | account | principal | delete => rfl
    | status status | put _ _ status => cases status <;> rfl
    | transition _ _ previous next => cases previous <;> cases next <;> rfl

/-- A group and its command are read from the arguments that name a command, unless it is a call for help. -/
theorem command_eq_ok {group : String} {found : Command} :
    command group arguments = .ok (found, rest) ↔
      rest = [] ∧ found ≠ .help ∧ found.Named (group :: arguments) := by
  constructor
  · intro h
    simp only [command, bind_eq_ok, finish_eq_ok, pure_eq_ok] at h
    obtain ⟨_, _, hread, _, _, ⟨rfl, rfl⟩, rfl, rfl⟩ := h
    split at hread <;> simp only [map_eq_ok, refuse_eq_ok] at hread
    · obtain ⟨command, hcommand, rfl⟩ := hread
      exact ⟨rfl, nofun, .accounts (accountCommand_eq_ok.1 hcommand)⟩
    · obtain ⟨command, hcommand, rfl⟩ := hread
      exact ⟨rfl, nofun, .leases (leaseCommand_eq_ok.1 hcommand)⟩
  · rintro ⟨rfl, hfound, hnamed⟩
    have hread {reader : Arguments Command} (h : reader arguments = .ok (found, [])) :
        (reader >>= fun found => finish >>= fun _ => pure found) arguments = .ok (found, []) :=
      bind_eq_ok.2 ⟨_, _, h, rfl⟩
    cases hnamed with
    | help => exact absurd rfl hfound
    | accounts h => exact hread (map_eq_ok.2 ⟨_, accountCommand_eq_ok.2 h, rfl⟩)
    | leases h => exact hread (map_eq_ok.2 ⟨_, leaseCommand_eq_ok.2 h, rfl⟩)

/-- The command of an invocation is read as the command of its group. -/
theorem grouped_eq_ok {config : Option String} {group : String} {found : Invocation} :
    (do
      let (command, _) ← command group arguments
      pure ⟨config, command⟩ : Except UsageError Invocation) = .ok found ↔
      ∃ command : Command, command ≠ .help ∧ command.Named (group :: arguments) ∧
        found = ⟨config, command⟩ := by
  constructor
  · intro h
    cases hread : command group arguments with
    | error error =>
        rw [hread] at h
        cases h
    | ok read =>
        rw [hread] at h
        cases h
        exact ⟨read.1, (command_eq_ok.1 hread).2.1, (command_eq_ok.1 hread).2.2, rfl⟩
  · rintro ⟨command, hhelp, hnamed, rfl⟩
    rw [command_eq_ok.2 ⟨rfl, hhelp, hnamed⟩]
    rfl

/-- The path that is named first counts if no other one follows; what was known before does not. -/
theorem getLast?_cons_or (path : String) (paths : List String) (config : Option String) :
    (path :: paths).getLast?.or config = paths.getLast?.or (some path) := by
  rw [List.getLast?_cons]
  cases paths.getLast? <;> rfl

/-- An invocation is read from the arguments that name it; if they name no configuration file, it is the
one that is known before. -/
theorem invocation_eq_ok {config : Option String} {found : Invocation} :
    invocation config arguments = .ok found ↔
      ∃ paths others command, arguments = configOptions paths ++ others ∧ Command.Named others command ∧
        found = ⟨paths.getLast?.or config, command⟩ := by
  constructor
  · intro h
    fun_induction invocation config arguments with
    | case1 | case2 => cases h
    | case3 config path rest ih =>
        obtain ⟨paths, others, command, rfl, hnamed, rfl⟩ := ih h
        refine ⟨path :: paths, others, command, rfl, hnamed, ?_⟩
        rw [getLast?_cons_or]
    | case4 config rest | case5 config rest | case6 config rest =>
        cases h
        exact ⟨[], _, .help, rfl, .help (by decide) rest, rfl⟩
    | case7 config group rest =>
        obtain ⟨command, -, hnamed, rfl⟩ := grouped_eq_ok.1 h
        exact ⟨[], _, command, rfl, hnamed, rfl⟩
  · rintro ⟨paths, others, command, rfl, hnamed, rfl⟩
    induction paths generalizing config with
    | cons path paths ih =>
        rw [getLast?_cons_or]
        exact ih
    | nil =>
        cases hnamed with
        | help hword rest =>
            simp only [List.mem_cons, List.not_mem_nil, or_false] at hword
            obtain rfl | rfl | rfl := hword <;> rfl
        | accounts h => exact grouped_eq_ok.2 ⟨.accounts _, by simp, .accounts h, rfl⟩
        | leases h => exact grouped_eq_ok.2 ⟨.leases _, by simp, .leases h, rfl⟩

end Arguments

/-- Arguments are accepted as the invocation that they name. -/
theorem Invocation.parse_eq_ok {arguments : List String} {invocation : Invocation} :
    parse arguments = .ok invocation ↔ invocation.Named arguments := by
  rw [parse, Arguments.invocation_eq_ok]
  constructor
  · rintro ⟨paths, others, command, rfl, hnamed, rfl⟩
    rw [Option.or_none]
    exact .intro paths hnamed
  · rintro ⟨paths, hnamed⟩
    exact ⟨paths, _, _, rfl, hnamed, by rw [Option.or_none]⟩

/-! ## Writing invocations -/

/-- The arguments for a command about accounts, if it is known how to write metadata. -/
def AccountCommand.render (write : Json.Members → String) : AccountCommand → List String
  | list => ["list"]
  | get id => ["get", id]
  | ready => ["ready"]
  | resetCandidates => ["reset-candidates"]
  | status wanted => ["status", wanted.name]
  | principal roleArn => ["principal", roleArn]
  | put id initial roleArn content =>
      ["put", id, initial.name] ++ roleArn.elim [] (["--role-arn", ·]) ++
        if content.isEmpty then [] else ["--metadata", write content]
  | metadata id next => ["metadata", id, write next]
  | transition id previous next => ["transition", id, previous.name, next.name]
  | policyHash id previous next => ["policy-hash", id, next] ++ previous.elim [] (["--from", ·])
  | delete id => ["delete", id]

/-- The arguments for a command about leases. -/
def LeaseCommand.render : LeaseCommand → List String
  | list => ["list"]
  | get accountId principalId => ["get", accountId, principalId]
  | account accountId => ["account", accountId]
  | principal principalId => ["principal", principalId]
  | status wanted => ["status", wanted.name]
  | put accountId principalId initial => ["put", accountId, principalId, initial.name]
  | transition accountId principalId previous next =>
      ["transition", accountId, principalId, previous.name, next.name]
  | delete accountId principalId => ["delete", accountId, principalId]

/-- The arguments for a command. -/
def Command.render (write : Json.Members → String) : Command → List String
  | help => ["help"]
  | accounts command => "accounts" :: command.render write
  | leases command => "leases" :: command.render

/-- The arguments for an invocation. -/
def Invocation.render (write : Json.Members → String) (invocation : Invocation) : List String :=
  configOptions invocation.config.toList ++ invocation.command.render write

/-- The metadata that a command files is written as a text that denotes it. -/
def Command.Writes (write : Json.Members → String) (command : Command) : Prop :=
  ∀ metadata, command.metadata? = some metadata → Arguments.Denotes (write metadata) metadata

variable {write : Json.Members → String}

/-- A command about accounts is named by the arguments for it. -/
theorem AccountCommand.named_render {command : AccountCommand}
    (h : (Command.accounts command).Writes write) : command.Named (command.render write) := by
  cases command with
  | list => exact .list
  | get id => exact .get id
  | ready => exact .ready
  | resetCandidates => exact .resetCandidates
  | status status => exact .status status
  | principal roleArn => exact .principal roleArn
  | put id status roleArn metadata =>
      have hdenotes : Arguments.Denotes (write metadata) metadata := h metadata rfl
      by_cases hempty : metadata.isEmpty = true
      · obtain rfl := SortedMap.eq_empty_of_isEmpty hempty
        cases roleArn with
        | none => exact .put id status []
        | some arn => exact .put id status [.roleArn arn]
      · rw [AccountCommand.render, if_neg hempty]
        cases roleArn with
        | none => exact .put id status [.metadata _ _ hdenotes]
        | some arn => exact .put id status [.roleArn arn, .metadata _ _ hdenotes]
  | metadata id metadata => exact .metadata id _ metadata (h metadata rfl)
  | transition id previous next => exact .transition id previous next
  | policyHash id previous next =>
      cases previous with
      | none => exact .policyHash id next
      | some previous => exact .policyHashFrom id previous next
  | delete id => exact .delete id

/-- A command about leases is named by the arguments for it. -/
theorem LeaseCommand.named_render : (command : LeaseCommand) → command.Named command.render
  | list => .list
  | get accountId principalId => .get accountId principalId
  | account accountId => .account accountId
  | principal principalId => .principal principalId
  | status wanted => .status wanted
  | put accountId principalId initial => .put accountId principalId initial
  | transition accountId principalId previous next => .transition accountId principalId previous next
  | delete accountId principalId => .delete accountId principalId

/-- A command is named by the arguments for it. -/
theorem Command.named_render {command : Command} (h : command.Writes write) :
    command.Named (command.render write) := by
  cases command with
  | help => exact .help (by decide) []
  | accounts command => exact .accounts (AccountCommand.named_render h)
  | leases command => exact .leases command.named_render

/-- An invocation is named by the arguments for it. -/
theorem Invocation.named_render {invocation : Invocation} (h : invocation.command.Writes write) :
    invocation.Named (invocation.render write) := by
  obtain ⟨config, command⟩ := invocation
  cases config with
  | none => exact .intro [] (Command.named_render h)
  | some path => exact .intro [path] (Command.named_render h)

/-! ## Texts for metadata -/

/-- Metadata without floating-point numbers, of a depth that is read, is denoted by its compact text. -/
theorem Arguments.denotes_compact {metadata : Json.Members} (hsound : (Value.ofMembers metadata).Sound)
    (hintegral : (Value.ofMembers metadata).Integral)
    (hdepth : (Value.ofMembers metadata).depth ≤ Json.Reader.maxDepth) :
    Denotes (Value.ofMembers metadata).compact metadata :=
  ⟨metadata.entries, Value.parse_compact hsound hintegral hdepth, (SortedMap.ofList_entries metadata).symm⟩

/-- Some text denotes the metadata of options. -/
theorem PutOption.exists_denotes (options : List PutOption) :
    ∃ text, Arguments.Denotes text (named options none {}).2 := by
  show ∃ text, Arguments.Denotes text ((last? metadata? options).getD {})
  cases hlast : last? metadata? options with
  | none =>
      have hsound : (Value.ofMembers {}).Sound := ⟨.nil, trivial⟩
      exact ⟨_, Arguments.denotes_compact hsound trivial (by decide)⟩
  | some found =>
      obtain ⟨option, -, hoption⟩ := List.mem_filterMap.1 (List.mem_of_getLast? hlast)
      cases option with
      | roleArn arn => cases hoption
      | metadata text metadata denotes =>
          cases hoption
          exact ⟨text, denotes⟩

/-- Some text denotes the metadata of a command that is named. -/
theorem Command.Named.exists_denotes {arguments : List String} {command : Command}
    (hnamed : command.Named arguments) {metadata : Json.Members}
    (hmetadata : command.metadata? = some metadata) : ∃ text, Arguments.Denotes text metadata := by
  cases hnamed with
  | help | leases => cases hmetadata
  | accounts hnamed =>
      cases hnamed with
      | put id status options =>
          cases hmetadata
          exact PutOption.exists_denotes options
      | metadata id text metadata denotes =>
          cases hmetadata
          exact ⟨text, denotes⟩
      | _ => cases hmetadata

/-- The metadata of a command that is named can be written. -/
theorem Command.Named.exists_writes {arguments : List String} {command : Command}
    (hnamed : command.Named arguments) : ∃ write, command.Writes write := by
  cases hmetadata : command.metadata? with
  | none =>
      refine ⟨fun _ => "", fun metadata hother => ?_⟩
      rw [hmetadata] at hother
      cases hother
  | some metadata =>
      obtain ⟨text, hdenotes⟩ := hnamed.exists_denotes hmetadata
      refine ⟨fun _ => text, fun other hother => ?_⟩
      rw [hmetadata] at hother
      cases hother
      exact hdenotes

/-! ## What is accepted -/

/-- Exactly the arguments that name an invocation are accepted, as the invocation that they name. So the
arguments for an invocation give it back, whichever texts are written for its metadata, and there are such
arguments for every invocation that is accepted. The compact text of metadata is one of these texts unless
it has floating-point numbers or more levels than can be read. -/
theorem Invocation.parse_grammar :
    (∀ (arguments : List String) (invocation : Invocation),
      parse arguments = .ok invocation ↔ invocation.Named arguments) ∧
    (∀ (write : Json.Members → String) (invocation : Invocation), invocation.command.Writes write →
      parse (invocation.render write) = .ok invocation) ∧
    (∀ (arguments : List String) (invocation : Invocation), parse arguments = .ok invocation →
      ∃ write, invocation.command.Writes write ∧ parse (invocation.render write) = .ok invocation) ∧
    (∀ invocation : Invocation,
      (∀ metadata, invocation.command.metadata? = some metadata →
        (Value.ofMembers metadata).Sound ∧ (Value.ofMembers metadata).Integral ∧
          (Value.ofMembers metadata).depth ≤ Json.Reader.maxDepth) →
      parse (invocation.render fun metadata => (Value.ofMembers metadata).compact) = .ok invocation) := by
  have hrender (write : Json.Members → String) (invocation : Invocation)
      (hwrites : invocation.command.Writes write) :
      parse (invocation.render write) = .ok invocation :=
    parse_eq_ok.2 (named_render hwrites)
  refine ⟨fun _ _ => parse_eq_ok, hrender, ?haccepted, ?hcompact⟩
  case haccepted =>
    intro arguments invocation haccepted
    cases parse_eq_ok.1 haccepted with
    | intro paths hnamed =>
        obtain ⟨write, hwrites⟩ := hnamed.exists_writes
        exact ⟨write, hwrites, hrender write _ hwrites⟩
  case hcompact =>
    intro invocation hcompact
    refine hrender _ invocation fun metadata hmetadata => ?_
    obtain ⟨hsound, hintegral, hdepth⟩ := hcompact metadata hmetadata
    exact Arguments.denotes_compact hsound hintegral hdepth

/-- Operands that look like options and commands are taken as they are. -/
theorem Invocation.parse_grammar_literal :
    parse ["--config", "a", "--config", "--help", "accounts", "get", "--config"] =
      .ok ⟨some "--help", .accounts (.get "--config")⟩ ∧
    parse ["accounts", "put", "put", "Ready", "--role-arn", "--metadata", "--metadata",
        "\x7b\"--from\":\"help\"\x7d"] =
      .ok ⟨none, .accounts (.put "put" .ready (some "--metadata") (.ofList [("--from", .string "help")]))⟩ := by
  obtain ⟨haccepts, -, -, hcompact⟩ := Invocation.parse_grammar
  refine ⟨(haccepts _ _).2 (.intro ["a", "--help"] (.accounts (.get "--config"))), ?_⟩
  refine Eq.trans ?_ (hcompact ⟨none, .accounts (.put "put" .ready (some "--metadata")
    (.ofList [("--from", .string "help")]))⟩ ?_)
  · rfl
  · intro metadata hmetadata
    cases hmetadata
    refine ⟨?_, ?_, ?_⟩
    · exact Value.sound_ofList ⟨trivial, trivial⟩
    · exact ⟨trivial, trivial⟩
    · decide

end AccountPool
