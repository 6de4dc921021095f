import AccountPool.Proofs.Pool.Requests
import AccountPool.Proofs.Store.Nesting

/-!
# Metadata and the depth of records

The record of an account is one level deeper than its metadata, and everything else that operations write
is flat. So as long as all metadata is less deep than the limit of a database, no record is beyond the limit:
`Operation.rowWithin_after`. A record that cannot be read stays in its row, whatever operations follow:
`Operation.find?_after_of_unreadable`.
-/

namespace AccountPool

open Json (Value)

/-! ## Records of entities -/

/-- What is written for each of a list of fields is within a depth. -/
def Field.Within (levels : Nat) : (fields : List Field) → Values fields → Prop
  | [], () => True
  | field :: fields, (value, values) =>
      (∀ written, field.shape.encode value = some written → written.depth ≤ levels) ∧
        Within levels fields values

/-- The members that are written for fields are as deep as what is written for each field. -/
theorem Field.depth_members_le {levels : Nat} {fields : List Field} {values : Values fields}
    (h : Within levels fields values) : Value.depthMembers (members fields values) ≤ levels := by
  induction fields with
  | nil => exact Nat.zero_le _
  | cons field fields ih =>
      obtain ⟨value, values⟩ := values
      rw [members]
      cases hwritten : field.shape.encode value with
      | none => exact ih h.2
      | some written => exact Nat.max_le.2 ⟨h.1 written hwritten, ih h.2⟩

/-- The record of an entity is one level deeper than what is written for its fields. -/
theorem Record.depth_ofEntity_le {α : Type} [Entity α] {entity : α} {levels : Nat}
    (h : Field.Within levels (Entity.fields α) (Entity.values entity)) :
    (ofEntity entity).toValue.depth ≤ levels + 1 :=
  Nat.le_trans (Value.depth_ofList_le _) (Nat.succ_le_succ (Field.depth_members_le h))

/-- Nothing that is written for an account is deeper than the metadata. -/
theorem Account.within {account : Account} {levels : Nat}
    (h : (Value.ofMembers account.metadata).depth ≤ levels) :
    Field.Within levels (Entity.fields Account) (Entity.values account) := by
  simp +contextual [Entity.fields, Entity.values, Field.Within, Shape.encode, Value.depth,
    Value.int64, h]

/-- All that is written for a lease is flat. -/
theorem Lease.within (lease : Lease) :
    Field.Within 0 (Entity.fields Lease) (Entity.values lease) := by
  simp [Entity.fields, Entity.values, Field.Within, Shape.encode, Value.depth, Value.int64]

/-! ## Requests of operations -/

/-- The metadata that an operation files. -/
def Operation.metadata? : Operation → Option Json.Members
  | .one (.putAccount account) => some account.metadata
  | .one (.editAccount _ (.metadata members)) => some members
  | .one _ | .many _ => none

/-- The metadata that an operation files is less deep than a limit. -/
def Operation.Fits (limit : Nat) (operation : Operation) : Prop :=
  ∀ metadata, operation.metadata? = some metadata → (Value.ofMembers metadata).depth < limit

/-- A transition sets attributes to scalars. -/
theorem Transition.depth_assignments (transition : Transition) (now : Int64) :
    ∀ assignment ∈ transition.assignments now, assignment.2.depth = 0 := by
  intro assignment hmem
  obtain rfl | hstamp := List.mem_cons.1 hmem
  · rfl
  · obtain ⟨stamp, -, rfl⟩ := List.mem_map.1 hstamp
    rfl

/-- An operation whose metadata is less deep than the limit writes nothing that is deeper. -/
theorem Operation.Requests.shallow {pool : Pool} {operation : Operation} {request : Request}
    (h : operation.Requests pool request) {limit : Nat} (hpos : 0 < limit)
    (hfits : operation.Fits limit) : request.Shallow limit := by
  have hscalar (transition : Transition) (now : Int64) :
      ∀ assignment ∈ transition.assignments now, assignment.2.depth < limit :=
    fun assignment hmem => (transition.depth_assignments now assignment hmem).symm ▸ hpos
  cases h with
  | access access now =>
      cases access with
      | getAccount | deleteAccount | getLease | deleteLease => trivial
      | putAccount account =>
          have hdepth : (Value.ofMembers account.metadata).depth < limit := hfits _ rfl
          exact Nat.le_trans (Record.depth_ofEntity_le (Account.within (Nat.le_refl _))) hdepth
      | editAccount id edit =>
          cases edit with
          | status | policyHash => exact hscalar _ now
          | metadata members =>
              have hdepth : (Value.ofMembers members).depth < limit := hfits _ rfl
              simpa [Access.request, Request.Shallow, AccountEdit.assignments, Value.int64,
                Value.depth, hpos] using hdepth
      | putLease lease => exact Nat.le_trans (Record.depth_ofEntity_le lease.within) hpos
      | moveLease => exact hscalar _ now
  | reread => trivial
  | search => trivial

/-! ## Runs of operations -/

namespace Operation

variable {backend : Backend} {pool : Pool} {store : Store} {limit : Nat}

/-- Operations whose metadata is less deep than the limit file no record that is deeper. -/
theorem rowWithin_after (hreads : backend.ReadsTo limit) (hpos : 0 < limit)
    {operations : List Operation} (hfits : ∀ operation ∈ operations, operation.Fits limit)
    (fuel : Store → Nat) (clock : Clock) (hstart : ∀ name row, store.RowWithin limit name row)
    (name : String) (row : Key) :
    (after backend fuel pool (store, clock) operations).1.RowWithin limit name row := by
  have hkeep : ∀ operation ∈ operations, ∀ store request, operation.Requests pool request →
      (∀ name row, store.RowWithin limit name row) →
      ∀ name row, (backend.perform store request).2.RowWithin limit name row :=
    fun operation hmem store request hrequest hstore name row =>
      Backend.rowWithin_perform hreads hpos (hrequest.shallow hpos (hfits operation hmem))
        (hstore name row)
  exact after_invariant hkeep fuel hstart name row

/-- A record that cannot be read stays in its row throughout every run of operations. -/
theorem find?_after_of_unreadable {name : String} {row : Key} {record : Record} {fault : Json.Fault}
    (hrow : (store.rows name).find? row = some record)
    (hfault : backend.reread record = .error fault) (fuel : Store → Nat) (clock : Clock)
    (operations : List Operation) :
    ((after backend fuel pool (store, clock) operations).1.rows name).find? row = some record := by
  have hkeep : ∀ operation ∈ operations, ∀ store request, operation.Requests pool request →
      (store.rows name).find? row = some record →
      ((backend.perform store request).2.rows name).find? row = some record :=
    fun _ _ _ request _ hstore => Backend.find?_perform_of_unreadable hstore hfault request
  exact after_invariant hkeep fuel hrow

end Operation

/-! ## Accesses to an account -/

namespace Access

/-- The account that an access is about. -/
def account? : Access → Option String
  | getAccount id | editAccount id _ | deleteAccount id => some id
  | putAccount account => some account.id
  | getLease .. | putLease _ | moveLease .. | deleteLease .. => none

variable {backend : Backend} {pool : Pool} {settings : PoolSettings} {store : Store} {access : Access}
  {id : String}

/-- An access to an account sends a request about the account's row. -/
theorem addresses_request (backend : Backend) (settings : PoolSettings) (now : Int64)
    (h : access.account? = some id) :
    (access.request (.ofSettings settings) now).Addresses backend settings.accountTable
      (backend.row Account id) := by
  cases access with
  | getAccount | editAccount | deleteAccount =>
      cases h
      exact ⟨rfl, _, rfl, rfl⟩
  | putAccount account =>
      cases h
      have hkey := Pool.keyOf_account (Record.carries_ofEntity account) settings.accountTable
      exact ⟨rfl, Pool.accountKey account.id, congrArg Except.toOption hkey, rfl⟩
  | getLease | putLease | moveLease | deleteLease => cases h

/-- An access to an account whose record cannot be read fails and changes nothing. -/
theorem run_of_unreadable {record : Record} {fault : Json.Fault}
    (hrow : (store.rows settings.accountTable).find? (backend.row Account id) = some record)
    (hfault : backend.reread record = .error fault) (h : access.account? = some id)
    (fuel : Store → Nat) (time : Clock) :
    ((access.program (.ofSettings settings)).run backend.perform fuel store time).1 =
      some (.error (.store (.unreadable fault))) := by
  have hperform := Backend.perform_of_unreadable hrow hfault
    (addresses_request backend settings time.now h)
  cases access with
  | editAccount id edit =>
      rw [program, AccountEdit.program_eq, Program.run]
      refine (congrArg Prod.fst (Program.run_call hperform fuel _ time.tick)).trans ?_
      cases edit <;> rfl
  | getAccount | putAccount | deleteAccount =>
      exact congrArg Prod.fst (Program.run_call hperform fuel _ time)
  | getLease | putLease | moveLease | deleteLease => cases h

/-- A record that an access to an account has written is in the account's row. -/
theorem find?_of_written {now : Int64} {reply : (access.request (.ofSettings settings) now).Reply}
    {next : Store} {record : Record} (h : access.account? = some id)
    (hperform : backend.perform store (access.request (.ofSettings settings) now) = (.ok reply, next))
    (hwritten : (access.request (.ofSettings settings) now).written? reply = some record) :
    (next.rows settings.accountTable).find? (backend.row Account id) = some record := by
  obtain ⟨hname, key, hkey, hrow⟩ := addresses_request backend settings now h
  obtain ⟨key', hkey', hfind⟩ := Backend.find?_of_written hperform hwritten
  rw [hkey] at hkey'
  cases hkey'
  rwa [hname, hrow] at hfind

/-- After an access that gives an account its metadata, the account's record holds the metadata. -/
theorem exists_holds_metadata {metadata : Json.Members}
    (hmetadata : (Operation.one access).metadata? = some metadata) (h : access.account? = some id)
    (fuel : Store → Nat) (time : Clock) {reply : access.Reply}
    (hreply : ((access.program (.ofSettings settings)).run backend.perform fuel store time).1 =
      some (.ok reply)) :
    ∃ record : Record, Shape.metadata.Holds (record.get? Account.metadataName) metadata ∧
      (((access.program (.ofSettings settings)).run backend.perform fuel store time).2.1.rows
        settings.accountTable).find? (backend.row Account id) = some record := by
  cases hperform : backend.perform store (access.request (.ofSettings settings) time.now) with
  | mk answer next =>
  cases access with
  | putAccount account =>
      cases hmetadata
      have hrun : ((putAccount account).program (.ofSettings settings)).run backend.perform fuel store
          time = (some (Pool.lift answer (Pool.decode? (Pool.ofSettings settings).accounts)), next,
            time) := Program.run_call hperform fuel _ time
      rw [hrun] at hreply ⊢
      cases answer with
      | error error => cases hreply
      | ok current =>
          have hholds := (Account.carries_iff.1 (Record.carries_ofEntity account)).2.2.2.2.2
          exact ⟨_, hholds, find?_of_written h hperform rfl⟩
  | editAccount id edit =>
      cases edit with
      | metadata members =>
          cases hmetadata
          have hrun : ((editAccount id (.metadata metadata)).program (.ofSettings settings)).run
              backend.perform fuel store time = (some ((Pool.ofSettings settings).settleMetadata id
                answer), next, time.tick) :=
            Program.run_call hperform fuel (fun answer => .done (Pool.settleMetadata _ id answer))
              time.tick
          rw [hrun] at hreply ⊢
          cases answer with
          | error error => cases error <;> cases hreply
          | ok record =>
              obtain ⟨found, rfl⟩ := Backend.exists_assign hperform
              refine ⟨_, .inl ?_, find?_of_written h hperform rfl⟩
              simp (disch := decide) [AccountEdit.assignments, Record.get?_insert_self,
                Record.get?_insert_of_ne]
      | status | policyHash => cases hmetadata
  | getAccount | deleteAccount | getLease | putLease | moveLease | deleteLease => cases hmetadata

end Access

end AccountPool
