import AccountPool.Proofs.Entity.Printed

/-!
# Records of entities

The record in which an entity is stored is determined by what its attributes are, which the two normal
forms say one by one: `Account.normal_iff` and `Lease.normal_iff`. The main statement is
`codec_normal_form`: entities are read back from their records and their texts, and whatever form an entity
was read from, it is stored in normal form.
-/

namespace AccountPool

open Json (Value Members Mismatch)

namespace Record

variable {α : Type} [Entity α] [LawfulEntity α]

/-- A record is that of an entity if its attributes are those written for the entity, and no others. -/
theorem eq_ofEntity_iff {record : Record} {entity : α} :
    record = ofEntity entity ↔
      (∀ name, record.contains name = true → name ∈ (Entity.fields α).map Field.name) ∧
        Field.Written record.get? (Entity.fields α) (Entity.values entity) := by
  have hdistinct := Field.nodup_members LawfulEntity.nodup_names (Entity.values entity)
  constructor
  · rintro rfl
    refine ⟨fun name hname => ?_, (Field.written_iff LawfulEntity.nodup_names).2 fun name _ held => ?_⟩
    · obtain ⟨held, hheld⟩ := Option.isSome_iff_exists.1 hname
      have hlisted := (SortedMap.find?_ofList hdistinct).1 hheld
      exact Field.mem_names_of_mem_members (List.mem_map_of_mem (f := Prod.fst) hlisted)
    · exact SortedMap.find?_ofList hdistinct
  · rintro ⟨hknown, hwritten⟩
    have hattributes : record.attributes = (ofEntity entity).attributes := by
      refine SortedMap.ext_find? fun name => Option.ext fun held => ?_
      have hlisted : (ofEntity entity).attributes.find? name = some held ↔
          (name, held) ∈ Field.members (Entity.fields α) (Entity.values entity) :=
        SortedMap.find?_ofList hdistinct
      rw [hlisted]
      by_cases hname : name ∈ (Entity.fields α).map Field.name
      · exact (Field.written_iff LawfulEntity.nodup_names).1 hwritten name hname held
      · refine iff_of_false (fun hheld => hname (hknown name ?_)) fun hlisted => hname ?_
        · exact Option.isSome_iff_exists.2 ⟨held, hheld⟩
        · exact Field.mem_names_of_mem_members (List.mem_map_of_mem (f := Prod.fst) hlisted)
    exact congrArg Record.mk hattributes

/-- An entity is read back from its record. -/
theorem toEntity_ofEntity (entity : α) : (ofEntity entity).toEntity = .ok entity :=
  (carries_ofEntity entity).toEntity

end Record

/-! ## The two normal forms -/

/-- The attributes of the record in which an account is stored. -/
structure Account.Normal (record : Record) (account : Account) : Prop where
  known (name : String) (hname : record.contains name = true) :
    name ∈ ["Id", "AccountStatus", "PrincipalRoleArn", "PrincipalPolicyHash", "LastModifiedOn",
      "Metadata"]
  id : record.get? "Id" = some (.string account.id)
  status : record.get? "AccountStatus" = some (.string account.status.name)
  roleArn : record.get? "PrincipalRoleArn" = account.roleArn.map .string
  policyHash : record.get? "PrincipalPolicyHash" = account.policyHash.map .string
  lastModifiedOn : record.get? "LastModifiedOn" = some (.int64 account.lastModifiedOn)
  metadata : record.get? "Metadata" =
    if account.metadata.isEmpty then none else some (.ofMembers account.metadata)

/-- The attributes of the record in which a lease is stored. -/
structure Lease.Normal (record : Record) (lease : Lease) : Prop where
  known (name : String) (hname : record.contains name = true) :
    name ∈ ["AccountId", "PrincipalId", "LeaseStatus", "CreatedOn", "LastModifiedOn",
      "LeaseStatusModifiedOn"]
  accountId : record.get? "AccountId" = some (.string lease.accountId)
  principalId : record.get? "PrincipalId" = some (.string lease.principalId)
  status : record.get? "LeaseStatus" = some (.string lease.status.name)
  createdOn : record.get? "CreatedOn" = some (.int64 lease.createdOn)
  lastModifiedOn : record.get? "LastModifiedOn" = some (.int64 lease.lastModifiedOn)
  statusModifiedOn : record.get? "LeaseStatusModifiedOn" = some (.int64 lease.statusModifiedOn)

/-- The record in which an account is stored is the only one in normal form. -/
theorem Account.normal_iff {record : Record} {account : Account} :
    account.Normal record ↔ record = Record.ofEntity account := by
  rw [Record.eq_ofEntity_iff]
  constructor
  · rintro ⟨hknown, hid, hstatus, hroleArn, hpolicyHash, hmodified, hmetadata⟩
    exact ⟨hknown, hid, hstatus, hroleArn, hpolicyHash, hmodified, hmetadata, trivial⟩
  · rintro ⟨hknown, hid, hstatus, hroleArn, hpolicyHash, hmodified, hmetadata, -⟩
    exact ⟨hknown, hid, hstatus, hroleArn, hpolicyHash, hmodified, hmetadata⟩

/-- The record in which a lease is stored is the only one in normal form. -/
theorem Lease.normal_iff {record : Record} {lease : Lease} :
    lease.Normal record ↔ record = Record.ofEntity lease := by
  rw [Record.eq_ofEntity_iff]
  constructor
  · rintro ⟨hknown, haccount, hprincipal, hstatus, hcreated, hmodified, hstatusModified⟩
    exact ⟨hknown, haccount, hprincipal, hstatus, hcreated, hmodified, hstatusModified, trivial⟩
  · rintro ⟨hknown, haccount, hprincipal, hstatus, hcreated, hmodified, hstatusModified, -⟩
    exact ⟨hknown, haccount, hprincipal, hstatus, hcreated, hmodified, hstatusModified⟩

/-- An entity is stored in the one record that is in normal form, and read back from it. -/
structure Coded {α : Type} [Entity α] (Normal : Record → α → Prop) (entity : α) : Prop where
  /-- What is written for the entity is a record. -/
  stored : Record.ofValue (Entity.toValue entity) = .ok (Record.ofEntity entity)
  /-- The entity is read back from the record. -/
  restored : (Record.ofEntity entity).toEntity = .ok entity
  /-- What is read back is stored in the same record. -/
  again : ((Record.ofEntity entity).toEntity : Except Mismatch α).map Record.ofEntity =
    .ok (Record.ofEntity entity)
  /-- The record is in normal form, and no other one is. -/
  normal (record : Record) : Normal record entity ↔ record = Record.ofEntity entity

/-- The normal forms are what entities are stored in. -/
theorem Entity.coded {α : Type} [Entity α] [LawfulEntity α] {Normal : Record → α → Prop} {entity : α}
    (hnormal : ∀ record, Normal record entity ↔ record = Record.ofEntity entity) :
    Coded Normal entity where
  stored := rfl
  restored := Record.toEntity_ofEntity entity
  again := by
    rw [Record.toEntity_ofEntity]
    rfl
  normal := hnormal

/-! ## Texts -/

/-- The text of an entity without floating-point numbers that is not too deep denotes its record. -/
theorem Entity.parse_toValue {α : Type} [Entity α] {entity : α}
    (hsound : Json.Value.SoundMembers (members entity))
    (hintegral : Json.Value.IntegralMembers (members entity))
    (hdepth : Json.Value.depthMembers (members entity) ≤ Json.Reader.maxDepth - 1) :
    Value.parse (toValue entity).compact = .ok (Record.ofEntity entity).toValue :=
  Json.Value.parse_compact_object hsound hintegral hdepth

/-- The text of a lease denotes its record. -/
theorem Lease.parse_toValue (lease : Lease) :
    Value.parse (Entity.toValue lease).compact = .ok (Record.ofEntity lease).toValue :=
  Entity.parse_toValue ⟨trivial, trivial, trivial, rfl, rfl, rfl, trivial⟩
    ⟨trivial, trivial, trivial, trivial, trivial, trivial, trivial⟩ (Nat.zero_le _)

/-- Accounts and leases are read back from their records, which are in normal form whatever form the
entities were read from, and from their texts. The text of an account must denote its record, which can
fail for the floating-point numbers and the depth of its metadata. -/
theorem codec_normal_form :
    (∀ account : Account, Coded Account.Normal account ∧
      (Value.parse (Entity.toValue account).compact = .ok (Record.ofEntity account).toValue →
        Entity.parse (Entity.toValue account).compact = .ok account)) ∧
    (∀ lease : Lease, Coded Lease.Normal lease ∧
      Entity.parse (Entity.toValue lease).compact = .ok lease) ∧
    (∀ (value : Value) (account : Account), Entity.decode value = .ok account →
      Coded Account.Normal account) ∧
    ∀ (value : Value) (lease : Lease), Entity.decode value = .ok lease → Coded Lease.Normal lease := by
  have haccount (account : Account) : Coded Account.Normal account :=
    Entity.coded fun _ => Account.normal_iff
  have hlease (lease : Lease) : Coded Lease.Normal lease := Entity.coded fun _ => Lease.normal_iff
  refine ⟨fun account => ⟨haccount account, Entity.parse_of_parse⟩, fun lease => ⟨hlease lease, ?_⟩,
    fun _ account _ => haccount account, fun _ lease _ => hlease lease⟩
  exact Entity.parse_of_parse (Lease.parse_toValue lease)

/-- An account with nested metadata and without a policy hash. -/
def Account.nested : Account where
  id := "1"
  status := .ready
  roleArn := some "role"
  lastModifiedOn := -5
  metadata := .ofList [("tags", .object [("b", .null), ("c", .array [.string "x", .int64 2])])]

/-- A value of another form for the same account: its status is an object, null stands for what is
absent, and there is an unknown member. -/
def Account.nestedForm : Value :=
  .object [("Metadata", .ofMembers Account.nested.metadata), ("Extra", .bool true),
    ("PrincipalPolicyHash", .null), ("PrincipalRoleArn", .string "role"),
    ("AccountStatus", .object [("Ready", .null)]), ("LastModifiedOn", .int64 (-5)),
    ("Id", .string "1")]

/-- The nested account is read back from its text and stored in normal form. -/
theorem codec_normal_form_nested :
    (Value.parse (Entity.toValue Account.nested).compact = .ok (Record.ofEntity Account.nested).toValue ∧
      Entity.parse (Entity.toValue Account.nested).compact = .ok Account.nested) ∧
    (Entity.decode Account.nestedForm = .ok Account.nested ∧ Coded Account.Normal Account.nested) := by
  have hparse : Value.parse (Entity.toValue Account.nested).compact =
      .ok (Record.ofEntity Account.nested).toValue := by
    have htags : (Value.object [("b", .null), ("c", .array [.string "x", .int64 2])]).Sound :=
      ⟨by simp; decide, trivial, ⟨trivial, rfl, trivial⟩, trivial⟩
    have hmetadata : (Value.ofMembers Account.nested.metadata).Sound :=
      ⟨Account.nested.metadata.sorted, htags, trivial⟩
    refine Entity.parse_toValue ⟨trivial, trivial, trivial, rfl, hmetadata, trivial⟩ ?_ ?_
    · exact ⟨trivial, trivial, trivial, trivial, ⟨⟨trivial, ⟨trivial, trivial, trivial⟩, trivial⟩, trivial⟩,
        trivial⟩
    · decide
  have hdecode : Entity.decode Account.nestedForm = .ok Account.nested := by rfl
  exact ⟨⟨hparse, (codec_normal_form.1 Account.nested).2 hparse⟩, hdecode,
    codec_normal_form.2.2.1 _ _ hdecode⟩

end AccountPool
