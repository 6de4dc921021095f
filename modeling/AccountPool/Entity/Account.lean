import AccountPool.Entity.Layout

/-!
# Accounts

A pooled, reusable cloud account and the names of its attributes.
-/

namespace AccountPool

/-- A pooled, reusable cloud account. -/
structure Account where
  id : String
  status : AccountStatus
  /-- The role of the principal that the account is handed out to. -/
  roleArn : Option String := none
  /-- A hash of the policy last applied to that role. -/
  policyHash : Option String := none
  /-- Seconds since the epoch. -/
  lastModifiedOn : Int64 := 0
  metadata : Json.Members := {}

namespace Account

/-- The account is handed out. -/
def isLeased (account : Account) : Bool :=
  account.status = .leased

/-- The attribute names of accounts. -/
abbrev idName : String := "Id"

@[inherit_doc idName] abbrev statusName : String := "AccountStatus"

@[inherit_doc idName] abbrev roleArnName : String := "PrincipalRoleArn"

@[inherit_doc idName] abbrev policyHashName : String := "PrincipalPolicyHash"

@[inherit_doc idName] abbrev lastModifiedOnName : String := "LastModifiedOn"

@[inherit_doc idName] abbrev metadataName : String := "Metadata"

/-- The fields of an account in order of declaration. -/
abbrev fields : List Field := [
  ⟨idName, .text, none⟩,
  ⟨statusName, .accountStatus, none⟩,
  ⟨roleArnName, .optionalText, some none⟩,
  ⟨policyHashName, .optionalText, some none⟩,
  ⟨lastModifiedOnName, .timestamp, some 0⟩,
  ⟨metadataName, .metadata, some {}⟩]

instance : Entity Account where
  title := "struct Account"
  fields := fields
  values account :=
    (account.id, account.status, account.roleArn, account.policyHash, account.lastModifiedOn,
      account.metadata, ())
  ofValues := fun (id, status, roleArn, policyHash, lastModifiedOn, metadata, ()) =>
    ⟨id, status, roleArn, policyHash, lastModifiedOn, metadata⟩
  ofValues_values _ := rfl
  values_ofValues _ := rfl

end Account

end AccountPool
