import AccountPool.Proofs.Entity.Carried
import AccountPool.Proofs.Pool.Machine

/-!
# Guarded changes of records

A change of a record is guarded by a condition about attributes and assigns values to attributes. An
`Edit` is such a change that means something for the entity that the record carries: the condition
holds exactly if the change may be made of the entity, and the record carries the changed entity
afterwards. All changes that the pool makes are edits.
-/

namespace AccountPool

open Json (Value)

/-- A guarded change of records, and what it means for the entities that they carry. -/
structure Edit (α : Type) [Entity α] where
  guard : Condition
  assignments : Assignments
  /-- The change may be made of an entity. -/
  allows : α → Bool
  /-- The entity after the change. -/
  change : α → α
  evaluate_none : guard.evaluate none = false
  evaluate_some : ∀ {record : Record} {entity : α}, record.Carries entity →
    guard.evaluate (some record) = allows entity
  carries_assign : ∀ {record : Record} {entity : α}, record.Carries entity →
    (record.assign assignments).Carries (change entity)

/-! ## Transitions -/

namespace Transition

/-- The guard of a transition fails where there is no record. -/
theorem evaluate_guard_none (transition : Transition) : transition.guard.evaluate none = false := by
  unfold guard
  split <;> rfl

/-- The guard of a transition compares the attribute with the expected text, or finds it absent. -/
theorem evaluate_guard_some (transition : Transition) (record : Record) :
    transition.guard.evaluate (some record) = true ↔
      record.get? transition.name = transition.rejection.previous.map .string := by
  unfold guard
  cases transition.rejection.previous with
  | none => simp [Condition.evaluate, Clause.holds, Record.contains_eq_false]
  | some previous => simp [Condition.evaluate, Clause.holds, Record.holds_string]

end Transition

/-! ## Accounts -/

namespace AccountEdit

/-- The condition that guards a change of an account. -/
def guard (id : String) : AccountEdit → Condition
  | status previous next => (Pool.accountStatusChange id previous next).guard
  | policyHash previous next => (Pool.policyHashChange id previous next).guard
  | metadata _ => [.present]

/-- The attributes that a change of an account sets. -/
def assignments (id : String) (now : Int64) : AccountEdit → Assignments
  | status previous next => (Pool.accountStatusChange id previous next).assignments now
  | policyHash previous next => (Pool.policyHashChange id previous next).assignments now
  | metadata members =>
      [(Account.metadataName, .ofMembers members), (Account.lastModifiedOnName, .int64 now)]

/-- The guard of a change tells whether the change may be made of the carried account. -/
theorem evaluate_guard (id : String) (edit : AccountEdit) {record : Record} {account : Account}
    (h : record.Carries account) : (edit.guard id).evaluate (some record) = edit.allows account := by
  obtain ⟨-, hstatus, -, hhash, -, -⟩ := Account.carries_iff.1 h
  rw [Bool.eq_iff_iff]
  cases edit with
  | status previous next =>
      rw [guard, Transition.evaluate_guard_some]
      show record.get? Account.statusName = some (.string previous.name) ↔ _
      rw [hstatus]
      simp only [Option.some.injEq, Value.string.injEq, allows, decide_eq_true_eq]
      exact Status.name_inj (α := AccountStatus)
  | policyHash previous next =>
      rw [guard, Transition.evaluate_guard_some]
      show record.get? Account.policyHashName = previous.map .string ↔ _
      rw [hhash]
      simp only [allows, decide_eq_true_eq]
      -- A hash that the account does not have is left out, which is what the guard looks for.
      exact (Option.map_injective fun _ _ => Value.string.inj).eq_iff
  | metadata members => simp [guard, allows, Condition.evaluate, Clause.holds]

/-- After a change the record carries the changed account. -/
theorem carries_assign (id : String) (now : Int64) (edit : AccountEdit) {record : Record}
    {account : Account} (h : record.Carries account) :
    (record.assign (edit.assignments id now)).Carries (edit.change now account) := by
  obtain ⟨hid, hstatus, hrole, hhash, hmodified, hmetadata⟩ := Account.carries_iff.1 h
  rw [Account.carries_iff]
  cases edit with
  | status previous next =>
      simp (disch := decide) [assignments, Transition.assignments, Pool.accountStatusChange, change,
        Record.get?_insert_self, Record.get?_insert_of_ne, hid, hrole, hhash, hmetadata]
  | policyHash previous next =>
      simp (disch := decide) [assignments, Transition.assignments, Pool.policyHashChange, change,
        Record.get?_insert_self, Record.get?_insert_of_ne, hid, hstatus, hrole, hmetadata]
  | metadata members =>
      simp (disch := decide) [assignments, change, Shape.Holds, Record.get?_insert_self,
        Record.get?_insert_of_ne, hid, hstatus, hrole, hhash]

/-- A change of an account as an edit of its record. -/
def edit (id : String) (now : Int64) (accountEdit : AccountEdit) : Edit Account where
  guard := accountEdit.guard id
  assignments := accountEdit.assignments id now
  allows := accountEdit.allows
  change := accountEdit.change now
  evaluate_none := by
    cases accountEdit with
    | status previous next => exact (Pool.accountStatusChange id previous next).evaluate_guard_none
    | policyHash previous next => exact (Pool.policyHashChange id previous next).evaluate_guard_none
    | metadata members => rfl
  evaluate_some := evaluate_guard id accountEdit
  carries_assign := carries_assign id now accountEdit

end AccountEdit

/-- An account may be removed exactly if there is one that is not leased. -/
theorem Pool.evaluate_removalGuard {record : Record} {account : Account} (h : record.Carries account) :
    Pool.removalGuard.evaluate (some record) = !account.isLeased := by
  have hstatus := (Account.carries_iff.1 h).2.1
  have hholds : record.holds Account.statusName (.string AccountStatus.leased.name) =
      account.isLeased := by
    rw [Bool.eq_iff_iff, Record.holds_string, hstatus]
    simp only [Option.some.injEq, Value.string.injEq, Account.isLeased, decide_eq_true_eq]
    exact Status.name_inj (α := AccountStatus)
  simp [Pool.removalGuard, Condition.evaluate, Clause.holds, hholds]

/-! ## Leases -/

namespace Lease

variable (accountId principalId : String) (previous next : LeaseStatus)

/-- The guard of a status change tells whether the lease that is carried has the expected status. -/
theorem evaluate_statusGuard {record : Record} {lease : Lease} (h : record.Carries lease) :
    (Pool.leaseStatusChange accountId principalId previous next).guard.evaluate (some record) =
      decide (lease.status = previous) := by
  have hstatus := (Lease.carries_iff.1 h).2.2.1
  rw [Bool.eq_iff_iff, Transition.evaluate_guard_some]
  show record.get? Lease.statusName = some (.string previous.name) ↔ _
  rw [hstatus]
  simp only [Option.some.injEq, Value.string.injEq, decide_eq_true_eq]
  exact Status.name_inj (α := LeaseStatus)

/-- After a status change the record carries the lease with the new status. -/
theorem carries_moved (now : Int64) {record : Record} {lease : Lease} (h : record.Carries lease) :
    (record.assign ((Pool.leaseStatusChange accountId principalId previous next).assignments
      now)).Carries (lease.moved now next) := by
  obtain ⟨haccount, hprincipal, hstatus, hcreated, hmodified, hstatusModified⟩ := Lease.carries_iff.1 h
  rw [Lease.carries_iff]
  simp (disch := decide) [Transition.assignments, Pool.leaseStatusChange, moved,
    Record.get?_insert_self, Record.get?_insert_of_ne, haccount, hprincipal, hcreated]

/-- A change of the status of a lease as an edit of its record. -/
def move (now : Int64) : Edit Lease where
  guard := (Pool.leaseStatusChange accountId principalId previous next).guard
  assignments := (Pool.leaseStatusChange accountId principalId previous next).assignments now
  allows lease := lease.status = previous
  change := moved now next
  evaluate_none := Transition.evaluate_guard_none _
  evaluate_some := evaluate_statusGuard accountId principalId previous next
  carries_assign := carries_moved accountId principalId previous next now

end Lease

end AccountPool
