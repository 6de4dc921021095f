import AccountPool.Text.Quoted

/-!
# Availability and lifecycle states

Whether a pooled account may be handed out, and how far a lease has come. Both kinds of status are
written by name; `parse?_name` says that a name reads back as its status, and `name_of_parse?` that
nothing else is read.
-/

namespace AccountPool

/-- Which of the two kinds of status a text should name. -/
inductive StatusKind where
  | account
  | lease
deriving DecidableEq, Repr

/-- The words for a kind of status. -/
def StatusKind.words : StatusKind → String
  | .account => "account status"
  | .lease => "lease status"

/-- Availability of a pooled account. -/
inductive AccountStatus where
  | notReady
  | ready
  | leased
deriving DecidableEq, Repr, Inhabited

/-- Lifecycle of a lease, independent of the status of the leased account. -/
inductive LeaseStatus where
  | active
  | resetLock
  | financeLock
  | decommissioned
deriving DecidableEq, Repr, Inhabited

/-- The written name of an account status. -/
def AccountStatus.name : AccountStatus → String
  | .notReady => "NotReady"
  | .ready => "Ready"
  | .leased => "Leased"

/-- The written name of a lease status. -/
def LeaseStatus.name : LeaseStatus → String
  | .active => "Active"
  | .resetLock => "ResetLock"
  | .financeLock => "FinanceLock"
  | .decommissioned => "Decommissioned"

/-- A kind of status: all of its values in order of declaration, each with a name of its own. -/
class Status (α : Type) where
  kind : StatusKind
  all : List α
  name : α → String
  mem_all : ∀ status : α, status ∈ all
  name_injective : ∀ first second : α, name first = name second → first = second

instance : Status AccountStatus where
  kind := .account
  all := [.notReady, .ready, .leased]
  name := AccountStatus.name
  mem_all status := by cases status <;> decide
  name_injective first second := by cases first <;> cases second <;> decide

instance : Status LeaseStatus where
  kind := .lease
  all := [.active, .resetLock, .financeLock, .decommissioned]
  name := LeaseStatus.name
  mem_all status := by cases status <;> decide
  name_injective first second := by cases first <;> cases second <;> decide

namespace Status

/-- The names of a kind of status, in order of declaration. -/
def names (α : Type) [Status α] : List String :=
  (all : List α).map name

/-- The status with the given name. -/
def parse? {α : Type} [Status α] (text : String) : Option α :=
  (all : List α).find? fun status => name status = text

theorem name_of_parse? {α : Type} [Status α] {text : String} {status : α}
    (hfound : parse? text = some status) : name status = text := by
  simpa using List.find?_some hfound

theorem parse?_name {α : Type} [Status α] (status : α) : parse? (name status) = some status := by
  cases hfound : (parse? (name status) : Option α) with
  | none => simpa using List.find?_eq_none.1 hfound status (mem_all status)
  | some other => rw [name_injective other status (name_of_parse? hfound)]

/-- Two statuses with the same name are the same. -/
theorem name_inj {α : Type} [Status α] {first second : α} :
    name first = name second ↔ first = second :=
  ⟨name_injective first second, congrArg name⟩

end Status

/-- A text that names no status of the expected kind. -/
structure StatusError where
  kind : StatusKind
  raw : String
deriving DecidableEq, Repr

/-- The names that would have been accepted. -/
def StatusError.expected (error : StatusError) : List String :=
  match error.kind with
  | .account => Status.names AccountStatus
  | .lease => Status.names LeaseStatus

/-- The wording of a refused status. -/
def StatusError.message (error : StatusError) : String :=
  "invalid " ++ error.kind.words ++ " value '" ++ error.raw ++ "'; expected one of: " ++
    Text.quotedList error.expected

/-- The status that a text names. -/
def Status.parse {α : Type} [Status α] (text : String) : Except StatusError α :=
  match Status.parse? text with
  | some status => .ok status
  | none => .error ⟨Status.kind α, text⟩

end AccountPool
