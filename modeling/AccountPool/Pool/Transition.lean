import AccountPool.Pool.Lookup

/-!
# Guarded changes of one attribute

A transition replaces the expected value of an attribute by another one and stamps the record, all in
one conditional update. The clock is read before the update, whether or not it succeeds.
-/

namespace AccountPool

open Json (Value)
open Program (Result)

/-- A change of one attribute of one record. -/
structure Transition where
  /-- The words for the change, should it be refused. -/
  rejection : Rejection
  /-- The attribute to change. -/
  name : String
  /-- The attributes that are set to the time of the change. -/
  stamps : List String

namespace Transition

/-- The attribute has the expected value or, where none is expected, is absent from the record. -/
def guard (transition : Transition) : Condition :=
  match transition.rejection.previous with
  | some previous => [.equals transition.name (.string previous)]
  | none => [.present, .missing transition.name]

/-- The attributes that a granted change sets at a time. -/
def assignments (transition : Transition) (now : Int64) : Assignments :=
  (transition.name, .string transition.rejection.next) ::
    transition.stamps.map fun stamp => (stamp, .int64 now)

/-- The entity after the change, or why there was none. -/
def settle {α : Type} [Entity α] (transition : Transition) (table : Table) :
    Except StoreError Record → Result α
  | .ok record => Pool.decode table record
  | .error (.conditionFailed _) => .error (.rejected transition.rejection)
  | .error error => .error (.store error)

/-- Make a change of the record under a key. -/
def apply {α : Type} [Entity α] (transition : Transition) (table : Table) (key : Key) :
    Program (Result α) :=
  .clock fun now =>
    .call (.update table key (transition.assignments now) (some transition.guard)) fun answer =>
      .done (transition.settle table answer)

end Transition

end AccountPool
