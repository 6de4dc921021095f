import AccountPool.Store.Request

/-!
# Stores that fail on purpose

A plan of faults makes an engine fail: a method stops working after some calls, the first deletes are
refused, and after each refused delete somebody else changes the record. A repository is tried out
against such an engine.
-/

namespace AccountPool

/-- The methods of a store. -/
inductive Method where
  | get
  | put
  | update
  | delete
  | query
  | page
deriving DecidableEq, Repr

/-- The method that a request calls. -/
def Request.method : Request → Method
  | get .. => .get
  | put .. => .put
  | update .. => .update
  | delete .. => .delete
  | query .. => .query
  | page .. => .page

/-- What happens to a record right after its removal was refused. -/
inductive Reaction where
  | nothing
  /-- An attribute is set; an absent record is created. -/
  | set (name : String) (value : Json.Value)
  | remove

/-- The faults that are still to come. -/
structure FaultPlan where
  /-- For some methods, the number of calls that still work. -/
  allowances : List (Method × Nat) := []
  /-- The number of deletes that are refused without being tried. -/
  refusals : Nat := 0
  /-- The reactions to refused deletes, in order. -/
  reactions : List Reaction := []

namespace FaultPlan

/-- The number of calls of a method that still work, if it is limited. -/
def allowance (plan : FaultPlan) (method : Method) : Option Nat :=
  (plan.allowances.find? fun entry => entry.1 = method).map Prod.snd

/-- Count one call of a method. -/
def spend (plan : FaultPlan) (method : Method) : FaultPlan :=
  { plan with
    allowances := plan.allowances.map fun entry =>
      if entry.1 = method then (entry.1, entry.2 - 1) else entry }

/-- Let the next reaction happen to a record. -/
def react {σ : Type} (engine : Engine σ) (plan : FaultPlan) (table : Table) (key : Key) (state : σ) :
    σ × FaultPlan :=
  match plan.reactions with
  | [] => (state, plan)
  | reaction :: reactions =>
      let state := match reaction with
        | .nothing => state
        | .set name value => (engine state (.update table key [(name, value)] none)).2
        | .remove => (engine state (.delete table key none)).2
      (state, { plan with reactions })

/-- A delete that may be refused, and the reaction to a refusal. -/
def delete {σ : Type} (engine : Engine σ) (state : σ) (plan : FaultPlan) (table : Table) (key : Key)
    (condition : Option Condition) : Except StoreError (Option Record) × σ × FaultPlan :=
  let attempt : Except StoreError (Option Record) × σ × FaultPlan :=
    match plan.refusals with
    | refusals + 1 => (.error (.conditionFailed table.name), state, { plan with refusals })
    | 0 =>
        let (answer, state) := engine state (.delete table key condition)
        (answer, state, plan)
  match attempt with
  | (.error (.conditionFailed name), state, plan) =>
      (.error (.conditionFailed name), react engine plan table key state)
  | attempt => attempt

/-- An engine with a plan of faults. -/
def perform {σ : Type} (engine : Engine σ) : Engine (σ × FaultPlan) := fun (state, plan) request =>
  match plan.allowance request.method with
  | some 0 => (.error .poisoned, state, plan)
  | _ =>
      let plan := plan.spend request.method
      match request with
      | .delete table key condition => delete engine state plan table key condition
      | request =>
          let (answer, state) := engine state request
          (answer, state, plan)

end FaultPlan

end AccountPool
