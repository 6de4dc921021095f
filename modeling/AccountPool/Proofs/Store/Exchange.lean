import AccountPool.Store.Request

/-!
# Exchanges with an engine

A run of an engine is a list of requests that are sent one after the other. `Engine.exchanges` lists
each request with its answer and `Engine.after` is the state in which the run ends.
-/

namespace AccountPool

/-- A request with its answer. -/
structure Exchange where
  request : Request
  answer : request.Answer

namespace Engine

variable {σ : Type} (engine : Engine σ)

/-- The requests of a run with their answers. -/
def exchanges (state : σ) : List Request → List Exchange
  | [] => []
  | request :: requests =>
      ⟨request, (engine state request).1⟩ :: exchanges (engine state request).2 requests

/-- The state after a run. -/
def after (state : σ) : List Request → σ
  | [] => state
  | request :: requests => after (engine state request).2 requests

/-- What every request of a run keeps the run keeps. -/
theorem after_induction (invariant : σ → Prop) {state : σ} {requests : List Request}
    (hstep : ∀ request ∈ requests, ∀ state, invariant state → invariant (engine state request).2)
    (h : invariant state) : invariant (engine.after state requests) := by
  induction requests generalizing state with
  | nil => exact h
  | cons request requests ih =>
      exact ih (fun other hmem => hstep other (List.mem_cons_of_mem _ hmem))
        (hstep request List.mem_cons_self state h)

end Engine

namespace Request

/-- The table that a request is about. -/
def table : Request → Table
  | .get table _ | .put table _ _ | .update table _ _ _ | .delete table _ _ | .query table _ _
  | .page table _ _ => table

/-- The key that a request passes, if it passes one. -/
def key? : Request → Option Key
  | .get _ key | .update _ key _ _ | .delete _ key _ => some key
  | .put .. | .query .. => none
  | .page _ _ start => start

end Request

end AccountPool
