import AccountPool.Command.Answer
import AccountPool.Proofs.Pool.Operations

/-!
# What commands print

An answer prints what its program gives and changes nothing else. So what a command prints, and the store and
the clock after it, can be read off the operation of the pool that it stands for.
-/

namespace AccountPool

open Json (Value)
open Program (Result)

namespace Answer

/-- Translating what a program gives changes nothing else. -/
theorem run_translate {α β σ : Type} (engine : Engine σ) (fuel : σ → Nat) (program : Program α)
    (translate : α → β) (state : σ) (time : Clock) :
    (program.bind fun result => .done (translate result)).run engine fuel state time =
      (program.run engine fuel state time).map (Option.map translate) id := by
  rw [Program.run_bind]
  obtain ⟨_ | result, next, later⟩ := program.run engine fuel state time <;> rfl

variable {α σ : Type} [Entity α]

/-- What is printed if there may be no entity. -/
def printed (absent : Except Failure Value) : Result (Option α) → Except Failure Value
  | .ok (some entity) => .ok (Entity.toValue entity)
  | .ok none => absent
  | .error error => .error (.pool error)

variable (engine : Engine σ) (fuel : σ → Nat) (state : σ) (time : Clock)

/-- The answer that prints an entity. -/
theorem run_one (program : Program (Result α)) :
    (one program).run engine fuel state time =
      (program.run engine fuel state time).map
        (Option.map fun result => (result.map Entity.toValue).mapError .pool) id :=
  run_translate _ _ _ _ _ _

/-- The answer that prints an entity which has to be there. -/
theorem run_found (program : Program (Result (Option α))) (sought : Sought) (key : String) :
    (found program sought key).run engine fuel state time =
      (program.run engine fuel state time).map
        (Option.map (printed (.error (.notFound sought key)))) id := by
  rw [← run_translate]
  refine congrArg (fun next => (program.bind next).run engine fuel state time) (funext fun result => ?_)
  obtain error | _ | entity := result <;> rfl

/-- The answer that prints an entity or null. -/
theorem run_optional (program : Program (Result (Option α))) :
    (optional program).run engine fuel state time =
      (program.run engine fuel state time).map (Option.map (printed (.ok .null))) id := by
  rw [← run_translate]
  refine congrArg (fun next => (program.bind next).run engine fuel state time) (funext fun result => ?_)
  obtain error | _ | entity := result <;> rfl

/-- The answer that prints a list of entities. -/
theorem run_all (program : Program (Result (List α))) :
    (all program).run engine fuel state time =
      (program.run engine fuel state time).map
        (Option.map fun result =>
          (result.map fun entities => .array (entities.map Entity.toValue)).mapError .pool) id :=
  run_translate _ _ _ _ _ _

section Gives

variable {engine : Engine σ} {fuel : σ → Nat} {state : σ} {time : Clock}

/-- An entity is printed if the program gives one. -/
theorem one_gives {program : Program (Result α)} {result : Result α}
    (h : (program.run engine fuel state time).1 = some result) :
    ((one program).run engine fuel state time).1 =
      some ((result.map Entity.toValue).mapError .pool) := by
  rw [run_one, Prod.map_fst, h]
  rfl

/-- An entity that has to be there is printed if the program gives one. -/
theorem found_gives {program : Program (Result (Option α))} {result : Result (Option α)}
    (h : (program.run engine fuel state time).1 = some result) (sought : Sought) (key : String) :
    ((found program sought key).run engine fuel state time).1 =
      some (printed (.error (.notFound sought key)) result) := by
  rw [run_found, Prod.map_fst, h]
  rfl

/-- An entity or null is printed. -/
theorem optional_gives {program : Program (Result (Option α))} {result : Result (Option α)}
    (h : (program.run engine fuel state time).1 = some result) :
    ((optional program).run engine fuel state time).1 = some (printed (.ok .null) result) := by
  rw [run_optional, Prod.map_fst, h]
  rfl

/-- A list is printed if the program gives one. -/
theorem all_gives {program : Program (Result (List α))} {result : Result (List α)}
    (h : (program.run engine fuel state time).1 = some result) :
    ((all program).run engine fuel state time).1 =
      some ((result.map fun entities => .array (entities.map Entity.toValue)).mapError .pool) := by
  rw [run_all, Prod.map_fst, h]
  rfl

end Gives

end Answer

/-- What a command about accounts prints or why it fails, and the store and the clock after it. -/
def AccountCommand.run (backend : Backend) (settings : PoolSettings) (command : AccountCommand)
    (state : Store × Clock) : Option (Except Failure Value) × Store × Clock :=
  (command.answer (.ofSettings settings)).run backend.perform (fun store => Scan.steps store.size)
    state.1 state.2

end AccountPool
