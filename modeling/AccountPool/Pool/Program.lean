import AccountPool.Pool.Clock
import AccountPool.Pool.Error
import AccountPool.Store.Scan

/-!
# Programs over a store and a clock

An operation of the pool is a program: it calls the store, reads the clock, scans tables and in the
end gives a value. Each call and each reading is a step of its own, so that the steps of several
programs can be interleaved. `Program.run` executes one program by itself.
-/

namespace AccountPool

/-- A sequence of calls that depends on the answers to earlier ones. -/
inductive Program (α : Type) where
  | done (result : α)
  | call (request : Request) (resume : request.Answer → Program α)
  | clock (resume : Int64 → Program α)
  /-- Scan a table and keep the records that pass a test. -/
  | scan (table : Table) (pageSize : Nat) (keep : Record → Bool)
      (resume : Except StoreError (List Record) → Program α)

namespace Program

/-- Go on with another program. -/
def bind {α β : Type} : Program α → (α → Program β) → Program β
  | done result, next => next result
  | call request resume, next => call request fun answer => (resume answer).bind next
  | clock resume, next => clock fun now => (resume now).bind next
  | scan table pageSize keep resume, next =>
      scan table pageSize keep fun answer => (resume answer).bind next

instance : Monad Program where
  pure := done
  bind := bind

/-- Read the clock. -/
def now : Program Int64 :=
  clock done

/-- What an operation gives, or why it fails. -/
abbrev Result (α : Type) : Type :=
  Except PoolError α

variable {σ : Type}

/-- Execute a program by itself. A scan is given up after the number of steps that `fuel` allows for
the state in which it starts; then there is no result. -/
def run (engine : Engine σ) (fuel : σ → Nat) {α : Type} :
    Program α → σ → Clock → Option α × σ × Clock
  | done result, state, time => (some result, state, time)
  | call request resume, state, time =>
      let (answer, state) := engine state request
      run engine fuel (resume answer) state time
  | clock resume, state, time => run engine fuel (resume time.now) state time.tick
  | scan table pageSize keep resume, state, time =>
      match (Scan.begin pageSize).drain (.ofEngine engine table) keep (fuel state) state [] with
      | (some answer, state) => run engine fuel (resume answer) state time
      | (none, state) => (none, state, time)

end Program

end AccountPool
