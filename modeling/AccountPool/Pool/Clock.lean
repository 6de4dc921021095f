/-!
# Clocks

A clock shows a number of seconds and advances by a fixed step at every reading, wrapping around in
64 bits. A clock with step zero stands still.
-/

namespace AccountPool

/-- A clock: the next reading, and what is added at each reading. -/
structure Clock where
  now : Int64
  step : Int64 := 1
deriving DecidableEq, Repr

namespace Clock

/-- The clock after one reading. -/
def tick (clock : Clock) : Clock :=
  { clock with now := clock.now + clock.step }

/-- The first readings of a clock. -/
def readings (clock : Clock) : Nat → List Int64
  | 0 => []
  | count + 1 => clock.now :: readings clock.tick count

end Clock

end AccountPool
