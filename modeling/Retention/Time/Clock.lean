/-
# Retention.Time.Clock -- instants, and a clock that is told the time

An instant is a point in time, counted from a start that all instants share. Collections never look
at a clock: they are handed the instant at which something happens. The clock here moves only when
it is told to. It stands at its origin plus the time elapsed, and reading it fails when no instant
lies that far. A clock that is never moved always shows its origin.
-/
import Retention.Time.Duration

namespace Retention

/-! ## Instants -/

/-- A point in time. -/
structure Instant where
  /-- The distance from the common start, in nanoseconds. -/
  nanos : Nat
deriving DecidableEq, Repr

namespace Instant

/-- The instants end before this many nanoseconds: their whole seconds fit into 63 bits. -/
def limit : Nat := Nat.pow 2 63 * nanosPerSecond

/-- The instant a duration later, if there is one. -/
def add? (t : Instant) (d : Duration) : Except ClockError Instant :=
  if t.nanos + d.nanos < limit then .ok ⟨t.nanos + d.nanos⟩ else .error .instantTooLate

/-- The nanoseconds since an earlier instant; none if it is not earlier. -/
def since (now earlier : Instant) : Nat := now.nanos - earlier.nanos

end Instant

/-! ## The clock -/

/-- A clock that moves only when it is told to. -/
structure AdjustableClock where
  /-- Where the clock stood when it was made. -/
  origin : Instant := ⟨0⟩
  /-- How far it has moved. -/
  elapsed : Duration := Duration.zero
deriving DecidableEq, Repr

namespace AdjustableClock

/-- The instant that the clock shows. -/
def now (c : AdjustableClock) : Except ClockError Instant := c.origin.add? c.elapsed

/-- The clock moved on by a duration. -/
def advance (c : AdjustableClock) (step : Duration) : Except ClockError AdjustableClock :=
  (c.elapsed.add? step).map fun elapsed => { c with elapsed }

end AdjustableClock

end Retention
