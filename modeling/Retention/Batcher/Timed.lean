/-
# Retention.Batcher.Timed -- a batcher that reads the time from a clock

Here a batcher and the clock it goes by are one state. A push reads the clock before it does
anything else, and moving the clock is all or nothing, so a step that fails leaves both as they
were. Every step returns the state afterwards, also when it fails.
-/
import Retention.Batcher.Basic

namespace Retention

universe u

/-- A batcher with the clock it goes by. -/
structure TimedBatcher (α : Type u) where
  /-- The batcher. -/
  batcher : Batcher α
  /-- The clock. -/
  clock : AdjustableClock := {}
deriving DecidableEq, Repr

namespace TimedBatcher

variable {α : Type u}

/-- Pushes a value at the time that the clock shows. -/
def push (t : TimedBatcher α) (x : α) :
    Step (TimedBatcher α) (Except ClockError (Option (List α))) :=
  match t.clock.now with
  | .error e => { state := t, result := .error e }
  | .ok now =>
    let pushed := t.batcher.push now x
    { state := { t with batcher := pushed.state }
      result := .ok pushed.result
      events := pushed.events }

/-- Moves the clock on. -/
def advance (t : TimedBatcher α) (d : Duration) :
    Step (TimedBatcher α) (Except ClockError Unit) :=
  match t.clock.advance d with
  | .error e => { state := t, result := .error e }
  | .ok clock => { state := { t with clock }, result := .ok () }

/-- The clock shows a time after its origin, which may be earlier than the one it showed: a clock of
one's own may do so. -/
def setTime (t : TimedBatcher α) (elapsed : Duration) : TimedBatcher α :=
  { t with clock.elapsed := elapsed }

/-- Hands out all values gathered. -/
def flush (t : TimedBatcher α) : List α × TimedBatcher α :=
  let (values, batcher) := t.batcher.flush
  (values, { t with batcher })

/-- Drops all values gathered. -/
def clear (t : TimedBatcher α) : TimedBatcher α :=
  { t with batcher := t.batcher.clear }

end TimedBatcher

end Retention
