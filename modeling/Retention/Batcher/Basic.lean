/-
# Retention.Batcher.Basic -- fresh values, handed out in full batches

A batcher gathers values in a ring. Whenever a value is pushed, the values at the old end that have
grown stale are dropped first; then the new value enters, and if the ring is full now, all its
values leave together as one batch, oldest first. Nothing happens between pushes: a stale value
stays until the next push, and a flush by hand hands it out like any other.
-/
import Retention.Occupancy
import Retention.Ring.Basic
import Retention.Step

namespace Retention

universe u

/-- Fresh values, handed out in full batches. -/
structure Batcher (α : Type u) where
  /-- The values gathered. -/
  ring : Ring α
  /-- How old a value may grow. -/
  window : Duration
deriving DecidableEq, Repr

namespace Batcher

variable {α : Type u}

/-- A batcher without values. It needs room for one, and a window that is not empty. -/
def create (capacity : Nat) (window : Duration) : Except SetupError (Batcher α) :=
  if capacity = 0 then .error (.zeroCapacity .ring)
  else if window.nanos = 0 then .error .zeroExpiry
  else .ok { ring := Ring.empty capacity, window }

/-! ## Reading -/

/-- The number of values gathered. -/
def size (b : Batcher α) : Nat := b.ring.len

/-- The number of values in a batch. -/
def capacity (b : Batcher α) : Nat := b.ring.capacity

/-- How full the batcher is. -/
def occupancy (b : Batcher α) : Occupancy := ⟨b.size, b.capacity⟩

/-- The values gathered, from oldest to newest. -/
def toList (b : Batcher α) : List α := b.ring.toList

/-! ## Gathering and handing out -/

/-- The batcher without the stale values at its old end; a report if there were any. -/
def dropStale (b : Batcher α) (now : Instant) : Step (Batcher α) Unit :=
  let ring := b.ring.dropStale now b.window
  let dropped := b.ring.len - ring.len
  { state := { b with ring }
    result := ()
    events := if dropped = 0 then [] else [.staleDropped dropped ring.len] }

/-- The batcher with one more value; if it is full then, the result is the batch of all values. -/
def gather (b : Batcher α) (a : Arrival α) : Step (Batcher α) (Option (List α)) :=
  let ring := b.ring.insert a
  if ring.len = ring.capacity then
    let (batch, ring) := ring.drain
    { state := { b with ring }, result := some batch, events := [.batchFlushed batch.length] }
  else { state := { b with ring }, result := none }

/-- A value enters at an instant, after the stale values have left; if it fills the batcher, the
result is the batch. -/
def push (b : Batcher α) (now : Instant) (x : α) : Step (Batcher α) (Option (List α)) :=
  let cleaned := b.dropStale now
  let gathered := cleaned.state.gather ⟨x, now⟩
  { state := gathered.state
    result := gathered.result
    events := cleaned.events ++ gathered.events }

/-- All values from oldest to newest, stale ones too, and the batcher without them. -/
def flush (b : Batcher α) : List α × Batcher α :=
  let (values, ring) := b.ring.drain
  (values, { b with ring })

/-- The batcher without values. -/
def clear (b : Batcher α) : Batcher α := { b with ring := b.ring.clear }

instance : Inspect (Batcher α) :=
  ⟨fun b => Text.partialRecord "ExpiringRing" [
    Text.field "len" (inspect b.size),
    Text.field "capacity" (inspect b.capacity),
    Text.field "expiry" (inspect b.window)]⟩

end Batcher

end Retention
