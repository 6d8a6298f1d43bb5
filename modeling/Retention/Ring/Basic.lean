/-
# Retention.Ring.Basic -- arrivals in a circle of slots

A ring has a fixed number of slots and uses a window of them that may run over the end and go on at
the beginning: the `len` slots from `start` on, with `stop` just behind the window. Values enter at
`stop` and leave at `start`, each with the instant at which it entered. When a value enters a full
ring it takes the slot of the oldest one.
-/
import Retention.Time.Clock

namespace Retention

universe u

/-- A value and the instant at which it entered. -/
structure Arrival (α : Type u) where
  /-- The value. -/
  value : α
  /-- When it entered. -/
  time : Instant
deriving DecidableEq, Repr

/-- At `now` the value is older than the window allows. A value exactly as old as the window is
not stale, nor is one that arrives in the future. -/
def Arrival.isStale {α : Type u} (a : Arrival α) (now : Instant) (window : Duration) : Bool :=
  window.nanos < now.since a.time

/-- Arrivals in a circle of slots. -/
structure Ring (α : Type u) where
  /-- The slots of the circle. -/
  slots : Array (Option (Arrival α))
  /-- The slot of the oldest value. -/
  start : Nat := 0
  /-- The slot that the next value takes. -/
  stop : Nat := 0
  /-- The number of values. -/
  len : Nat := 0
deriving DecidableEq, Repr

namespace Ring

variable {α : Type u}

/-- A ring of empty slots. -/
def empty (capacity : Nat) : Ring α := { slots := Array.replicate capacity none }

/-- The number of slots. -/
def capacity (r : Ring α) : Nat := r.slots.size

/-- The slot `offset` places behind the oldest value. -/
def position (r : Ring α) (offset : Nat) : Nat := (r.start + offset) % r.capacity

/-- The slot after the given one. -/
def next (r : Ring α) (i : Nat) : Nat := (i + 1) % r.capacity

/-- The entry in a slot, if the slot holds one. -/
def get? (r : Ring α) (i : Nat) : Option (Arrival α) := r.slots[i]?.join

/-- The arrivals from oldest to newest. -/
def arrivals (r : Ring α) : List (Arrival α) :=
  (List.range r.len).filterMap fun offset => r.get? (r.position offset)

/-- The values from oldest to newest. -/
def toList (r : Ring α) : List α := r.arrivals.map Arrival.value

/-- The ring with all its slots empty. -/
def clear (r : Ring α) : Ring α := { slots := r.slots.map fun _ => none }

/-- All values from oldest to newest, and the ring without them. -/
def drain (r : Ring α) : List α × Ring α := (r.toList, r.clear)

/-- The ring without its oldest value. -/
def dropOldest (r : Ring α) : Ring α :=
  { r with
    slots := r.slots.setIfInBounds r.start none
    start := r.next r.start
    len := r.len - 1 }

/-- There is an oldest value and it is stale. A slot of the window without a value counts as
stale. -/
def oldestIsStale (r : Ring α) (now : Instant) (window : Duration) : Bool :=
  r.len ≠ 0 && (r.get? r.start).all (·.isStale now window)

/-- The ring without its oldest values up to the first one that is not stale. -/
def dropStale (r : Ring α) (now : Instant) (window : Duration) : Ring α :=
  if r.oldestIsStale now window then r.dropOldest.dropStale now window else r
termination_by r.len
decreasing_by
  next stale =>
  simp only [oldestIsStale, Bool.and_eq_true, decide_eq_true_eq] at stale
  exact Nat.sub_lt (Nat.pos_of_ne_zero stale.1) Nat.one_pos

/-- The ring with a new value; if it was full, the new value takes the slot of the oldest. -/
def insert (r : Ring α) (a : Arrival α) : Ring α :=
  if r.len < r.capacity then
    { r with
      slots := r.slots.setIfInBounds r.stop (some a)
      stop := r.next r.stop
      len := r.len + 1 }
  else
    { r with
      slots := r.slots.setIfInBounds r.start (some a)
      start := r.next r.start
      stop := r.next r.stop }

end Ring

end Retention
