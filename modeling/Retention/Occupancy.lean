/-
# Retention.Occupancy -- how full a bounded collection is

Whatever the rule by which a collection drops elements, a monitor asks it the same two numbers: how
many elements it holds and how many it may hold. Being empty and being full are read off these two.
A collection without any room is empty and full at once.
-/

namespace Retention

/-- How many elements a collection holds and how many it may hold. -/
structure Occupancy where
  /-- The number of elements held. -/
  held : Nat
  /-- The largest number of elements held at once. -/
  capacity : Nat
deriving DecidableEq, Repr

namespace Occupancy

/-- Nothing is held. -/
def isEmpty (o : Occupancy) : Bool :=
  o.held == 0

/-- No further element fits. -/
def isFull (o : Occupancy) : Bool :=
  o.capacity ≤ o.held

@[simp] theorem isFull_iff {o : Occupancy} : o.isFull = true ↔ o.capacity ≤ o.held := by
  simp [isFull]

end Occupancy

end Retention
