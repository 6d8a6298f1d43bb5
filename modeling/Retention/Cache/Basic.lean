/-
# Retention.Cache.Basic -- the most recent values, one per key

A cache holds at most `capacity` values. A chain keeps them by recency, the most recent in front,
and an index leads from a key to the slot of its value. A value whose key is indexed is written over
the one it finds there and moves to the front; any other enters at the front, and if that is one too
many the value at the back is evicted.

The key of a value is computed by a function handed to each operation. As long as that function is
the same throughout, the index knows exactly the keys of the values held. If keys change while their
values are inside, the index keeps the keys under which values entered, and an operation goes by
what the index says: a key may then lead to a slot that is empty or used by another value.

Evicted values are results of the operations, so whoever wants to be told of evictions reads them
there.
-/
import Retention.Chain.Walk
import Retention.Occupancy
import Retention.Step
import Retention.Visit
import Std.Data.HashMap

namespace Retention

universe u v w

/-- The most recent values, one per key. -/
structure Cache (κ : Type u) (α : Type v) [BEq κ] [Hashable κ] where
  /-- The values, the most recent in front. -/
  chain : Chain α := {}
  /-- The slot that each key leads to. -/
  index : Std.HashMap κ Slot := ∅
  /-- How many values are held at most. -/
  capacity : Nat

namespace Cache

variable {κ : Type u} {α : Type v} [BEq κ] [Hashable κ]

/-- A cache without values; it needs room for one. -/
def create (capacity : Nat) : Except SetupError (Cache κ α) :=
  if capacity = 0 then .error (.zeroCapacity .cache) else .ok { capacity }

/-! ## Reading -/

/-- The number of values. -/
def size (c : Cache κ α) : Nat := c.chain.size

/-- How full the cache is. -/
def occupancy (c : Cache κ α) : Occupancy := ⟨c.size, c.capacity⟩

/-- The values from most recent to least recent. -/
def toList (c : Cache κ α) : List α := c.chain.toList

/-- The values from least recent to most recent. -/
def toListRev (c : Cache κ α) : List α := c.chain.toListRev

/-- Shows the values to a visitor, the most recent first, until it declines one. -/
def visit {σ : Type w} (visitor : σ → α → σ × Bool) (memory : σ) (c : Cache κ α) : σ :=
  Retention.visit visitor memory c.toList

/-- Shows the values to a visitor, the least recent first, until it declines one. -/
def visitRev {σ : Type w} (visitor : σ → α → σ × Bool) (memory : σ) (c : Cache κ α) : σ :=
  Retention.visit visitor memory c.toListRev

/-- The value that a key leads to. Looking does not make it more recent. -/
def peek? (c : Cache κ α) (key : κ) : Option α := c.index[key]?.bind c.chain.get?

/-- Whether the index knows a key. -/
def contains (c : Cache κ α) (key : κ) : Bool := c.index.contains key

/-! ## Adding and evicting -/

/-- The value at the back leaves, and the index forgets its key. The result is that value. -/
def evict (keyOf : α → κ) (c : Cache κ α) : Step (Cache κ α) (Option α) :=
  match c.chain.popBack? with
  | none => { state := c, result := none }
  | some (oldest, chain) =>
    { state := { c with chain, index := c.index.erase (keyOf oldest) }
      result := some oldest
      events := [.entryEvicted chain.size c.capacity] }

/-- Writes a value over the one in a slot and moves it to the front; an empty slot stays as it
is, and the value is lost. -/
def renew (c : Cache κ α) (s : Slot) (x : α) : Cache κ α :=
  match (c.chain.set? s x).bind (·.moveToFront? s) with
  | some chain => { c with chain }
  | none => c

/-- Puts a value at the front under its key, whether or not there is room. -/
def enter (keyOf : α → κ) (c : Cache κ α) (x : α) : Cache κ α :=
  let (s, chain) := c.chain.pushFront x
  { c with chain, index := c.index.insert (keyOf x) s }

/-- Adds a value as the most recent one. The result is the value evicted for it, if any. -/
def add (keyOf : α → κ) (c : Cache κ α) (x : α) : Step (Cache κ α) (Option α) :=
  match c.index[keyOf x]? with
  | some s => { state := c.renew s x, result := none }
  | none =>
    let c := c.enter keyOf x
    if c.capacity < c.size then c.evict keyOf else { state := c, result := none }

/-- Adds values one after the other. The result lists the values evicted, in that order. -/
def addAll (keyOf : α → κ) (c : Cache κ α) (xs : List α) : Step (Cache κ α) (List α) :=
  (Step.forEach (add keyOf) c xs).map fun evicted => evicted.filterMap id

/-- The cache without values; none of them counts as evicted. -/
def clear (c : Cache κ α) : Cache κ α := { c with chain := c.chain.clear, index := ∅ }

instance : Inspect (Cache κ α) :=
  ⟨fun c => Text.partialRecord "LruCache" [
    Text.field "len" (inspect c.size),
    Text.field "capacity" (inspect c.capacity)]⟩

end Cache

end Retention
