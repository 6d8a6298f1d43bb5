/-
# Retention.Cache.Shared -- a cache behind a lock

A cache that several parties use at once is kept behind a lock, which each operation holds from its
beginning to its end. So whatever the parties do amounts to one sequence of operations on the cache
inside, and each operation here is the one of that cache.
-/
import Retention.Cache.Basic

namespace Retention

universe u v w

/-- A cache behind a lock. -/
structure SharedCache (κ : Type u) (α : Type v) [BEq κ] [Hashable κ] where
  /-- The cache that the lock protects. -/
  inner : Cache κ α

namespace SharedCache

variable {κ : Type u} {α : Type v} [BEq κ] [Hashable κ] {ρ : Type w}

/-- A cache without values behind a lock; it needs room for one value. -/
def create (capacity : Nat) : Except SetupError (SharedCache κ α) :=
  (Cache.create capacity).map mk

/-- An operation on the cache inside, made while holding the lock. -/
def locked (op : Cache κ α → Step (Cache κ α) ρ) (c : SharedCache κ α) :
    Step (SharedCache κ α) ρ :=
  (op c.inner).lift mk

/-- Adds a value as the most recent one; the result is the value evicted for it. -/
def add (keyOf : α → κ) (c : SharedCache κ α) (x : α) : Step (SharedCache κ α) (Option α) :=
  c.locked (·.add keyOf x)

/-- Adds values while holding the lock once; the result lists the values evicted. -/
def addAll (keyOf : α → κ) (c : SharedCache κ α) (xs : List α) :
    Step (SharedCache κ α) (List α) :=
  c.locked (·.addAll keyOf xs)

/-- The least recent value leaves. -/
def evict (keyOf : α → κ) (c : SharedCache κ α) : Step (SharedCache κ α) (Option α) :=
  c.locked (·.evict keyOf)

/-- The cache without values. -/
def clear (c : SharedCache κ α) : SharedCache κ α := ⟨c.inner.clear⟩

instance : Inspect (SharedCache κ α) :=
  ⟨fun c => Text.record "ConcurrentLruCache" [
    Text.field "len" (inspect c.inner.size),
    Text.field "capacity" (inspect c.inner.capacity)]⟩

end SharedCache

end Retention
