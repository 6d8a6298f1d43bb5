/-
# Retention.Cache.Audit -- does the index of a cache fit its values?

A cache is in good order when its chain is, when it holds no more than its capacity, and when the
index leads from the key of each value to the slot of that very value and knows no other key. The
audit asks in this order: the links, the number of keys, the limit, and then each value from the
most recent on.
-/
import Retention.Cache.Basic
import Retention.Chain.Audit

namespace Retention.Cache

universe u v

variable {κ : Type u} {α : Type v} [BEq κ] [Hashable κ]

/-- What is wrong with the index entry for the value in a slot. -/
def misindexed? (keyOf : α → κ) (c : Cache κ α) (entry : Slot × α) : Option Violation :=
  match c.index[keyOf entry.2]? with
  | none => some .keyNotIndexed
  | some s => if s = entry.1 then none else some .keyMisplaced

/-- The cache is in good order, or the first thing wrong with it. -/
def audit (keyOf : α → κ) (c : Cache κ α) : Except Violation Unit := do
  c.chain.audit
  if c.index.size ≠ c.size then .error (.indexSize c.index.size c.size)
  else if c.capacity < c.size then .error .cacheOverfull
  else
    match c.chain.entries.findSome? (c.misindexed? keyOf) with
    | some fault => .error fault
    | none => .ok ()

/-- Raises the alarm when the audit fails. -/
def guard (keyOf : α → κ) (c : Cache κ α) : Except Alarm Unit :=
  (c.audit keyOf).mapError (.violated .cache)

end Retention.Cache
