/-
# Retention.Heap.Audit -- does a heap keep its order?

A heap keeps its order when no element is less than the one above it. The audit looks at the
positions below the top in ascending order, so what it names is the first element out of order.
-/
import Retention.Error
import Retention.Heap.Basic

namespace Retention.Heap

universe u

variable {α : Type u}

/-- The element at `i` is less than the one above it. -/
def outOfOrder (cmp : α → α → Ordering) (a : Array α) (i : Nat) : Bool :=
  match a[i]?, a[parent i]? with
  | some x, some above => (cmp x above).isLT
  | _, _ => false

/-- The first position below the top whose element is less than the one above it. -/
def firstOutOfOrder? (cmp : α → α → Ordering) (h : Heap α) : Option Nat :=
  (List.range' 1 (h.size - 1)).find? (outOfOrder cmp h.items)

/-- No element is less than the one above it, or the first that is. -/
def audit (cmp : α → α → Ordering) (h : Heap α) : Except Violation Unit :=
  match firstOutOfOrder? cmp h with
  | none => .ok ()
  | some child => .error (.heapOrder (parent child) child)

/-- Raises the alarm when the audit fails. -/
def guard (cmp : α → α → Ordering) (h : Heap α) : Except Alarm Unit :=
  (h.audit cmp).mapError (.violated .heap)

instance [Inspect α] : Inspect (Heap α) :=
  ⟨fun h => Text.record "MinHeap" [Text.field "data" (inspect h.items)]⟩

end Retention.Heap
