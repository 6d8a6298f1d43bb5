/-
# Retention.Queue -- first in, first out, with a limit

A queue holds at most `capacity` items. They leave in the order in which they came: an item that
arrives at a full queue makes the oldest one leave first, and the caller gets that one back. A queue
without any room is allowed and hands back every item at once.

An item that left belongs to the caller, who may change it without any effect on the queue.
-/
import Retention.Chain.Audit
import Retention.Chain.Walk
import Retention.Drain
import Retention.Occupancy
import Retention.Step
import Retention.Visit

namespace Retention

universe u v

/-- An item outside any queue: about to enter one, or handed back by one. -/
structure Item (α : Type u) where
  /-- What the item holds. -/
  value : α
deriving Repr

instance {α : Type u} [Inspect α] : Inspect (Item α) :=
  ⟨fun i => Text.record "QueueItem" [Text.field "value" (inspect i.value)]⟩

/-- Two items are the same when what they hold is. -/
instance {α : Type u} [BEq α] : BEq (Item α) :=
  ⟨fun i j => i.value == j.value⟩

/-- First in, first out, with a limit. -/
structure Queue (α : Type u) where
  /-- The items, the newest in front. -/
  chain : Chain α := {}
  /-- How many items are held at most. -/
  capacity : Nat
deriving DecidableEq, Repr

namespace Queue

variable {α : Type u}

/-- A queue without items. -/
def create (capacity : Nat) : Queue α := { capacity }

/-! ## Reading -/

/-- The number of items. -/
def size (q : Queue α) : Nat := q.chain.size

/-- How full the queue is. -/
def occupancy (q : Queue α) : Occupancy := ⟨q.size, q.capacity⟩

/-- No further item fits. -/
def isFull (q : Queue α) : Bool := q.occupancy.isFull

/-- The items from newest to oldest. -/
def toList (q : Queue α) : List α := q.chain.toList

/-- The items from oldest to newest. -/
def toListRev (q : Queue α) : List α := q.chain.toListRev

/-- Shows the items to a visitor, the newest first, until it declines one. -/
def visit {σ : Type v} (visitor : σ → α → σ × Bool) (memory : σ) (q : Queue α) : σ :=
  Retention.visit visitor memory q.toList

/-- Shows the items to a visitor, the oldest first, until it declines one. -/
def visitRev {σ : Type v} (visitor : σ → α → σ × Bool) (memory : σ) (q : Queue α) : σ :=
  Retention.visit visitor memory q.toListRev

/-- The item that leaves next. -/
def oldest? (q : Queue α) : Option α := q.chain.back?

/-- The item that came last. -/
def newest? (q : Queue α) : Option α := q.chain.front?

/-! ## Entering and leaving -/

/-- The oldest item leaves. -/
def dequeue? (q : Queue α) : Option (Item α × Queue α) :=
  q.chain.popBack?.map fun (x, chain) => (⟨x⟩, { q with chain })

/-- The queue with an item in front, whether or not there is room. -/
def enter (q : Queue α) (item : Item α) : Queue α :=
  { q with chain := (q.chain.pushFront item.value).2 }

/-- An item enters; the result is the item that had to leave for it. -/
def enqueue (q : Queue α) (item : Item α) : Step (Queue α) (Option (Item α)) :=
  if q.capacity = 0 then { state := q, result := some item }
  else if q.isFull then
    let events := [.queueOverflowed q.capacity]
    match q.dequeue? with
    | some (oldest, q) => { state := q.enter item, result := some oldest, events }
    | none => { state := q.enter item, result := none, events }
  else { state := q.enter item, result := none }

/-- A bare value enters; the result is the value that had to leave for it. -/
def push (q : Queue α) (x : α) : Step (Queue α) (Option α) :=
  (q.enqueue ⟨x⟩).map (Option.map Item.value)

/-- The item that leaves belongs to the caller, who lets it enter again at once. The result is what
enqueueing it gives, or nothing if there was no item. -/
def requeue (q : Queue α) : Step (Queue α) (Option (Item α)) :=
  match q.dequeue? with
  | some (oldest, rest) => rest.enqueue oldest
  | none => { state := q, result := none }

/-- All items in the order in which they leave, and the queue they leave behind. -/
def drain (q : Queue α) : List (Item α) × Queue α := takeOut dequeue? q.size q

/-- The queue without items. -/
def clear (q : Queue α) : Queue α := { q with chain := q.chain.clear }

/-! ## Guarding -/

/-- The links are in good order and the limit is kept, or the first thing wrong. -/
def audit (q : Queue α) : Except Violation Unit := do
  q.chain.audit
  if q.capacity < q.size then .error (.queueOverfull q.size q.capacity) else .ok ()

/-- Raises the alarm when the audit fails. -/
def guard (q : Queue α) : Except Alarm Unit :=
  q.audit.mapError (.violated .queue)

instance [Inspect α] : Inspect (Queue α) :=
  ⟨fun q => Text.record "EvictionQueue" [
    Text.field "list" (inspect q.chain),
    Text.field "capacity" (inspect q.capacity)]⟩

end Queue

end Retention
