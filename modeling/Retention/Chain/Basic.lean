/-
# Retention.Chain.Basic -- a sequence whose elements can be moved in place

A chain is a sequence with two ends whose elements live in an arena, each in a node that knows the
slots of its neighbours. An element keeps its slot for as long as it is in the chain, wherever it
is moved. Taking a node out of its place rewrites the links of its two neighbours and no others, so
an element can be removed from the middle or moved to an end without a walk.

Links are followed only to slots that hold a node. Where a neighbour's link should be rewritten but
there is no such node, the element was at an end, and the end moves instead.
-/
import Retention.Arena

namespace Retention

universe u

/-- An element of a chain with the slots of its neighbours. -/
structure Node (α : Type u) where
  /-- The element. -/
  value : α
  /-- The node before, towards the front. -/
  prev : Option Slot := none
  /-- The node after, towards the back. -/
  next : Option Slot := none
deriving DecidableEq, Repr

instance {α : Type u} [Inspect α] : Inspect (Node α) :=
  ⟨fun n => Text.record "Node" [
    Text.field "value" (inspect n.value),
    Text.field "prev" (inspect n.prev),
    Text.field "next" (inspect n.next)]⟩

/-- A sequence whose elements can be moved in place. -/
structure Chain (α : Type u) where
  /-- The nodes. -/
  arena : Arena (Node α) := {}
  /-- The slot of the front node. -/
  head : Option Slot := none
  /-- The slot of the back node. -/
  tail : Option Slot := none
deriving DecidableEq, Repr

instance {α : Type u} [Inspect α] : Inspect (Chain α) :=
  ⟨fun c => Text.record "IntrusiveList" [
    Text.field "arena" (inspect c.arena),
    Text.field "head" (inspect c.head),
    Text.field "tail" (inspect c.tail)]⟩

namespace Chain

variable {α : Type u}

/-! ## Reading -/

/-- The chain without elements. -/
def empty : Chain α := {}

/-- The number of elements. -/
def size (c : Chain α) : Nat := c.arena.live

/-- There is no element. -/
def isEmpty (c : Chain α) : Bool := c.arena.isEmpty

/-- Whether a slot holds an element. -/
def contains (c : Chain α) (s : Slot) : Bool := c.arena.contains s

/-- The element in a slot. -/
def get? (c : Chain α) (s : Slot) : Option α := (c.arena.get? s).map Node.value

/-- The element at the front. -/
def front? (c : Chain α) : Option α := c.head.bind c.get?

/-- The element at the back. -/
def back? (c : Chain α) : Option α := c.tail.bind c.get?

/-! ## Links -/

/-- Makes `next` the node after the given one; without such a node it becomes the front. -/
def setNext (c : Chain α) (node next : Option Slot) : Chain α :=
  match node.filter c.contains with
  | some s => { c with arena := c.arena.modify s fun n => { n with next } }
  | none => { c with head := next }

/-- Makes `prev` the node before the given one; without such a node it becomes the back. -/
def setPrev (c : Chain α) (node prev : Option Slot) : Chain α :=
  match node.filter c.contains with
  | some s => { c with arena := c.arena.modify s fun n => { n with prev } }
  | none => { c with tail := prev }

/-- Writes both links of a node. -/
def relink (c : Chain α) (s : Slot) (prev next : Option Slot) : Chain α :=
  { c with arena := c.arena.modify s fun n => { n with prev, next } }

/-- Takes a node out of its place: its neighbours become neighbours of each other, and the node is
left without links. -/
def unlink? (c : Chain α) (s : Slot) : Option (Chain α) :=
  (c.arena.get? s).map fun node =>
    let c := c.setNext node.prev node.next
    let c := c.setPrev node.next node.prev
    c.relink s none none

/-- Puts a node without links at the front. -/
def linkFront (c : Chain α) (s : Slot) : Chain α :=
  let old := c.head
  let c := c.relink s none old
  let c := c.setPrev old (some s)
  { c with head := some s }

/-- Puts a node without links at the back. -/
def linkBack (c : Chain α) (s : Slot) : Chain α :=
  let old := c.tail
  let c := c.relink s old none
  let c := c.setNext old (some s)
  { c with tail := some s }

/-! ## Adding, removing and moving -/

/-- Adds an element at the front. -/
def pushFront (c : Chain α) (x : α) : Slot × Chain α :=
  let (s, arena) := c.arena.insert { value := x }
  (s, { c with arena }.linkFront s)

/-- Adds an element at the back. -/
def pushBack (c : Chain α) (x : α) : Slot × Chain α :=
  let (s, arena) := c.arena.insert { value := x }
  (s, { c with arena }.linkBack s)

/-- Removes the element in a slot. -/
def remove? (c : Chain α) (s : Slot) : Option (α × Chain α) := do
  let c ← c.unlink? s
  let (node, arena) ← c.arena.remove? s
  return (node.value, { c with arena })

/-- Removes the element at the front. -/
def popFront? (c : Chain α) : Option (α × Chain α) := c.head.bind c.remove?

/-- Removes the element at the back. -/
def popBack? (c : Chain α) : Option (α × Chain α) := c.tail.bind c.remove?

/-- Moves the element in a slot to the front. -/
def moveToFront? (c : Chain α) (s : Slot) : Option (Chain α) :=
  if c.contains s then
    if c.head = some s then some c else (c.unlink? s).map (linkFront · s)
  else none

/-- Moves the element in a slot to the back. -/
def moveToBack? (c : Chain α) (s : Slot) : Option (Chain α) :=
  if c.contains s then
    if c.tail = some s then some c else (c.unlink? s).map (linkBack · s)
  else none

/-- Writes another element over the one in a slot. -/
def set? (c : Chain α) (s : Slot) (x : α) : Option (Chain α) :=
  if c.contains s then
    some { c with arena := c.arena.modify s fun n => { n with value := x } }
  else none

/-- The chain without elements, which also forgets its slots. -/
def clear (_ : Chain α) : Chain α := empty

end Chain

end Retention
