/-
# Retention.Chain.Walk -- the elements of a chain in order

A walk starts at one end and follows the links of one direction. A chain of `n` elements is walked
in `n` steps, so a walk is given that many and ends by itself: also on links that lead in a circle
it terminates, and on a chain in good order it meets every element once.
-/
import Retention.Chain.Basic

namespace Retention.Chain

universe u

variable {α : Type u}

/-- At most `steps` elements with their slots, from a slot onwards, where `onward` is the link to
follow. -/
def walk (c : Chain α) (onward : Node α → Option Slot) :
    Nat → Option Slot → List (Slot × α)
  | 0, _ => []
  | _ + 1, none => []
  | steps + 1, some s =>
    match c.arena.get? s with
    | none => []
    | some node => (s, node.value) :: walk c onward steps (onward node)

/-- The elements with their slots, from front to back. -/
def entries (c : Chain α) : List (Slot × α) := c.walk Node.next c.size c.head

/-- The elements from front to back. -/
def toList (c : Chain α) : List α := c.entries.map Prod.snd

/-- The elements from back to front, by the links in that direction. -/
def toListRev (c : Chain α) : List α := (c.walk Node.prev c.size c.tail).map Prod.snd

end Retention.Chain
