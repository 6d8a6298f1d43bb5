/-
# Retention.Arena -- values in numbered slots that are used again

An arena keeps values in an array of slots and names each value by the number of its slot. A slot
whose value was taken out is remembered as free, and the next value goes into the slot freed last;
only when no slot is free does the array grow. So other structures can refer to values by slot, and
the array never holds more slots than there were values at one time.

A name outlives its value: after the value is taken out the same slot may hold another one. Whoever
keeps names must forget those of values taken out.
-/
import Retention.Text.Layout

namespace Retention

universe u

/-- The name of a slot. -/
structure Slot where
  /-- The position of the slot in its arena. -/
  index : Nat
deriving DecidableEq, Repr, Hashable

instance : Inspect Slot :=
  ⟨fun s => Text.variantOf "SlotId" (inspect s.index)⟩

/-- Values in numbered slots. -/
structure Arena (α : Type u) where
  /-- The slots, each with a value or empty. -/
  slots : Array (Option α) := #[]
  /-- The positions of the empty slots, the one freed last in front. -/
  free : List Nat := []
  /-- The number of values. -/
  live : Nat := 0
deriving DecidableEq, Repr

namespace Arena

variable {α : Type u}

/-! ## Reading -/

/-- The arena without slots. -/
def empty : Arena α := {}

/-- There is no value. -/
def isEmpty (a : Arena α) : Bool := a.live == 0

/-- The value in a slot, if there is such a slot and it holds one. -/
def get? (a : Arena α) (s : Slot) : Option α :=
  a.slots[s.index]?.join

/-- Whether a slot holds a value. -/
def contains (a : Arena α) (s : Slot) : Bool :=
  (a.get? s).isSome

/-! ## Writing -/

/-- Puts a value into the slot freed last, or into a new one if none is free. -/
def insert (a : Arena α) (x : α) : Slot × Arena α :=
  match a.free with
  | i :: free =>
    (⟨i⟩, { a with slots := a.slots.setIfInBounds i (some x), free, live := a.live + 1 })
  | [] => (⟨a.slots.size⟩, { a with slots := a.slots.push (some x), live := a.live + 1 })

/-- Takes the value out of a slot and frees the slot. -/
def remove? (a : Arena α) (s : Slot) : Option (α × Arena α) :=
  (a.get? s).map fun x =>
    (x, { a with
      slots := a.slots.setIfInBounds s.index none
      free := s.index :: a.free
      live := a.live - 1 })

/-- Changes the value in a slot; an empty slot stays empty. -/
def modify (a : Arena α) (s : Slot) (f : α → α) : Arena α :=
  { a with slots := a.slots.modify s.index (Option.map f) }

/-- The arena without values, which also forgets its slots. -/
def clear (_ : Arena α) : Arena α := empty

instance [Inspect α] : Inspect (Arena α) :=
  ⟨fun a => Text.record "SlotArena" [
    Text.field "slots" (inspect a.slots),
    Text.field "free_list" (inspect a.free.reverse),
    Text.field "len" (inspect a.live)]⟩

/-! ## Small laws -/

@[simp] theorem get?_empty (s : Slot) : (empty : Arena α).get? s = none := by
  simp [get?, empty]

theorem contains_iff {a : Arena α} {s : Slot} :
    a.contains s = true ↔ ∃ x, a.get? s = some x := by
  simp [contains, Option.isSome_iff_exists]

@[simp] theorem get?_modify_self (a : Arena α) (s : Slot) (f : α → α) :
    (a.modify s f).get? s = (a.get? s).map f := by
  simp only [get?, modify, Array.getElem?_modify, if_true]
  cases a.slots[s.index]? with
  | none => rfl
  | some cell => cases cell <;> rfl

theorem get?_modify_of_ne (a : Arena α) {s t : Slot} (f : α → α) (h : s ≠ t) :
    (a.modify s f).get? t = a.get? t := by
  have apart : s.index ≠ t.index := fun e => h (congrArg Slot.mk e)
  simp [get?, modify, Array.getElem?_modify, apart]

theorem remove?_eq_none_iff {a : Arena α} {s : Slot} :
    a.remove? s = none ↔ a.get? s = none := by
  simp [remove?]

end Arena

end Retention
