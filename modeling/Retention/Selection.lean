/-
# Retention.Selection -- the greatest elements seen so far

A selection of capacity `n` keeps the `n` greatest of the elements offered to it. They lie in a heap
with the least on top, so one comparison decides whether a newcomer belongs to them: while there is
room it does, and in a full selection it must be greater than the least, which it then displaces.

The greatest element is remembered beside the heap. Only an accepted element can raise it, and it
is forgotten when the last element leaves. An element displaced is less than the newcomer, so what
is remembered never goes that way unless the newcomer replaces it. But it may be taken before others
that compare as equal to it, and then it goes on to stand for these.
-/
import Retention.Heap.Audit
import Retention.Occupancy
import Retention.Step

namespace Retention

universe u

/-- The greatest elements seen so far, at most `capacity` of them. -/
structure Selection (α : Type u) where
  /-- The elements kept. -/
  heap : Heap α := {}
  /-- An element that compares as equal to the greatest ones kept. -/
  maximum : Option α := none
  /-- How many elements are kept at most. -/
  capacity : Nat
deriving DecidableEq, Repr

namespace Selection

variable {α : Type u}

/-- A selection that keeps at most `capacity` elements; it needs room for one. -/
def create (capacity : Nat) : Except SetupError (Selection α) :=
  if capacity = 0 then .error (.zeroCapacity .selection) else .ok { capacity }

/-! ## Reading -/

/-- The number of elements kept. -/
def size (s : Selection α) : Nat := s.heap.size

/-- The least element kept. -/
def minimum (s : Selection α) : Option α := s.heap.peek?

/-- The elements kept, in the order of the heap. -/
def toList (s : Selection α) : List α := s.heap.toList

/-- The elements kept in ascending order; equal ones stay in the order of the heap. -/
def sorted (cmp : α → α → Ordering) (s : Selection α) : List α := s.heap.sorted cmp

/-- How full the selection is. -/
def occupancy (s : Selection α) : Occupancy := ⟨s.size, s.capacity⟩

/-! ## Offering and taking -/

/-- Whether an accepted element becomes the maximum: it does if nothing else is kept or if it is
greater than the one remembered. -/
def raises (cmp : α → α → Ordering) (s : Selection α) (x : α) : Bool :=
  match s.maximum with
  | none => true
  | some greatest => s.heap.isEmpty || (cmp greatest x).isLT

/-- The selection that keeps `x` too. -/
def keep (cmp : α → α → Ordering) (s : Selection α) (x : α) : Selection α :=
  { s with
    heap := s.heap.push cmp x
    maximum := if s.raises cmp x then some x else s.maximum }

/-- Offers an element; the result says whether it is kept. -/
def push (cmp : α → α → Ordering) (s : Selection α) (x : α) : Step (Selection α) Bool :=
  if s.size < s.capacity then
    { state := s.keep cmp x, result := true }
  else
    match s.minimum with
    | some least =>
      if cmp least x = .lt then
        { state := { s with heap := s.heap.withoutTop cmp }.keep cmp x, result := true }
      else
        { state := s, result := false, events := [.elementDiscarded s.capacity] }
    | none => { state := s, result := false, events := [.elementDiscarded s.capacity] }

/-- Takes out a least element. The maximum is forgotten with the last element. -/
def pop? (cmp : α → α → Ordering) (s : Selection α) : Option (α × Selection α) :=
  (s.heap.pop? cmp).map fun (least, others) =>
    (least, { s with heap := others, maximum := if others.isEmpty then none else s.maximum })

/-- All elements in the order in which popping gives them, and the selection they leave. -/
def drain (cmp : α → α → Ordering) (s : Selection α) : List α × Selection α :=
  takeOut (pop? cmp) s.size s

/-! ## Guarding -/

/-- Two elements, if any, that compare as equal. -/
def agree (cmp : α → α → Ordering) : Option α → Option α → Bool
  | none, none => true
  | some x, some y => (cmp x y).isEq
  | _, _ => false

/-- Raises an alarm when the heap is out of order, when too much is kept, or when the maximum
remembered is not a greatest element. -/
def guard (cmp : α → α → Ordering) (s : Selection α) : Except Alarm Unit := do
  s.heap.guard cmp
  if s.capacity < s.size then .error .selectionOverfull
  else if agree cmp s.maximum (Order.greatest? cmp s.toList) then .ok ()
  else .error .maximumStale

instance [Inspect α] : Inspect (Selection α) :=
  ⟨fun s => Text.record "TopN" [
    Text.field "heap" (inspect s.heap),
    Text.field "max" (inspect s.maximum),
    Text.field "capacity" (inspect s.capacity)]⟩

end Selection

end Retention
