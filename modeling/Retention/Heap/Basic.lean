/-
# Retention.Heap.Basic -- a heap with the least element on top

The elements lie in one array that is read as a binary tree: the element at position `i` has its
children at `2 * i + 1` and `2 * i + 2`. No element is less than the one above it, so the least is
at position 0. A new element is appended and moves up past every greater one; when the top is taken
the last element replaces it and moves down past every lesser one.

Every operation takes the comparison it works by. If the comparison changes while elements are
inside, the order in the array may be broken, and the operations go on with the array as they find
it: they only ever exchange elements, so none is lost or made up.
-/
import Retention.Drain
import Retention.Order

namespace Retention

universe u

/-- A binary heap: its elements, level by level. -/
structure Heap (α : Type u) where
  /-- The elements, level by level; each level from left to right. -/
  items : Array α := #[]
deriving DecidableEq, Repr

namespace Heap

variable {α : Type u}

/-! ## Positions -/

/-- The position above `i` in the tree. -/
def parent (i : Nat) : Nat := (i - 1) / 2

theorem parent_lt {i : Nat} (h : 0 < i) : parent i < i := by
  unfold parent
  omega

/-- A position is a child of `i` exactly when it is one of the two positions below it. -/
theorem parent_eq_iff {i j : Nat} (h : 0 < j) :
    parent j = i ↔ j = 2 * i + 1 ∨ j = 2 * i + 2 := by
  unfold parent
  omega

/-! ## Restoring the order along one path -/

/-- The element at `i` moves up past every ancestor that is greater. -/
def siftUp (cmp : α → α → Ordering) (a : Array α) (i : Nat) : Array α :=
  if h : 0 < i ∧ i < a.size then
    have here : i < a.size := h.2
    have above : parent i < a.size := Nat.lt_trans (parent_lt h.1) h.2
    if cmp a[i] a[parent i] = .lt then
      siftUp cmp (a.swap i (parent i) here above) (parent i)
    else a
  else a
termination_by i
decreasing_by exact parent_lt h.1

/-- The position of the lesser child of `i`, the left one if neither is less. -/
def lesserChild (cmp : α → α → Ordering) (a : Array α) (i : Nat)
    (left : 2 * i + 1 < a.size) : Nat :=
  if right : 2 * i + 2 < a.size then
    if cmp a[2 * i + 2] a[2 * i + 1] = .lt then 2 * i + 2 else 2 * i + 1
  else 2 * i + 1

theorem lesserChild_eq (cmp : α → α → Ordering) (a : Array α) (i : Nat)
    (left : 2 * i + 1 < a.size) :
    lesserChild cmp a i left = 2 * i + 1 ∨ lesserChild cmp a i left = 2 * i + 2 := by
  unfold lesserChild
  split
  · split <;> simp
  · simp

theorem lt_lesserChild (cmp : α → α → Ordering) (a : Array α) (i : Nat)
    (left : 2 * i + 1 < a.size) : i < lesserChild cmp a i left := by
  rcases lesserChild_eq cmp a i left with h | h <;> omega

theorem lesserChild_lt_size (cmp : α → α → Ordering) (a : Array α) (i : Nat)
    (left : 2 * i + 1 < a.size) : lesserChild cmp a i left < a.size := by
  unfold lesserChild
  split
  · split <;> omega
  · exact left

/-- The element at `i` moves down past the lesser child for as long as that is less. -/
def siftDown (cmp : α → α → Ordering) (a : Array α) (i : Nat) : Array α :=
  if left : 2 * i + 1 < a.size then
    have below : lesserChild cmp a i left < a.size := lesserChild_lt_size cmp a i left
    have here : i < a.size := Nat.lt_trans (lt_lesserChild cmp a i left) below
    if cmp a[lesserChild cmp a i left] a[i] = .lt then
      siftDown cmp (a.swap i (lesserChild cmp a i left) here below) (lesserChild cmp a i left)
    else a
  else a
termination_by a.size - i
decreasing_by
  have := lt_lesserChild cmp a i left
  simp only [Array.size_swap]
  omega

/-- The elements at the positions below `n` move down, the last of them first. -/
def settle (cmp : α → α → Ordering) : Nat → Array α → Array α
  | 0, a => a
  | n + 1, a => settle cmp n (siftDown cmp a n)

/-! ## The heap -/

/-- The heap without elements. -/
def empty : Heap α := {}

/-- The heap of the given elements. Positions from the middle on have no children, so the ones
before it are put in order from the last to the first. -/
def ofList (cmp : α → α → Ordering) (xs : List α) : Heap α :=
  ⟨settle cmp (xs.length / 2) xs.toArray⟩

/-- The number of elements. -/
def size (h : Heap α) : Nat := h.items.size

/-- There is no element. -/
def isEmpty (h : Heap α) : Bool := h.items.isEmpty

/-- The elements level by level, which is in general not their order. -/
def toList (h : Heap α) : List α := h.items.toList

/-- The element on top, which is a least one. -/
def peek? (h : Heap α) : Option α := h.items[0]?

/-- The heap with one more element. -/
def push (cmp : α → α → Ordering) (h : Heap α) (x : α) : Heap α :=
  ⟨siftUp cmp (h.items.push x) h.items.size⟩

/-- The heap with each of the elements pushed in turn. -/
def extend (cmp : α → α → Ordering) (h : Heap α) (xs : List α) : Heap α :=
  xs.foldl (push cmp) h

/-- The element on top and the heap without it. -/
def pop? (cmp : α → α → Ordering) (h : Heap α) : Option (α × Heap α) :=
  if filled : 0 < h.items.size then
    let last := h.items.size - 1
    have bound : last < h.items.size := Nat.sub_lt filled Nat.one_pos
    some (h.items[0], ⟨siftDown cmp (h.items.swap 0 last filled bound).pop 0⟩)
  else none

/-- The heap without the element on top. -/
def withoutTop (cmp : α → α → Ordering) (h : Heap α) : Heap α :=
  match h.pop? cmp with
  | some (_, rest) => rest
  | none => h

/-- All elements in the order in which popping gives them, and the heap they leave. -/
def drain (cmp : α → α → Ordering) (h : Heap α) : List α × Heap α :=
  takeOut (pop? cmp) h.size h

/-- The elements in ascending order; equal ones stay in the order of the array. -/
def sorted (cmp : α → α → Ordering) (h : Heap α) : List α :=
  Order.sorted cmp h.toList

/-! ## Small laws -/

@[simp] theorem size_siftUp (cmp : α → α → Ordering) (a : Array α) (i : Nat) :
    (siftUp cmp a i).size = a.size := by
  fun_induction siftUp cmp a i with
  | case1 a i h here above less ih => simpa using ih
  | case2 => rfl
  | case3 => rfl

@[simp] theorem size_siftDown (cmp : α → α → Ordering) (a : Array α) (i : Nat) :
    (siftDown cmp a i).size = a.size := by
  fun_induction siftDown cmp a i with
  | case1 a i left below here less ih => simpa using ih
  | case2 => rfl
  | case3 => rfl

@[simp] theorem size_push (cmp : α → α → Ordering) (h : Heap α) (x : α) :
    (h.push cmp x).size = h.size + 1 := by
  simp [push, size]

theorem pop?_eq_none_iff {cmp : α → α → Ordering} {h : Heap α} :
    h.pop? cmp = none ↔ h.size = 0 := by
  unfold pop? size
  split
  · next filled => simpa using Nat.ne_of_gt filled
  · next bare => simpa using Nat.eq_zero_of_not_pos bare

theorem size_of_pop? {cmp : α → α → Ordering} {h rest : Heap α} {x : α}
    (popped : h.pop? cmp = some (x, rest)) : rest.size + 1 = h.size := by
  unfold pop? at popped
  split at popped
  · next filled =>
    simp only [Option.some.injEq, Prod.mk.injEq] at popped
    obtain ⟨-, rfl⟩ := popped
    simp only [size, size_siftDown, Array.size_pop, Array.size_swap]
    omega
  · simp at popped

end Heap

end Retention
