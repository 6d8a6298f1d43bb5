/-
# Retention.Order -- arranging elements by a comparison

Elements are compared by a function handed to each operation, not by an instance fixed once for
their type. So two elements may compare as equal and still be told apart, and the comparison may
differ from one operation to the next, as it does when elements share keys that change.
-/

namespace Retention.Order

universe u

variable {α : Type u}

/-- The elements in ascending order. Elements that compare as equal keep their order. -/
def sorted (cmp : α → α → Ordering) (xs : List α) : List α :=
  xs.mergeSort fun x y => (cmp x y).isLE

/-- A greatest element, the last of several that compare as equal. -/
def greatest? (cmp : α → α → Ordering) : List α → Option α
  | [] => none
  | x :: xs => some (xs.foldl (fun best y => if (cmp best y).isGT then best else y) x)

theorem sorted_perm (cmp : α → α → Ordering) (xs : List α) : (sorted cmp xs).Perm xs :=
  List.mergeSort_perm xs _

theorem greatest?_eq_none_iff {cmp : α → α → Ordering} {xs : List α} :
    greatest? cmp xs = none ↔ xs = [] := by
  cases xs <;> simp [greatest?]

end Retention.Order
