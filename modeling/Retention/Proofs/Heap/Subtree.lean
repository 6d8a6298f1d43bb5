/-
# Retention.Proofs.Heap.Subtree -- moving down stays in one subtree

An element that moves down only ever trades places with one that lies below it, so nothing changes
at a position outside the subtree it started in. What lies beside that subtree keeps its order
because it is left alone, and what lies in it comes to be in order because the exchanges follow the
least child. This is what lets an array be put in order position by position: the last position that
has a child is the one before the middle, and going from there to the front each subtree is mended
when all the ones inside it and beside it have been.
-/
import Retention.Proofs.Heap.Ordered
import Retention.Proofs.Heap.Reordered

namespace Retention.Heap

universe u

variable {α : Type u} {cmp : α → α → Ordering} {a : Array α} {i j k n p : Nat}

/-! ## Subtrees -/

/-- `j` is a position of the subtree that has `p` on top. -/
def InSubtree (p j : Nat) : Prop := p = j ∨ Above p j

theorem Above.trans (hij : Above i j) (hjk : Above j k) : Above i k := by
  induction hjk with
  | next hj => exact .further hj hij
  | further hj _ ih => exact .further hj (ih hij)

/-- The subtree below a child is a part of the one below its parent. -/
theorem InSubtree.of_parent (hpos : 0 < i) (h : InSubtree i j) : InSubtree (parent i) j := by
  rcases h with rfl | habove
  · exact .inr (.next hpos)
  · exact .inr ((Above.next hpos).trans habove)

/-- Outside the subtree of its first position an element that moves down changes nothing. -/
theorem getElem?_siftDown_of_not_inSubtree (cmp : α → α → Ordering) (a : Array α)
    (hout : ¬ InSubtree p j) : (siftDown cmp a p)[j]? = a[j]? := by
  fun_induction siftDown cmp a p with
  | case1 a p left below here _ ih =>
      have hpos : 0 < lesserChild cmp a p left := Nat.zero_lt_of_lt (lt_lesserChild cmp a p left)
      have hchild : parent (lesserChild cmp a p left) = p := parent_lesserChild left
      -- Both positions of the exchange are in the subtree of `p`, and so is all that comes after.
      have hbelow : ¬ InSubtree (lesserChild cmp a p left) j := fun hin =>
        hout (hchild ▸ hin.of_parent hpos)
      have hnep : j ≠ p := fun h => hout (.inl h.symm)
      have hnec : j ≠ lesserChild cmp a p left := fun h => hbelow (.inl h.symm)
      rw [ih hbelow, getElem?_swap_eq, Equiv.swap_apply_of_ne_of_ne hnep hnec]
  | case2 => rfl
  | case3 => rfl

/-! ## Mending one subtree -/

/-- `b` is `a` with the subtree of `p` put in order: the same elements, in order from `p` on, and
each at its old place outside the subtree. -/
structure Mended (cmp : α → α → Ordering) (a : Array α) (p : Nat) (b : Array α) : Prop where
  perm : b.Perm a
  ordered : OrderedFrom cmp b p
  outside : ∀ j, ¬ InSubtree p j → b[j]? = a[j]?

theorem mended_siftDown [Std.TransCmp cmp] (h : OrderedFrom cmp a (p + 1)) :
    Mended cmp a p (siftDown cmp a p) where
  perm := siftDown_perm cmp a p
  ordered := orderedFrom_siftDown h
  outside _ hout := getElem?_siftDown_of_not_inSubtree cmp a hout

/-! ## Mending one after the other -/

/-- The elements at the positions `p` to `p + n - 1` move down, the last of them first. -/
def settleBetween (cmp : α → α → Ordering) (p n : Nat) (a : Array α) : Array α :=
  (List.range' p n).reverse.foldl (siftDown cmp) a

theorem settleBetween_succ (cmp : α → α → Ordering) (p n : Nat) (a : Array α) :
    settleBetween cmp p (n + 1) a = settleBetween cmp p n (siftDown cmp a (p + n)) := by
  rw [settleBetween, List.range'_concat, Nat.one_mul, List.reverse_append, List.reverse_singleton,
    List.singleton_append, List.foldl_cons, settleBetween]

theorem settleBetween_zero (cmp : α → α → Ordering) (n : Nat) (a : Array α) :
    settleBetween cmp 0 n a = settle cmp n a := by
  induction n generalizing a with
  | zero => rfl
  | succ n ih => rw [settleBetween_succ, Nat.zero_add, ih, settle]

/-- If the order holds from the end of a stretch of positions on, it holds from its beginning on
when the elements of the stretch have moved down. -/
theorem orderedFrom_settleBetween [Std.TransCmp cmp] (h : OrderedFrom cmp a (p + n)) :
    OrderedFrom cmp (settleBetween cmp p n a) p := by
  induction n generalizing a with
  | zero => exact h
  | succ n ih =>
      rw [settleBetween_succ]
      exact ih (orderedFrom_siftDown h)

/-- An element whose place is in order below its children moves down to one end and no other; then
the same elements are in order from its place on, and outside its subtree none has moved. So when
all positions that have children are gone through from the last to the first, the array is in order
from each position on as soon as its turn is over, and at the end it is a heap of what was given. -/
theorem siftDown_mends_subtree (cmp : α → α → Ordering) [Std.TransCmp cmp] :
    (∀ (a : Array α) (p : Nat), OrderedFrom cmp a (p + 1) →
      (∀ b, Sinks cmp a p b ↔ b = siftDown cmp a p) ∧ Mended cmp a p (siftDown cmp a p)) ∧
    ∀ xs : List α,
      (∀ p ≤ xs.length / 2,
        OrderedFrom cmp (settleBetween cmp p (xs.length / 2 - p) xs.toArray) p) ∧
      settleBetween cmp 0 (xs.length / 2) xs.toArray = (ofList cmp xs).items ∧
      (∀ b, Settles cmp (xs.length / 2) xs.toArray b ↔ b = (ofList cmp xs).items) ∧
      Ordered cmp (ofList cmp xs) ∧ (ofList cmp xs).toList.Perm xs := by
  refine ⟨fun a p hfrom => ⟨fun b => sinks_iff, mended_siftDown hfrom⟩, fun xs => ?_⟩
  refine ⟨?_, settleBetween_zero cmp _ _, fun b => settles_iff, ordered_ofList xs,
    toList_ofList_perm cmp xs⟩
  intro p hp
  refine orderedFrom_settleBetween ?_
  rw [Nat.add_sub_cancel' hp]
  exact orderedFrom_half xs.toArray

/-- Two equal children below a greater element, of which the left one rises, beside a subtree whose
only child is the last position; and an array of even and one of odd length put in order. -/
theorem siftDown_mends_subtree_ties :
    let cmp : Nat × Nat → Nat × Nat → Ordering := compareOn Prod.fst
    let a := #[(9, 0), (1, 0), (1, 1), (4, 0), (2, 0), (1, 2)]
    let b := #[(1, 0), (2, 0), (1, 1), (4, 0), (9, 0), (1, 2)]
    (Sinks cmp a 0 b ∧ Mended cmp a 0 b) ∧
      (ofList cmp [(3, 0), (5, 0), (3, 1), (5, 1), (4, 0), (1, 0)]).items =
        #[(1, 0), (4, 0), (3, 0), (5, 1), (5, 0), (3, 1)] ∧
      Ordered cmp (ofList cmp [(3, 0), (5, 0), (3, 1), (5, 1), (4, 0), (1, 0)]) ∧
      Ordered cmp (ofList cmp [(3, 0), (5, 0), (3, 1), (5, 1), (4, 0)]) := by
  intro cmp a b
  obtain ⟨hmend, hsettle⟩ := siftDown_mends_subtree cmp
  have hfrom : OrderedFrom cmp a 1 := by decide
  have hdown : b = siftDown cmp a 0 := by decide +kernel
  obtain ⟨hsinks, hmended⟩ := hmend a 0 hfrom
  refine ⟨⟨(hsinks b).mpr hdown, hdown ▸ hmended⟩, by decide +kernel, ?_, ?_⟩
  · exact (hsettle _).2.2.2.1
  · exact (hsettle _).2.2.2.1

end Retention.Heap
