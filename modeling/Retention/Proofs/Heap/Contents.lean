/-
# Retention.Proofs.Heap.Contents -- a heap neither loses nor makes up elements

Moving an element up or down its path only ever exchanges two elements of the array. So whatever the
comparison is, and whether or not the array is in order, an element that is pushed is there exactly
once more than before, and the one that is popped is there exactly once less.
-/
import Retention.Heap.Basic

namespace Retention.Heap

open scoped List

universe u

variable {α : Type u} {cmp : α → α → Ordering} {h rest : Heap α} {x : α}

/-! ## Exchanging elements of the array -/

theorem siftUp_perm (cmp : α → α → Ordering) (a : Array α) (i : Nat) :
    (siftUp cmp a i).Perm a := by
  fun_induction siftUp cmp a i with
  | case1 a i _ here above _ ih => exact ih.trans (Array.swap_perm here above)
  | case2 => exact .rfl
  | case3 => exact .rfl

theorem siftDown_perm (cmp : α → α → Ordering) (a : Array α) (i : Nat) :
    (siftDown cmp a i).Perm a := by
  fun_induction siftDown cmp a i with
  | case1 a i _ below here _ ih => exact ih.trans (Array.swap_perm here below)
  | case2 => exact .rfl
  | case3 => exact .rfl

theorem settle_perm (cmp : α → α → Ordering) (n : Nat) (a : Array α) :
    (settle cmp n a).Perm a := by
  induction n generalizing a with
  | zero => exact .rfl
  | succ n ih => exact (ih _).trans (siftDown_perm cmp a n)

/-- The last element of an array and the others are all its elements. -/
theorem perm_pop {a : Array α} {x : α} (hx : a[a.size - 1]? = some x) :
    (x :: a.pop.toList).Perm a.toList := by
  have hlast : a.toList.getLast? = some x := by
    rw [List.getLast?_eq_getElem?, Array.length_toList, Array.getElem?_toList]
    exact hx
  obtain ⟨ys, hys⟩ := List.getLast?_eq_some_iff.mp hlast
  rw [Array.toList_pop, hys, List.dropLast_concat]
  exact (List.perm_append_singleton x ys).symm

/-! ## Entering and leaving -/

theorem toList_ofList_perm (cmp : α → α → Ordering) (xs : List α) :
    (ofList cmp xs).toList.Perm xs :=
  (settle_perm cmp (xs.length / 2) xs.toArray).toList

theorem toList_push_perm (cmp : α → α → Ordering) (h : Heap α) (x : α) :
    (h.push cmp x).toList.Perm (x :: h.toList) := by
  have hsift := (siftUp_perm cmp (h.items.push x) h.items.size).toList
  rw [Array.toList_push] at hsift
  exact hsift.trans (List.perm_append_singleton x h.items.toList)

theorem toList_extend_perm (cmp : α → α → Ordering) (h : Heap α) (xs : List α) :
    (h.extend cmp xs).toList.Perm (xs ++ h.toList) := by
  induction xs generalizing h with
  | nil => exact .rfl
  | cons x xs ih =>
      calc ((h.push cmp x).extend cmp xs).toList
        _ ~ xs ++ (h.push cmp x).toList := ih (h.push cmp x)
        _ ~ xs ++ x :: h.toList := (toList_push_perm cmp h x).append_left xs
        _ ~ x :: (xs ++ h.toList) := List.perm_middle

/-- What is popped was on top, and it is one of the elements. -/
theorem pop?_eq_some (hpop : h.pop? cmp = some (x, rest)) :
    h.peek? = some x ∧ (x :: rest.toList).Perm h.toList := by
  unfold pop? at hpop
  split at hpop
  · next hfilled =>
    obtain ⟨rfl, rfl⟩ := Prod.mk.inj (Option.some.inj hpop)
    have hbound : h.items.size - 1 < h.items.size := Nat.sub_lt hfilled Nat.one_pos
    refine ⟨Array.getElem?_eq_getElem hfilled, ?_⟩
    have hsift := (siftDown_perm cmp (h.items.swap 0 _ hfilled hbound).pop 0).toList
    have hpopped := perm_pop (a := h.items.swap 0 _ hfilled hbound) (x := h.items[0]) <| by
      rw [Array.size_swap, Array.getElem?_swap, if_pos rfl]
    calc h.items[0] :: (siftDown cmp (h.items.swap 0 _ hfilled hbound).pop 0).toList
      _ ~ h.items[0] :: (h.items.swap 0 _ hfilled hbound).pop.toList := hsift.cons _
      _ ~ (h.items.swap 0 _ hfilled hbound).toList := hpopped
      _ ~ h.items.toList := (Array.swap_perm hfilled hbound).toList
  · exact absurd hpop (by simp)

theorem isEmpty_iff_toList_eq_nil : h.isEmpty = true ↔ h.toList = [] := by
  rw [isEmpty, toList, Array.isEmpty_iff, Array.toList_eq_nil_iff]

theorem peek?_eq_none_iff : h.peek? = none ↔ h.size = 0 := by
  rw [peek?, Array.getElem?_eq_none_iff, size, Nat.le_zero]

/-- If there is an element on top, popping takes it out. -/
theorem pop?_of_peek? (cmp : α → α → Ordering) (hx : h.peek? = some x) :
    h.pop? cmp = some (x, h.withoutTop cmp) := by
  cases hpop : h.pop? cmp with
  | none =>
      have hnone := peek?_eq_none_iff.mpr (pop?_eq_none_iff.mp hpop)
      exact absurd (hx.symm.trans hnone) (by simp)
  | some popped =>
      obtain ⟨y, others⟩ := popped
      have hy := (pop?_eq_some hpop).1
      rw [withoutTop, hpop, Option.some.inj (hx.symm.trans hy)]

/-- Popping hands out the element on top, if there is one. -/
theorem map_fst_pop? (cmp : α → α → Ordering) (h : Heap α) :
    (h.pop? cmp).map Prod.fst = h.peek? := by
  cases hx : h.peek? with
  | none => rw [pop?_eq_none_iff.mpr (peek?_eq_none_iff.mp hx), Option.map_none]
  | some x => rw [pop?_of_peek? cmp hx, Option.map_some]

end Retention.Heap
