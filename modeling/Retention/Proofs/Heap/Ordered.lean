/-
# Retention.Proofs.Heap.Ordered -- moving along one path restores the order

A heap is in order when no element is less than its parent. While an element moves there is one
position at which this may fail: for one that moves up, between the position and its parent; for
one that moves down, between the position and its children. Everywhere else the order holds, and in
particular between the parent of the position and its children, as if the position were not there.
These two conditions are kept by every exchange, and when the moving stops they give the order. The
second is stated for the part of the tree from a position on, so that it also serves to put an array
in order from the end to the beginning.
-/
import Mathlib.Logic.Equiv.Basic
import Retention.Heap.Audit
import Retention.Proofs.Heap.Contents
import Retention.Proofs.Order

namespace Retention.Heap

universe u

variable {α : Type u} {cmp : α → α → Ordering} {a : Array α} {i j k p : Nat}

/-! ## Two positions -/

/-- The element at `j` is not less than the one at `i`, if there are elements at both. -/
def Under (cmp : α → α → Ordering) (a : Array α) (i j : Nat) : Prop :=
  ∀ x y, a[i]? = some x → a[j]? = some y → Order.AtMost cmp x y

theorem under_iff (hi : i < a.size) (hj : j < a.size) :
    Under cmp a i j ↔ Order.AtMost cmp a[i] a[j] := by
  unfold Under
  rw [Array.getElem?_eq_getElem hi, Array.getElem?_eq_getElem hj]
  constructor
  · intro h
    exact h _ _ rfl rfl
  · rintro h x y ⟨⟩ ⟨⟩
    exact h

theorem under_of_size_le (hj : a.size ≤ j) : Under cmp a i j := by
  intro x y _ hy
  rw [Array.getElem?_eq_none hj] at hy
  exact absurd hy (by simp)

theorem Under.refl [Std.TransCmp cmp] (i : Nat) : Under cmp a i i := by
  intro x y hx hy
  rw [hx] at hy
  exact Option.some.inj hy ▸ .refl x

theorem Under.trans [Std.TransCmp cmp] (hj : j < a.size) (hij : Under cmp a i j)
    (hjk : Under cmp a j k) : Under cmp a i k := by
  intro x z hx hz
  have hy := Array.getElem?_eq_getElem hj
  exact (hij x _ hx hy).trans (hjk _ z hy hz)

/-! ## Exchanging two elements -/

theorem getElem?_swap_eq (a : Array α) (hi : i < a.size) (hj : j < a.size) (k : Nat) :
    (a.swap i j hi hj)[k]? = a[Equiv.swap i j k]? := by
  rw [Array.getElem?_swap, Equiv.swap_apply_def]
  by_cases hki : k = i
  · subst hki
    by_cases hjk : j = k
    · subst hjk
      rw [if_pos rfl, if_pos rfl, Array.getElem?_eq_getElem hj]
    · rw [if_neg hjk, if_pos rfl, if_pos rfl, Array.getElem?_eq_getElem hj]
  · by_cases hkj : k = j
    · subst hkj
      rw [if_pos rfl, if_neg hki, if_pos rfl, Array.getElem?_eq_getElem hi]
    · rw [if_neg (Ne.symm hkj), if_neg (Ne.symm hki), if_neg hki, if_neg hkj]

/-- After an exchange two positions are as the exchanged ones were before. -/
theorem under_swap (hi : i < a.size) (hj : j < a.size) (k l : Nat) :
    Under cmp (a.swap i j hi hj) k l ↔
      Under cmp a (Equiv.swap i j k) (Equiv.swap i j l) := by
  unfold Under
  rw [getElem?_swap_eq, getElem?_swap_eq]

/-! ## Order -/

/-- No element whose parent lies at `p` or later is less than its parent. -/
def OrderedFrom (cmp : α → α → Ordering) (a : Array α) (p : Nat) : Prop :=
  ∀ j, 0 < j → p ≤ parent j → Under cmp a (parent j) j

/-- The order may fail between `i` and its parent, but nowhere else. -/
structure Rising (cmp : α → α → Ordering) (a : Array α) (i : Nat) : Prop where
  elsewhere : ∀ j, 0 < j → j ≠ i → Under cmp a (parent j) j
  across : ∀ j, 0 < j → parent j = i → 0 < i → Under cmp a (parent i) j

/-- From `p` on the order may fail between `i` and its children, but nowhere else. -/
structure Sinking (cmp : α → α → Ordering) (a : Array α) (p i : Nat) : Prop where
  start_le : p ≤ i
  elsewhere : ∀ j, 0 < j → p ≤ parent j → parent j ≠ i → Under cmp a (parent j) j
  across : ∀ j, 0 < j → parent j = i → 0 < i → p ≤ parent i → Under cmp a (parent i) j

/-! ## Moving up -/

/-- An exchange with the greater parent moves the place where the order may fail up. -/
theorem Rising.exchange [Std.TransCmp cmp] (h : Rising cmp a i) (hpos : 0 < i) (hi : i < a.size)
    (hq : parent i < a.size) (hless : Under cmp a i (parent i)) :
    Rising cmp (a.swap i (parent i) hi hq) (parent i) := by
  have hqi := parent_lt hpos
  constructor
  · intro j hj hjq
    rw [under_swap]
    -- The cases are the positions whose element, or whose parent's, took part in the exchange.
    by_cases hji : j = i
    · subst hji
      rw [Equiv.swap_apply_left, Equiv.swap_apply_right]
      exact hless
    · rw [Equiv.swap_apply_of_ne_of_ne hji hjq]
      have hparent := h.elsewhere j hj hji
      by_cases hpi : parent j = i
      · rw [hpi, Equiv.swap_apply_left]
        exact h.across j hj hpi hpos
      · by_cases hpq : parent j = parent i
        · rw [hpq, Equiv.swap_apply_right]
          rw [hpq] at hparent
          exact hless.trans hq hparent
        · rwa [Equiv.swap_apply_of_ne_of_ne hpi hpq]
  · intro j hj hpq hqpos
    have hup := parent_lt hqpos
    have habove := h.elsewhere (parent i) hqpos (Nat.ne_of_lt hqi)
    rw [under_swap, Equiv.swap_apply_of_ne_of_ne (by omega) (Nat.ne_of_lt hup)]
    by_cases hji : j = i
    · subst hji
      rw [Equiv.swap_apply_left]
      exact habove
    · have hjq : j ≠ parent i := Nat.ne_of_gt (hpq ▸ parent_lt hj)
      rw [Equiv.swap_apply_of_ne_of_ne hji hjq]
      exact habove.trans hq (hpq ▸ h.elsewhere j hj hji)

/-- Where the order does not fail the element may stay. -/
theorem Rising.rest (h : Rising cmp a i) (hstop : 0 < i → Under cmp a (parent i) i) :
    OrderedFrom cmp a 0 := by
  intro j hj _
  by_cases hji : j = i
  · subst hji
    exact hstop hj
  · exact h.elsewhere j hj hji

theorem Rising.siftUp [Std.TransCmp cmp] (h : Rising cmp a i) :
    OrderedFrom cmp (siftUp cmp a i) 0 := by
  fun_induction Heap.siftUp cmp a i with
  | case1 a i hinside here above hless ih =>
      refine ih (h.exchange hinside.1 here above ?_)
      exact (under_iff here above).mpr (.of_lt hless)
  | case2 a i hinside here above hless =>
      refine h.rest fun _ => ?_
      exact (under_iff above here).mpr hless
  | case3 a i houtside =>
      refine h.rest fun hpos => under_of_size_le (Nat.le_of_not_lt fun hlt => ?_)
      exact houtside ⟨hpos, hlt⟩

/-! ## Moving down -/

/-- Neither child is less than the lesser one. -/
theorem under_lesserChild [Std.TransCmp cmp] (left : 2 * i + 1 < a.size) (hj : 0 < j)
    (hparent : parent j = i) : Under cmp a (lesserChild cmp a i left) j := by
  have hleft : Under cmp a (2 * i + 1) (2 * i + 1) := .refl _
  unfold lesserChild
  rcases (parent_eq_iff hj).mp hparent with rfl | rfl
  · split
    · next right =>
      split
      · next hless => exact (under_iff right left).mpr (.of_lt hless)
      · exact hleft
    · exact hleft
  · split
    · next right =>
      split
      · exact .refl _
      · next hless => exact (under_iff left right).mpr hless
    · next hright => exact under_of_size_le (Nat.le_of_not_lt hright)

theorem parent_lesserChild (left : 2 * i + 1 < a.size) :
    parent (lesserChild cmp a i left) = i :=
  (parent_eq_iff (Nat.zero_lt_of_lt (lt_lesserChild cmp a i left))).mpr
    (lesserChild_eq cmp a i left)

/-- An exchange with the least child, if it is less, moves the place where the order may fail
down. -/
theorem Sinking.exchange {c : Nat} (h : Sinking cmp a p i) (hi : i < a.size) (hc : c < a.size)
    (hpos : 0 < c) (hchild : parent c = i) (hless : Under cmp a c i)
    (hleast : ∀ j, 0 < j → parent j = i → Under cmp a c j) :
    Sinking cmp (a.swap i c hi hc) p c := by
  have hic : i < c := hchild ▸ parent_lt hpos
  have hstart := h.start_le
  refine ⟨by omega, ?_, ?_⟩
  · intro j hj hp hpc
    rw [under_swap]
    by_cases hji : j = i
    · -- The child that moved up has the parent of `i` above it now.
      subst hji
      have hup := parent_lt hj
      rw [Equiv.swap_apply_left, Equiv.swap_apply_of_ne_of_ne (Nat.ne_of_lt hup) hpc]
      exact h.across c hpos hchild hj hp
    · by_cases hpi : parent j = i
      · rw [hpi, Equiv.swap_apply_left]
        by_cases hjc : j = c
        · subst hjc
          rw [Equiv.swap_apply_right]
          exact hless
        · rw [Equiv.swap_apply_of_ne_of_ne hji hjc]
          exact hleast j hj hpi
      · have hjc : j ≠ c := by
          rintro rfl
          exact hpi hchild
        rw [Equiv.swap_apply_of_ne_of_ne hji hjc, Equiv.swap_apply_of_ne_of_ne hpi hpc]
        exact h.elsewhere j hj hp hpi
  · intro j hj hpc _ _
    have hcj : c < j := hpc ▸ parent_lt hj
    rw [under_swap, hchild, Equiv.swap_apply_left,
      Equiv.swap_apply_of_ne_of_ne (by omega) (by omega)]
    have hbelow := h.elsewhere j hj (by omega) (by omega)
    rwa [hpc] at hbelow

/-- Where the order does not fail the element may stay. -/
theorem Sinking.rest (h : Sinking cmp a p i)
    (hstop : ∀ j, 0 < j → parent j = i → Under cmp a i j) : OrderedFrom cmp a p := by
  intro j hj hp
  by_cases hpi : parent j = i
  · rw [hpi]
    exact hstop j hj hpi
  · exact h.elsewhere j hj hp hpi

theorem Sinking.siftDown [Std.TransCmp cmp] (h : Sinking cmp a p i) :
    OrderedFrom cmp (siftDown cmp a i) p := by
  fun_induction Heap.siftDown cmp a i with
  | case1 a i left below here hless ih =>
      have hpos := Nat.zero_lt_of_lt (lt_lesserChild cmp a i left)
      refine ih (h.exchange here below hpos (parent_lesserChild left) ?_ ?_)
      · exact (under_iff below here).mpr (.of_lt hless)
      · intro j hj hparent
        exact under_lesserChild left hj hparent
  | case2 a i left below here hless =>
      refine h.rest fun j hj hparent => ?_
      have hchild : Under cmp a i (lesserChild cmp a i left) := (under_iff here below).mpr hless
      exact hchild.trans below (under_lesserChild left hj hparent)
  | case3 a i leaf =>
      refine h.rest fun j hj hparent => under_of_size_le ?_
      rcases (parent_eq_iff hj).mp hparent with rfl | rfl <;> omega

/-- If the order holds below the children of a position, it holds from there on when the element at
the position has moved down. -/
theorem orderedFrom_siftDown [Std.TransCmp cmp] (h : OrderedFrom cmp a (p + 1)) :
    OrderedFrom cmp (siftDown cmp a p) p := by
  refine Sinking.siftDown ⟨Nat.le_refl p, ?_, ?_⟩
  · intro j hj hp hne
    exact h j hj (by omega)
  · intro j _ _ hpos hp
    exact absurd (parent_lt hpos) (Nat.not_lt.mpr hp)

/-- If the order holds from a position on, it holds everywhere when the elements at the positions
before it have moved down, the last of them first. -/
theorem orderedFrom_settle [Std.TransCmp cmp] (h : OrderedFrom cmp a p) :
    OrderedFrom cmp (settle cmp p a) 0 := by
  induction p generalizing a with
  | zero => exact h
  | succ p ih => exact ih (orderedFrom_siftDown h)

/-- Positions from the middle on have no children, so there is nothing to fail. -/
theorem orderedFrom_half (a : Array α) : OrderedFrom cmp a (a.size / 2) := by
  intro j _ hp
  refine under_of_size_le ?_
  unfold parent at hp
  omega

/-! ## Heaps in order -/

/-- No element is less than its parent. -/
def Ordered (cmp : α → α → Ordering) (h : Heap α) : Prop := OrderedFrom cmp h.items 0

variable {h rest : Heap α} {x y : α}

theorem ordered_empty : Ordered cmp (empty : Heap α) :=
  fun _ _ _ => under_of_size_le (Nat.zero_le _)

theorem ordered_ofList [Std.TransCmp cmp] (xs : List α) : Ordered cmp (ofList cmp xs) :=
  orderedFrom_settle (orderedFrom_half xs.toArray)

/-- `i` lies above `j`: on the way from `j` up to the top. -/
inductive Above : Nat → Nat → Prop
  | next {j : Nat} (hj : 0 < j) : Above (parent j) j
  | further {i j : Nat} (hj : 0 < j) (h : Above i (parent j)) : Above i j

theorem above_top (hj : 0 < j) : Above 0 j := by
  induction j using Nat.strongRecOn with
  | _ j ih =>
      rcases Nat.eq_zero_or_pos (parent j) with htop | hup
      · have hnext := Above.next hj
        rwa [htop] at hnext
      · exact .further hj (ih _ (parent_lt hj) hup)

/-- No element is less than any that lies above it. -/
theorem Ordered.under_of_above [Std.TransCmp cmp] (hord : Ordered cmp h) (hij : Above i j) :
    Under cmp h.items i j := by
  induction hij with
  | next hj => exact hord _ hj (Nat.zero_le _)
  | @further i j hj _ ih =>
      by_cases hsize : j < h.items.size
      · have hparent := Nat.lt_trans (parent_lt hj) hsize
        exact ih.trans hparent (hord j hj (Nat.zero_le _))
      · exact under_of_size_le (Nat.le_of_not_lt hsize)

/-- The element on top is a least one. -/
theorem Ordered.under_top [Std.TransCmp cmp] (hord : Ordered cmp h) (j : Nat) :
    Under cmp h.items 0 j := by
  rcases Nat.eq_zero_or_pos j with rfl | hj
  · exact .refl 0
  · exact hord.under_of_above (above_top hj)

theorem Ordered.peek?_atMost [Std.TransCmp cmp] (hord : Ordered cmp h) (hx : h.peek? = some x)
    (hy : y ∈ h.toList) : Order.AtMost cmp x y := by
  obtain ⟨j, hj⟩ := List.mem_iff_getElem?.mp hy
  rw [toList, Array.getElem?_toList] at hj
  exact hord.under_top j x y hx hj

theorem Ordered.push [Std.TransCmp cmp] (hord : Ordered cmp h) (x : α) :
    Ordered cmp (h.push cmp x) := by
  refine Rising.siftUp ⟨fun j hj hne => ?_, fun j hj hparent _ => under_of_size_le ?_⟩
  · -- The new position has no children, so both positions are old ones, or `j` is none.
    by_cases hparent : parent j = h.items.size
    · refine under_of_size_le ?_
      rw [Array.size_push, ← hparent]
      exact parent_lt hj
    · unfold Under
      rw [Array.getElem?_push, Array.getElem?_push, if_neg hne, if_neg hparent]
      exact hord j hj (Nat.zero_le _)
  · rw [Array.size_push, ← hparent]
    exact parent_lt hj

theorem Ordered.extend [Std.TransCmp cmp] (hord : Ordered cmp h) (xs : List α) :
    Ordered cmp (h.extend cmp xs) := by
  induction xs generalizing h with
  | nil => exact hord
  | cons x xs ih => exact ih (hord.push x)

theorem Ordered.pop? [Std.TransCmp cmp] (hord : Ordered cmp h)
    (hpop : h.pop? cmp = some (x, rest)) : Ordered cmp rest := by
  unfold Heap.pop? at hpop
  split at hpop
  · obtain ⟨-, rfl⟩ := Prod.mk.inj (Option.some.inj hpop)
    refine orderedFrom_siftDown fun j hj hp => ?_
    have hup := parent_lt hj
    by_cases hsize : j < h.items.size - 1
    · -- Neither position took part in the exchange.
      unfold Under
      rw [Array.getElem?_pop, Array.getElem?_pop, Array.size_swap, if_pos hsize,
        if_pos (Nat.lt_trans hup hsize), getElem?_swap_eq, getElem?_swap_eq,
        Equiv.swap_apply_of_ne_of_ne (by omega) (by omega),
        Equiv.swap_apply_of_ne_of_ne (by omega) (by omega)]
      exact hord j hj (Nat.zero_le _)
    · refine under_of_size_le ?_
      rw [Array.size_pop, Array.size_swap]
      exact Nat.le_of_not_lt hsize
  · exact absurd hpop (by simp)

/-! ## The audit -/

theorem outOfOrder_eq_false_iff :
    outOfOrder cmp a i = false ↔ Under cmp a (parent i) i := by
  unfold outOfOrder Under
  cases hx : a[i]? with
  | none => simp
  | some x =>
      cases hy : a[parent i]? with
      | none => simp
      | some y => simp [Order.AtMost, Bool.eq_false_iff, Ordering.isLT_iff_eq_lt]

/-- Whether an array is in order from a position on can be looked up. -/
instance (cmp : α → α → Ordering) (a : Array α) (p : Nat) : Decidable (OrderedFrom cmp a p) :=
  decidable_of_iff (∀ j < a.size, 0 < j → p ≤ parent j → outOfOrder cmp a j = false) <| by
    constructor
    · intro hall j hj hp
      by_cases hsize : j < a.size
      · exact outOfOrder_eq_false_iff.mp (hall j hsize hj hp)
      · exact under_of_size_le (Nat.le_of_not_lt hsize)
    · intro hord j _ hj hp
      exact outOfOrder_eq_false_iff.mpr (hord j hj hp)

/-- The audit finds nothing wrong exactly if no element is less than its parent. -/
theorem audit_eq_ok_iff : h.audit cmp = .ok () ↔ Ordered cmp h := by
  have hnone : h.audit cmp = .ok () ↔ firstOutOfOrder? cmp h = none := by
    unfold audit
    split
    · next hnone => simp [hnone]
    · next child hsome => simp [hsome]
  rw [hnone, firstOutOfOrder?, List.find?_eq_none]
  constructor
  · intro hall j hj _
    by_cases hsize : j < h.items.size
    · refine outOfOrder_eq_false_iff.mp (Bool.eq_false_iff.mpr (hall j ?_))
      rw [List.mem_range'_1]
      show 1 ≤ j ∧ j < 1 + (h.items.size - 1)
      omega
    · exact under_of_size_le (Nat.le_of_not_lt hsize)
  · intro hord j hj
    rw [List.mem_range'_1] at hj
    exact Bool.eq_false_iff.mp (outOfOrder_eq_false_iff.mpr (hord j hj.1 (Nat.zero_le _)))

end Retention.Heap
