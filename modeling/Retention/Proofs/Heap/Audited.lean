/-
# Retention.Proofs.Heap.Audited -- an audit of neighbours decides the order along every path

The audit compares each element with the one right above it and with no other. What a heap is used
for needs more: that no element is less than any on the way up to the top, and so that none is less
than the one on top. The two are the same in every array, because what holds from child to parent
adds up along the way. If an element is less than one further above, then somewhere between the two
a child is less than its parent, and the audit names the first such child in the array.
-/
import Mathlib.Order.Bounds.Basic
import Retention.Proofs.Heap.Ordered

namespace Retention.Heap

universe u

variable {α : Type u} {cmp : α → α → Ordering} {a : Array α} {h : Heap α} {j : Nat}

/-- The element at `j` has one above it and is less than that one. -/
def Inverted (cmp : α → α → Ordering) (a : Array α) (j : Nat) : Prop :=
  0 < j ∧ ∃ x above, a[j]? = some x ∧ a[parent j]? = some above ∧ cmp x above = .lt

theorem Inverted.lt_size (hj : Inverted cmp a j) : j < a.size := by
  obtain ⟨-, x, above, hx, -⟩ := hj
  by_contra hsize
  rw [Array.getElem?_eq_none (Nat.le_of_not_lt hsize)] at hx
  cases hx

theorem inverted_iff (hj : 0 < j) : Inverted cmp a j ↔ outOfOrder cmp a j = true := by
  unfold Inverted outOfOrder
  cases a[j]? with
  | none => simp
  | some x =>
      cases a[parent j]? with
      | none => simp
      | some above => simp [hj, Ordering.isLT_iff_eq_lt]

/-- The search goes through the positions below the top in ascending order. -/
theorem firstOutOfOrder?_eq_some_iff :
    firstOutOfOrder? cmp h = some j ↔ IsLeast {i | Inverted cmp h.items i} j := by
  unfold firstOutOfOrder?
  rw [List.find?_range'_eq_some, List.mem_range'_1]
  constructor
  · rintro ⟨hj, ⟨hpos, -⟩, hbefore⟩
    refine ⟨(inverted_iff hpos).mpr hj, ?_⟩
    intro i hi
    by_contra hij
    have hnot := hbefore i hi.1 (Nat.lt_of_not_le hij)
    rw [(inverted_iff hi.1).mp hi] at hnot
    cases hnot
  · rintro ⟨hj, hleast⟩
    have hsize := hj.lt_size
    refine ⟨(inverted_iff hj.1).mp hj, ⟨hj.1, ?_⟩, ?_⟩
    · show j < 1 + (h.items.size - 1)
      omega
    · intro i hpos hij
      rw [Bool.not_eq_true', Bool.eq_false_iff]
      intro hi
      exact absurd (hleast ((inverted_iff hpos).mpr hi)) (Nat.not_le.mpr hij)

theorem audit_eq_error_iff {v : Violation} : h.audit cmp = .error v ↔
    ∃ child, IsLeast {i | Inverted cmp h.items i} child ∧ v = .heapOrder (parent child) child := by
  simp only [← firstOutOfOrder?_eq_some_iff]
  unfold audit
  cases firstOutOfOrder? cmp h with
  | none => simp
  | some child => simp [eq_comm]

/-- Let the array be any whatever. The audit finds nothing wrong just when no element is less than
any that lies above it. Then the element on top is not greater than any element. And it finds just
the first element wrong, in the order of the array, that is less than the one right above it, and
names both positions. -/
theorem audit_decides_heap_order (cmp : α → α → Ordering) [Std.TransCmp cmp] (h : Heap α) :
    (h.audit cmp = .ok () ↔ ∀ i j, Above i j → Under cmp h.items i j) ∧
      (h.audit cmp = .ok () → ∀ y ∈ h.toList, ∃ x, h.peek? = some x ∧ Order.AtMost cmp x y) ∧
      ∀ v, h.audit cmp = .error v ↔
        ∃ child, IsLeast {j | Inverted cmp h.items j} child ∧
          v = .heapOrder (parent child) child := by
  refine ⟨⟨fun hok i j hij => ?_, fun hall => ?_⟩, fun hok y hy => ?_, fun v => audit_eq_error_iff⟩
  · exact (audit_eq_ok_iff.mp hok).under_of_above hij
  · apply audit_eq_ok_iff.mpr
    intro j hj _
    exact hall (parent j) j (.next hj)
  · cases hx : h.peek? with
    | none =>
        have hsize : h.toList.length = 0 := peek?_eq_none_iff.mp hx
        rw [List.length_eq_zero_iff.mp hsize] at hy
        cases hy
    | some x => exact ⟨x, rfl, (audit_eq_ok_iff.mp hok).peek?_atMost hx hy⟩

/-- The elements at positions 3 and 4 are both less than the one above them, which is not less than
the top; the last of them is less than the top too. The audit names the first. Without these two the
array is in order, though its top compares as equal to another element. -/
theorem audit_decides_heap_order_inverted :
    let cmp := compareOn (Prod.fst : Nat × Nat → Nat)
    let broken : Heap (Nat × Nat) := ⟨#[(1, 0), (3, 0), (1, 1), (2, 0), (0, 0)]⟩
    let whole : Heap (Nat × Nat) := ⟨#[(1, 0), (3, 0), (1, 1)]⟩
    broken.audit cmp = .error (.heapOrder 1 3) ∧ IsLeast {j | Inverted cmp broken.items j} 3 ∧
      (¬ ∀ i j, Above i j → Under cmp broken.items i j) ∧
      (∀ i j, Above i j → Under cmp whole.items i j) ∧
      ∀ y ∈ whole.toList, ∃ x, whole.peek? = some x ∧ Order.AtMost cmp x y := by
  intro cmp broken whole
  have hbroken : broken.audit cmp = .error (.heapOrder 1 3) := by decide
  have hwhole : whole.audit cmp = .ok () := by decide
  obtain ⟨hbad, -, hnamed⟩ := audit_decides_heap_order cmp broken
  obtain ⟨hgood, htop, -⟩ := audit_decides_heap_order cmp whole
  refine ⟨hbroken, ?_, ?_, hgood.mp hwhole, htop hwhole⟩
  · obtain ⟨child, hleast, hchild⟩ := (hnamed _).mp hbroken
    obtain ⟨-, rfl⟩ := Violation.heapOrder.inj hchild
    exact hleast
  · intro hall
    rw [hbad.mpr hall] at hbroken
    cases hbroken

end Retention.Heap
