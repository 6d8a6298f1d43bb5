/-
# Retention.Proofs.Distinct -- counting elements that are pairwise different

Elements may be equal without being the same, and then membership says too little: of two lists that
have the same classes of equal elements neither need contain an element of the other. What can be
counted is the classes. A list without two equal elements has one element per class, so it is no
longer than any list that has all its classes; and if it is not shorter either, it has all the
classes of that list.
-/
import Mathlib.Data.List.Basic

namespace Retention

universe u

variable {α : Type u} [BEq α] [EquivBEq α] {xs ys : List α}

/-- A list without two equal elements is no longer than one that has an equal of each of them. -/
theorem length_le_of_distinct (hd : xs.Pairwise fun x y => (x == y) = false)
    (hsub : ∀ x ∈ xs, ∃ y ∈ ys, y == x) : xs.length ≤ ys.length := by
  induction xs generalizing ys with
  | nil => exact Nat.zero_le _
  | cons x xs ih =>
      obtain ⟨hx, hd⟩ := List.pairwise_cons.mp hd
      obtain ⟨y, hy, hyx⟩ := hsub x List.mem_cons_self
      obtain ⟨before, after, rfl⟩ := List.append_of_mem hy
      -- The equal of the first element is that of no other, so the others do without it.
      have hrest : xs.length ≤ (before ++ after).length := by
        apply ih hd
        intro z hz
        obtain ⟨w, hw, hwz⟩ := hsub z (List.mem_cons_of_mem x hz)
        rcases List.mem_cons.mp (List.perm_middle.mem_iff.mp hw) with rfl | hw
        · have hxz : x == z := BEq.trans (BEq.symm hyx) hwz
          rw [hx z hz] at hxz
          exact absurd hxz Bool.false_ne_true
        · exact ⟨w, hw, hwz⟩
      simp only [List.length_cons, List.length_append] at hrest ⊢
      omega

/-- If it is not shorter either, each element of that list has an equal among its own. -/
theorem exists_beq_of_distinct (hd : xs.Pairwise fun x y => (x == y) = false)
    (hsub : ∀ x ∈ xs, ∃ y ∈ ys, y == x) (hlength : ys.length ≤ xs.length) {y : α} (hy : y ∈ ys) :
    ∃ x ∈ xs, x == y := by
  by_contra hnone
  -- Otherwise there would be room for one more.
  have hlonger : (y :: xs).length ≤ ys.length := by
    apply length_le_of_distinct
    · refine List.pairwise_cons.mpr ⟨?_, hd⟩
      intro x hx
      rw [Bool.eq_false_iff]
      intro hyx
      exact hnone ⟨x, hx, BEq.symm hyx⟩
    · intro x hx
      rcases List.mem_cons.mp hx with rfl | hx
      · exact ⟨x, hy, BEq.refl x⟩
      · exact hsub x hx
  rw [List.length_cons] at hlonger
  omega

/-- Such a list has one element of each class that it has. -/
theorem countP_of_distinct (hd : xs.Pairwise fun x y => (x == y) = false) (x : α) :
    xs.countP (· == x) = if xs.any (· == x) then 1 else 0 := by
  induction xs with
  | nil => rfl
  | cons y ys ih =>
      obtain ⟨hy, hd⟩ := List.pairwise_cons.mp hd
      rw [List.countP_cons, List.any_cons, ih hd]
      cases hyx : y == x with
      | false => simp
      | true =>
          have hnone : ys.any (· == x) = false := by
            rw [List.any_eq_false]
            intro z hz hzx
            have hyz : y == z := BEq.trans hyx (BEq.symm hzx)
            rw [hy z hz] at hyz
            exact Bool.false_ne_true hyz
          simp [hnone]

/-- Two lists without equal elements that have the same classes are equally long. -/
theorem length_eq_of_distinct (hx : xs.Pairwise fun x y => (x == y) = false)
    (hy : ys.Pairwise fun x y => (x == y) = false) (hxy : ∀ x ∈ xs, ∃ y ∈ ys, y == x)
    (hyx : ∀ y ∈ ys, ∃ x ∈ xs, x == y) : xs.length = ys.length :=
  Nat.le_antisymm (length_le_of_distinct hx hxy) (length_le_of_distinct hy hyx)

end Retention
