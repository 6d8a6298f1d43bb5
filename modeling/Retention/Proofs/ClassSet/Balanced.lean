/-
# Retention.Proofs.ClassSet.Balanced -- how the sizes of results add up

The union copies the larger of two sets and adds to it, the intersection copies the smaller and
drops from it, and the differences drop from either. Nothing is gained by following them: equal sets
are equally large, so the size of each result is settled by the classes that it has.

Asked about its classes, a second set divides any first one into those that it has too and those
that it has not, and no element is lost or counted twice, because each stands for its class alone.
The laws are four such divisions. Asked by the second set, the first one falls into intersection and
difference, the union into the second set and that difference, and the symmetric difference into the
two differences; asked by the first set, the second one falls into intersection and difference.
-/
import Retention.Proofs.ClassSet.Apart
import Retention.Proofs.ClassSet.Common

namespace Retention.ClassSet

universe u

variable {α : Type u} [BEq α] [EquivBEq α]

/-! ## Dividing a set -/

/-- A set is as large as the two parts that have those of its classes which another set has, and
which it has not. -/
theorem size_eq_add (t : ClassSet α) {s shared rest : ClassSet α}
    (hshared : ∀ x, shared.contains x = (s.contains x && t.contains x))
    (hrest : ∀ x, rest.contains x = (s.contains x && !t.contains x)) :
    s.size = shared.size + rest.size := by
  have hkept : shared.size = (s.filter t.contains).size := by
    apply size_eq_of_contains_eq
    intro x
    rw [hshared, contains_filter fun _ _ => contains_congr]
  have hdropped : rest.size = (s.filter fun y => !t.contains y).size := by
    apply size_eq_of_contains_eq
    intro x
    rw [hrest, contains_filter fun _ _ hyz => congrArg not (contains_congr hyz)]
  rw [hkept, hdropped]
  exact List.length_eq_length_filter_add t.contains

/-! ## The four divisions -/

theorem size_eq_add_difference {s t both : ClassSet α}
    (hboth : ∀ x, both.contains x = (s.contains x && t.contains x)) :
    s.size = both.size + (difference s [t]).size :=
  size_eq_add t hboth (contains_difference_singleton s t)

theorem size_union_pair (s t : ClassSet α) :
    (union [s, t]).size = t.size + (difference s [t]).size := by
  apply size_eq_add t
  · intro x
    rw [contains_union_pair]
    cases s.contains x <;> cases t.contains x <;> rfl
  · intro x
    rw [contains_union_pair, contains_difference_singleton]
    cases s.contains x <;> cases t.contains x <;> rfl

theorem size_symmetricDifference (s t : ClassSet α) :
    (symmetricDifference s t).size = (difference t [s]).size + (difference s [t]).size := by
  apply size_eq_add t
  · intro x
    rw [contains_symmetricDifference, contains_difference_singleton]
    cases s.contains x <;> cases t.contains x <;> rfl
  · intro x
    rw [contains_symmetricDifference, contains_difference_singleton]
    cases s.contains x <;> cases t.contains x <;> rfl

/-! ## The result -/

/-- Union and intersection of two sets are together as large as the two sets; so is the symmetric
difference with the intersection counted twice; and the difference and the intersection are together
as large as the first set. -/
theorem sizes_balance (s t : ClassSet α) :
    (union [s, t]).size + (intersection [s, t]).size = s.size + t.size ∧
      (symmetricDifference s t).size + 2 * (intersection [s, t]).size = s.size + t.size ∧
      (difference s [t]).size + (intersection [s, t]).size = s.size := by
  have hs := size_eq_add_difference (contains_intersection_pair s t)
  have ht : t.size = (intersection [s, t]).size + (difference t [s]).size := by
    apply size_eq_add_difference
    intro x
    rw [contains_intersection_pair, Bool.and_comm]
  have hunion := size_union_pair s t
  have hsymmetric := size_symmetricDifference s t
  refine ⟨?_, ?_, ?_⟩
  · omega
  · omega
  · omega

/-- Keys 1 to 3 and keys 2 to 5 with another mark, two of them shared. -/
theorem sizes_balance_marked :
    let low := ofList [(⟨1, 0⟩ : Marked), ⟨2, 0⟩, ⟨3, 0⟩]
    let high := ofList [(⟨2, 1⟩ : Marked), ⟨3, 1⟩, ⟨4, 1⟩, ⟨5, 1⟩]
    (union [low, high]).size = 5 ∧ (intersection [low, high]).size = 2 ∧
      (symmetricDifference low high).size = 3 ∧ (difference low [high]).size = 1 ∧
      (union [low, high]).size + (intersection [low, high]).size = low.size + high.size := by
  intro low high
  exact ⟨rfl, rfl, rfl, rfl, (sizes_balance low high).1⟩

end Retention.ClassSet
