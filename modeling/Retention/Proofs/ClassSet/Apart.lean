/-
# Retention.Proofs.ClassSet.Apart -- what differences hold

A difference drops elements of one set and takes none from the sets that it is compared with. One
set after another is asked, but an element goes for good, so what stays is what none of them has in
common with the first.

The symmetric difference is the union of the differences both ways, and a union favours the elements
of the larger set, and of the second if both are equally large. That cannot be seen here. No class
is in both differences, so a class has one element only that the union could take, and the two sets
may be exchanged. Seen by the classes alone it is the exclusive or, and so undoes itself.
-/
import Retention.Proofs.ClassSet.United
import Mathlib.Data.List.Pairwise

namespace Retention.ClassSet

universe u

variable {α : Type u} [BEq α]

/-! ## Sets that have no class in common -/

/-- No class is in both sets. -/
def Apart (s t : ClassSet α) : Prop := ∀ x, (s.contains x && t.contains x) = false

instance : Std.Symm (Apart : ClassSet α → ClassSet α → Prop) where
  symm s t h := by
    intro x
    rw [Bool.and_comm]
    exact h x

/-! ## The difference from several sets -/

theorem difference_eq_filter (s : ClassSet α) (others : List (ClassSet α)) :
    difference s others = s.filter fun y => others.all fun t => !t.contains y :=
  foldl_filter (fun t y => !contains t y) s others

theorem mem_difference_iff {s : ClassSet α} {others : List (ClassSet α)} {y : α} :
    y ∈ (difference s others).items ↔ y ∈ s.items ∧ ∀ t ∈ others, t.contains y = false := by
  rw [difference_eq_filter, items_filter, List.mem_filter, List.all_eq_true]
  simp only [Bool.not_eq_true']

theorem mem_difference_singleton_iff {s t : ClassSet α} {y : α} :
    y ∈ (difference s [t]).items ↔ y ∈ s.items ∧ t.contains y = false := by
  rw [mem_difference_iff, List.forall_mem_singleton]

variable [EquivBEq α]

theorem contains_difference (s : ClassSet α) (others : List (ClassSet α)) (x : α) :
    (difference s others).contains x = (s.contains x && others.all fun t => !t.contains x) := by
  rw [difference_eq_filter]
  exact contains_filter (all_contains_congr not others) s x

theorem contains_difference_singleton (s t : ClassSet α) (x : α) :
    (difference s [t]).contains x = (s.contains x && !t.contains x) := by
  rw [contains_difference, List.all_cons, List.all_nil, Bool.and_true]

theorem difference_eq_of_sameSets {others others' : List (ClassSet α)}
    (h : SameSets others others') (s : ClassSet α) : difference s others = difference s others' := by
  rw [difference_eq_filter, difference_eq_filter]
  congr 1
  funext y
  exact h.all_contains not y

/-! ## The union of sets that have no class in common -/

/-- If no two sets have a class in common, their union holds the elements of all of them, for none
can take the place of another. -/
theorem mem_union_iff_of_apart {sets : List (ClassSet α)} (hapart : sets.Pairwise Apart) {y : α} :
    y ∈ (union sets).items ↔ ∃ s ∈ sets, y ∈ s.items := by
  constructor
  · exact exists_mem_of_mem_union
  · rintro ⟨s, hs, hy⟩
    have hclass : (union sets).contains y = true := by
      rw [contains_union, List.any_eq_true]
      exact ⟨s, hs, contains_of_mem hy⟩
    obtain ⟨z, hz, hzy⟩ := contains_iff.mp hclass
    obtain ⟨t, ht, hzt⟩ := exists_mem_of_mem_union hz
    -- The element of that class comes from a set that shares it with `s`, so from `s` itself.
    have hst : t = s := by
      by_contra hne
      have hnone := hapart.forall ht hs hne y
      rw [contains_of_mem hy, contains_iff.mpr ⟨z, hzt, hzy⟩] at hnone
      exact Bool.false_ne_true hnone.symm
    subst hst
    rwa [← eq_of_beq_of_mem hzt hy hzy]

theorem apart_difference (s t : ClassSet α) : Apart (difference s [t]) (difference t [s]) := by
  intro x
  rw [contains_difference_singleton, contains_difference_singleton]
  cases s.contains x <;> cases t.contains x <;> rfl

/-! ## The symmetric difference -/

theorem mem_symmetricDifference_iff {s t : ClassSet α} {y : α} :
    y ∈ (symmetricDifference s t).items ↔
      (y ∈ s.items ∧ t.contains y = false) ∨ (y ∈ t.items ∧ s.contains y = false) := by
  have hapart : [difference s [t], difference t [s]].Pairwise Apart :=
    List.pairwise_pair.mpr (apart_difference s t)
  rw [symmetricDifference, mem_union_iff_of_apart hapart, List.exists_mem_cons_iff,
    List.exists_mem_cons_iff, mem_difference_singleton_iff, mem_difference_singleton_iff]
  simp only [List.not_mem_nil, false_and, exists_false, or_false]

/-- The sets may be exchanged, down to the elements that stand for the classes. -/
theorem perm_symmetricDifference (s t : ClassSet α) :
    (symmetricDifference s t).items.Perm (symmetricDifference t s).items := by
  rw [List.perm_ext_iff_of_nodup (nodup_items _) (nodup_items _)]
  intro y
  rw [mem_symmetricDifference_iff, mem_symmetricDifference_iff]
  exact or_comm

theorem contains_symmetricDifference (s t : ClassSet α) (x : α) :
    (symmetricDifference s t).contains x = (s.contains x ^^ t.contains x) := by
  rw [symmetricDifference, contains_union_pair, contains_difference_singleton,
    contains_difference_singleton]
  cases s.contains x <;> cases t.contains x <;> rfl

theorem contains_symmetricDifference_cancel (s t : ClassSet α) (x : α) :
    (symmetricDifference (symmetricDifference s t) t).contains x = s.contains x := by
  rw [contains_symmetricDifference, contains_symmetricDifference, Bool.xor_assoc, Bool.xor_self,
    Bool.xor_false]

/-! ## The result -/

/-- A difference holds the elements of its first set whose class none of the others has, and for
equal others, whatever their order and their repetitions, it is the same. A symmetric difference
holds the elements of either set whose class the other has not, so it has the classes that exactly
one of the two sets has, and exchanging the sets changes no element. The symmetric difference of
that with the second set has the classes of the first one again. -/
theorem differences_hold_unshared :
    (∀ (s : ClassSet α) (others : List (ClassSet α)),
      (∀ y, y ∈ (difference s others).items ↔
        y ∈ s.items ∧ ∀ t ∈ others, t.contains y = false) ∧
      ∀ others', SameSets others others' → difference s others = difference s others') ∧
    ∀ s t : ClassSet α,
      (∀ y, y ∈ (symmetricDifference s t).items ↔
        (y ∈ s.items ∧ t.contains y = false) ∨ (y ∈ t.items ∧ s.contains y = false)) ∧
      (∀ x, (symmetricDifference s t).contains x = (s.contains x ^^ t.contains x)) ∧
      (symmetricDifference s t).items.Perm (symmetricDifference t s).items ∧
      (∀ x, (symmetricDifference (symmetricDifference s t) t).contains x = s.contains x) ∧
      (symmetricDifference (symmetricDifference s t) t == s) = true := by
  constructor
  · intro s others
    refine ⟨fun y => mem_difference_iff, ?_⟩
    intro others' hothers
    exact difference_eq_of_sameSets hothers s
  · intro s t
    have hcancel := contains_symmetricDifference_cancel s t
    exact ⟨fun y => mem_symmetricDifference_iff, contains_symmetricDifference s t,
      perm_symmetricDifference s t, hcancel, beq_of_contains_eq hcancel⟩

/-- Keys 1 to 3 and keys 2 to 4 with another mark. The two differences have one element each, so the
union copies the second one, and exchanging the sets shows in the order and in nothing else. The
symmetric difference with the second set again has keys 1 to 3, two of them with the other mark. -/
theorem differences_hold_unshared_marked :
    let low := ofList [(⟨1, 0⟩ : Marked), ⟨2, 0⟩, ⟨3, 0⟩]
    let high := ofList [(⟨2, 1⟩ : Marked), ⟨3, 1⟩, ⟨4, 1⟩]
    let two := ofList [(⟨2, 2⟩ : Marked)]
    let two' := ofList [(⟨2, 3⟩ : Marked)]
    (difference low [two, empty, two]).items = [⟨1, 0⟩, ⟨3, 0⟩] ∧
      SameSets [two, empty, two] [empty, two'] ∧
      difference low [two, empty, two] = difference low [empty, two'] ∧
      (symmetricDifference low high).items = [⟨4, 1⟩, ⟨1, 0⟩] ∧
      (symmetricDifference high low).items = [⟨1, 0⟩, ⟨4, 1⟩] ∧
      (symmetricDifference low high).items.Perm (symmetricDifference high low).items ∧
      (symmetricDifference (symmetricDifference low high) high).items =
        [⟨2, 1⟩, ⟨3, 1⟩, ⟨1, 0⟩] ∧
      (symmetricDifference (symmetricDifference low high) high == low) = true := by
  intro low high two two'
  obtain ⟨hdifference, hsymmetric⟩ := differences_hold_unshared (α := Marked)
  have hothers : SameSets [two, empty, two] [empty, two'] := by decide
  obtain ⟨-, hsame⟩ := hdifference low [two, empty, two]
  obtain ⟨-, -, hperm, -, hcancel⟩ := hsymmetric low high
  exact ⟨rfl, hothers, hsame _ hothers, rfl, rfl, hperm, rfl, hcancel⟩

end Retention.ClassSet
