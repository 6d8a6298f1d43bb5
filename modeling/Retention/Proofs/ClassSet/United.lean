/-
# Retention.Proofs.ClassSet.United -- what a union holds

A union has the classes that some set has, and one element for each. Which one depends on all sets
together: the union starts as a copy of a largest set, the last of them, and the other sets are
merged in their order. So the copied set comes first, whatever its place, and after it the first set
that has the class. The copied set is taken out of the list at its place. That changes no answer,
because each class that it has is settled by the copy, and all others keep their order.

Which classes there are does not depend on the choice. Two lists of the same sets, in any order and
with any repetitions, have unions that are equal as sets, though the elements need not be the same.
-/
import Retention.Proofs.ClassSet.Compared

namespace Retention.ClassSet

universe u

variable {α : Type u} [BEq α]

/-! ## The set that is copied -/

/-- The last of the sets that are at least as large as every other. -/
def lastLargest? (sets : List (ClassSet α)) : Option (ClassSet α) :=
  (sets.filter fun s => sets.all fun t => t.size ≤ s.size).getLast?

theorem lastLargest?_mem {sets : List (ClassSet α)} {base : ClassSet α}
    (hbase : lastLargest? sets = some base) : base ∈ sets :=
  List.mem_of_mem_filter (List.mem_of_getLast? hbase)

theorem largest?_eq_some {sets others : List (ClassSet α)} {base : ClassSet α}
    (hlargest : largest? sets = some (base, others)) :
    lastLargest? sets = some base ∧
      ∃ before after, sets = before ++ base :: after ∧ others = before ++ after := by
  obtain ⟨before, after, rfl, rfl, hbefore, hafter⟩ := pick?_eq_some
    (fun r s t hrs hst => by simp only [decide_eq_true_eq] at *; omega)
    (fun r s t hrt hst => by simp only [decide_eq_true_eq, decide_eq_false_iff_not] at *; omega)
    hlargest
  simp only [decide_eq_true_eq, decide_eq_false_iff_not, Nat.not_lt] at hbefore hafter
  refine ⟨?_, before, after, rfl, rfl⟩
  rw [lastLargest?, List.getLast?_filter, List.find?_eq_some_iff_append]
  refine ⟨?_, after.reverse, before.reverse, by simp, ?_⟩
  · simp only [List.all_eq_true, decide_eq_true_eq]
    rw [List.forall_mem_append, List.forall_mem_cons]
    refine ⟨hbefore, Nat.le_refl _, fun t ht => ?_⟩
    exact Nat.le_of_lt (hafter t ht)
  · intro s hs
    rw [Bool.not_eq_true', List.all_eq_false]
    refine ⟨base, List.mem_append_right before List.mem_cons_self, ?_⟩
    rw [decide_eq_true_eq, Nat.not_le]
    exact hafter s (List.mem_reverse.mp hs)

theorem exists_lastLargest? {sets : List (ClassSet α)} (hne : sets ≠ []) :
    ∃ base, lastLargest? sets = some base := by
  cases hlargest : largest? sets with
  | none => exact absurd (pick?_eq_none_iff.mp hlargest) hne
  | some picked => exact ⟨picked.1, (largest?_eq_some hlargest).1⟩

/-! ## The elements of a union -/

variable [EquivBEq α]

/-- The copied set comes first, and then the first set that has the class. -/
theorem representative?_union (sets : List (ClassSet α)) (x : α) :
    (union sets).representative? x =
      ((lastLargest? sets).bind (representative? · x)).or
        (sets.findSome? (representative? · x)) := by
  cases hlargest : largest? sets with
  | none =>
      obtain rfl := pick?_eq_none_iff.mp hlargest
      rfl
  | some picked =>
      obtain ⟨base, others⟩ := picked
      obtain ⟨hbase, before, after, rfl, rfl⟩ := largest?_eq_some hlargest
      rw [union, hlargest, hbase]
      show ((before ++ after).foldl merge base).representative? x = _
      rw [representative?_foldl_merge, List.findSome?_append, List.findSome?_append,
        List.findSome?_cons, Option.bind_some]
      -- Where the copied set has no element of the class, it is passed over in its place.
      cases base.representative? x
      · rfl
      · rfl

theorem contains_union (sets : List (ClassSet α)) (x : α) :
    (union sets).contains x = sets.any (·.contains x) := by
  have hsome : (sets.findSome? (representative? · x)).isSome = sets.any (·.contains x) := by
    rw [List.isSome_findSome?]
    apply List.any_congr rfl
    intro s
    exact isSome_representative? s x
  rw [← isSome_representative?, representative?_union, Option.isSome_or, hsome]
  cases hlast : (lastLargest? sets).bind (representative? · x) with
  | none => rfl
  | some y =>
      obtain ⟨base, hbase, hy⟩ := Option.bind_eq_some_iff.mp hlast
      have hpresent : base.contains x = true := by
        rw [← isSome_representative?, hy, Option.isSome_some]
      exact (List.any_eq_true.mpr ⟨base, lastLargest?_mem hbase, hpresent⟩).symm

theorem contains_union_pair (s t : ClassSet α) (x : α) :
    (union [s, t]).contains x = (s.contains x || t.contains x) := by
  rw [contains_union, List.any_cons, List.any_cons, List.any_nil, Bool.or_false]

theorem exists_mem_of_mem_union {sets : List (ClassSet α)} {y : α} (hy : y ∈ (union sets).items) :
    ∃ s ∈ sets, y ∈ s.items := by
  rw [mem_items_iff, representative?_union, Option.or_eq_some_iff] at hy
  rcases hy with hy | ⟨-, hy⟩
  · obtain ⟨base, hbase, hy⟩ := Option.bind_eq_some_iff.mp hy
    exact ⟨base, lastLargest?_mem hbase, mem_items_iff.mpr hy⟩
  · obtain ⟨s, hs, hy⟩ := List.exists_of_findSome?_eq_some hy
    exact ⟨s, hs, mem_items_iff.mpr hy⟩

/-! ## The result -/

/-- A union has one element of each class that some set has, and each of its elements is one of some
set. If there is a set, then for each class that the last of the largest has the union has the
element of that one, and for any other class the element of the first set in the list that has it.
And lists of the same sets, whatever their order and their repetitions, have unions with the same
classes, which are therefore equal as sets. -/
theorem union_one_of_each_class (sets : List (ClassSet α)) :
    (∀ x, (union sets).items.countP (· == x) = if sets.any (·.contains x) then 1 else 0) ∧
      (∀ y ∈ (union sets).items, ∃ s ∈ sets, y ∈ s.items) ∧
      (sets ≠ [] → ∃ base, lastLargest? sets = some base ∧ ∀ x,
        (union sets).representative? x =
          if base.contains x then base.representative? x
          else sets.findSome? (representative? · x)) ∧
      ∀ sets', (∀ s, s ∈ sets ↔ s ∈ sets') →
        (∀ x, (union sets).contains x = (union sets').contains x) ∧
          (union sets == union sets') = true := by
  refine ⟨fun x => ?_, fun y hy => ?_, fun hne => ?_, fun sets' hsets => ?_⟩
  · rw [countP_items, contains_union]
  · exact exists_mem_of_mem_union hy
  · obtain ⟨base, hbase⟩ := exists_lastLargest? hne
    refine ⟨base, hbase, fun x => ?_⟩
    rw [representative?_union, hbase, Option.bind_some, ← isSome_representative?]
    cases base.representative? x
    · rfl
    · rfl
  · have hsame : ∀ x, (union sets).contains x = (union sets').contains x := by
      intro x
      rw [contains_union, contains_union, Bool.eq_iff_iff, List.any_eq_true, List.any_eq_true]
      exact exists_congr fun s => and_congr_left fun _ => hsets s
    exact ⟨hsame, beq_of_contains_eq hsame⟩

/-- Sets with keys 1 and 2, 2 and 3, 3, and 1, and an empty one, in two lists. In the first list the
set with keys 2 and 3 is copied, and key 1 has the element of the set that stands in front; in the
second list the set with keys 1 and 2 is copied. The elements differ, and the sets are equal. -/
theorem union_one_of_each_class_marked :
    let low := ofList [(⟨1, 0⟩ : Marked), ⟨2, 0⟩]
    let high := ofList [(⟨2, 1⟩ : Marked), ⟨3, 1⟩]
    let three := ofList [(⟨3, 2⟩ : Marked)]
    let one := ofList [(⟨1, 3⟩ : Marked)]
    let sets := [empty, one, low, low, high, three, empty]
    let sets' := [high, three, low, one, empty]
    lastLargest? sets = some high ∧ lastLargest? sets' = some low ∧
      (union sets).items = [⟨2, 1⟩, ⟨3, 1⟩, ⟨1, 3⟩] ∧
      (union sets').items = [⟨1, 0⟩, ⟨2, 0⟩, ⟨3, 1⟩] ∧
      (union sets).items.countP (· == ⟨1, 9⟩) = 1 ∧
      (union sets).representative? ⟨1, 9⟩ = some ⟨1, 3⟩ ∧
      (∀ s, s ∈ sets ↔ s ∈ sets') ∧ (union sets == union sets') = true := by
  intro low high three one sets sets'
  obtain ⟨hcount, -, hkept, hunions⟩ := union_one_of_each_class sets
  obtain ⟨base, hbase, hrepresentative⟩ := hkept (List.cons_ne_nil _ _)
  have hhigh : lastLargest? sets = some high := by rfl
  obtain rfl := Option.some.inj (hhigh.symm.trans hbase)
  have hsets : ∀ s, s ∈ sets ↔ s ∈ sets' := by
    intro s
    simp only [sets, sets', List.mem_cons, List.not_mem_nil, or_false]
    tauto
  refine ⟨hhigh, by rfl, by rfl, by rfl, ?_, ?_, hsets, (hunions sets' hsets).2⟩
  · rw [hcount]
    rfl
  · rw [hrepresentative]
    rfl

end Retention.ClassSet
