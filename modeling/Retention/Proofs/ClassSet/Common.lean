/-
# Retention.Proofs.ClassSet.Common -- what an intersection holds

An intersection has the classes that every set has, and one element for each. It starts as a copy of
a smallest set, the first of them, and from then on elements are only dropped. So all its elements
are those of the copied set: an element stays when every other set has its class, and asking the
copied set too, which has its own classes, would change nothing. Therefore it does not show in the
result at which place the copied set stood.

No sets have no class in common. For any other list a class must be in every set, and an empty set
has none.
-/
import Retention.Proofs.ClassSet.Compared

namespace Retention.ClassSet

universe u

variable {α : Type u} [BEq α]

/-! ## The set that is copied -/

/-- The first of the sets that are at most as large as every other. -/
def firstSmallest? (sets : List (ClassSet α)) : Option (ClassSet α) :=
  sets.find? fun s => sets.all fun t => s.size ≤ t.size

theorem smallest?_eq_some {sets others : List (ClassSet α)} {base : ClassSet α}
    (hsmallest : smallest? sets = some (base, others)) :
    firstSmallest? sets = some base ∧
      ∃ before after, sets = before ++ base :: after ∧ others = before ++ after := by
  obtain ⟨before, after, rfl, rfl, hbefore, hafter⟩ := pick?_eq_some
    (fun r s t hrs hst => by simp only [decide_eq_true_eq] at *; omega)
    (fun r s t hrt hst => by simp only [decide_eq_true_eq, decide_eq_false_iff_not] at *; omega)
    hsmallest
  simp only [decide_eq_true_eq, decide_eq_false_iff_not, Nat.not_le] at hbefore hafter
  refine ⟨?_, before, after, rfl, rfl⟩
  rw [firstSmallest?, List.find?_eq_some_iff_append]
  refine ⟨?_, before, after, rfl, ?_⟩
  · simp only [List.all_eq_true, decide_eq_true_eq]
    rw [List.forall_mem_append, List.forall_mem_cons]
    refine ⟨fun t ht => ?_, Nat.le_refl _, hafter⟩
    exact Nat.le_of_lt (hbefore t ht)
  · intro s hs
    rw [Bool.not_eq_true', List.all_eq_false]
    refine ⟨base, List.mem_append_right before List.mem_cons_self, ?_⟩
    rw [decide_eq_true_eq, Nat.not_le]
    exact hbefore s hs

theorem exists_firstSmallest? {sets : List (ClassSet α)} (hne : sets ≠ []) :
    ∃ base, firstSmallest? sets = some base := by
  cases hsmallest : smallest? sets with
  | none => exact absurd (pick?_eq_none_iff.mp hsmallest) hne
  | some picked => exact ⟨picked.1, (smallest?_eq_some hsmallest).1⟩

/-! ## The elements of an intersection -/

variable [EquivBEq α]

/-- The elements of the copied set whose class every set has, itself included. -/
theorem intersection_eq_filter {sets : List (ClassSet α)} {base : ClassSet α}
    (hbase : firstSmallest? sets = some base) :
    intersection sets = base.filter fun y => sets.all (·.contains y) := by
  cases hsmallest : smallest? sets with
  | none =>
      obtain rfl := pick?_eq_none_iff.mp hsmallest
      cases hbase
  | some picked =>
      obtain ⟨chosen, others⟩ := picked
      obtain ⟨hchosen, before, after, rfl, rfl⟩ := smallest?_eq_some hsmallest
      obtain rfl := Option.some.inj (hchosen.symm.trans hbase)
      rw [intersection, hsmallest]
      show (before ++ after).foldl (fun r t => r.filter t.contains) chosen = _
      rw [foldl_filter contains]
      apply ext
      apply List.filter_congr
      intro y hy
      -- The copied set has the class of its own element, so asking it in its place changes nothing.
      rw [List.all_append, List.all_append, List.all_cons, contains_of_mem hy, Bool.true_and]

theorem contains_intersection (sets : List (ClassSet α)) (x : α) :
    (intersection sets).contains x = (!sets.isEmpty && sets.all (·.contains x)) := by
  cases sets with
  | nil => rfl
  | cons s rest =>
      obtain ⟨base, hbase⟩ := exists_firstSmallest? (List.cons_ne_nil s rest)
      have hcopied : (intersection (s :: rest)).contains x =
          (base.contains x && (s :: rest).all (·.contains x)) := by
        rw [intersection_eq_filter hbase]
        exact contains_filter (all_contains_congr id (s :: rest)) base x
      rw [hcopied, List.isEmpty_cons, Bool.not_false, Bool.true_and, Bool.and_eq_right_iff_imp]
      intro hall
      exact List.all_eq_true.mp hall base (List.mem_of_find?_eq_some hbase)

theorem contains_intersection_pair (s t : ClassSet α) (x : α) :
    (intersection [s, t]).contains x = (s.contains x && t.contains x) := by
  rw [contains_intersection, List.isEmpty_cons, Bool.not_false, Bool.true_and, List.all_cons,
    List.all_cons, List.all_nil, Bool.and_true]

theorem mem_intersection_iff {sets : List (ClassSet α)} {base : ClassSet α}
    (hbase : firstSmallest? sets = some base) (y : α) :
    y ∈ (intersection sets).items ↔ y ∈ base.items ∧ ∀ s ∈ sets, s.contains y = true := by
  rw [intersection_eq_filter hbase, items_filter, List.mem_filter, List.all_eq_true]

theorem contains_intersection_of_sameSets {sets sets' : List (ClassSet α)}
    (h : SameSets sets sets') (x : α) :
    (intersection sets).contains x = (intersection sets').contains x := by
  have hall : sets.all (·.contains x) = sets'.all (·.contains x) := h.all_contains id x
  rw [contains_intersection, contains_intersection, h.isEmpty_eq, hall]

/-! ## The result -/

/-- An intersection has one element of each class that every set has, if there is a set, and no
others. Its elements are all taken from the first of the smallest sets. It is empty for no sets, and
if one of the sets is empty. And for lists of equal sets, whatever their order and their
repetitions, the intersections have the same classes and are therefore equal as sets. -/
theorem intersection_one_of_each_common_class (sets : List (ClassSet α)) :
    (∀ x, (intersection sets).items.countP (· == x) =
        if !sets.isEmpty && sets.all (·.contains x) then 1 else 0) ∧
      (sets ≠ [] → ∃ base, firstSmallest? sets = some base ∧ ∀ y,
        y ∈ (intersection sets).items ↔ y ∈ base.items ∧ ∀ s ∈ sets, s.contains y = true) ∧
      ((sets = [] ∨ ∃ s ∈ sets, s.isEmpty = true) → (intersection sets).isEmpty = true) ∧
      ∀ sets', SameSets sets sets' →
        (∀ x, (intersection sets).contains x = (intersection sets').contains x) ∧
          (intersection sets == intersection sets') = true := by
  refine ⟨?_, ?_, ?_, ?_⟩
  · intro x
    rw [countP_items, contains_intersection]
  · intro hne
    obtain ⟨base, hbase⟩ := exists_firstSmallest? hne
    exact ⟨base, hbase, mem_intersection_iff hbase⟩
  · intro hempty
    rw [isEmpty_iff]
    intro x
    rw [contains_intersection]
    rcases hempty with rfl | ⟨s, hs, hempty⟩
    · rfl
    · have hlacks : sets.all (·.contains x) = false := by
        rw [List.all_eq_false]
        refine ⟨s, hs, ?_⟩
        rw [isEmpty_iff.mp hempty x]
        exact Bool.false_ne_true
      rw [hlacks, Bool.and_false]
  · intro sets' hsets
    have hsame := contains_intersection_of_sameSets hsets
    exact ⟨hsame, beq_of_contains_eq hsame⟩

/-- Keys 1 to 3, and twice keys 2 and 3 with different marks. Of two sets that are equally small the
one in front is copied, so the elements of the two intersections differ, and the sets are equal.
With an empty set in the list nothing is left. -/
theorem intersection_one_of_each_common_class_marked :
    let wide := ofList [(⟨1, 0⟩ : Marked), ⟨2, 0⟩, ⟨3, 0⟩]
    let small := ofList [(⟨3, 1⟩ : Marked), ⟨2, 1⟩]
    let small' := ofList [(⟨2, 2⟩ : Marked), ⟨3, 2⟩]
    let sets := [wide, small, small', small, wide]
    let sets' := [small', wide]
    firstSmallest? sets = some small ∧ firstSmallest? sets' = some small' ∧
      (intersection sets).items = [⟨3, 1⟩, ⟨2, 1⟩] ∧
      (intersection sets').items = [⟨2, 2⟩, ⟨3, 2⟩] ∧
      (intersection sets).items.countP (· == ⟨2, 9⟩) = 1 ∧
      ⟨2, 1⟩ ∈ (intersection sets).items ∧
      SameSets sets sets' ∧ (intersection sets == intersection sets') = true ∧
      (intersection (empty :: sets)).isEmpty = true := by
  intro wide small small' sets sets'
  obtain ⟨hcount, hkept, -, hsame⟩ := intersection_one_of_each_common_class sets
  obtain ⟨base, hbase, hmem⟩ := hkept (List.cons_ne_nil _ _)
  have hsmall : firstSmallest? sets = some small := by rfl
  obtain rfl := Option.some.inj (hsmall.symm.trans hbase)
  have hsets : SameSets sets sets' := by decide
  obtain ⟨-, -, hnone, -⟩ := intersection_one_of_each_common_class (empty :: sets)
  refine ⟨hsmall, by rfl, by rfl, by rfl, ?_, ?_, hsets, (hsame sets' hsets).2, ?_⟩
  · rw [hcount]
    rfl
  · exact (hmem ⟨2, 1⟩).mpr ⟨.tail _ (.head _), by decide⟩
  · exact hnone (.inr ⟨empty, .head _, rfl⟩)

end Retention.ClassSet
