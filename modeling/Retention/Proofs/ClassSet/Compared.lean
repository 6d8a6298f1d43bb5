/-
# Retention.Proofs.ClassSet.Compared -- what the comparisons of sets decide

A set is included in another when each of its elements has an equal one there. That is all that the
comparisons are about, but none of them is computed that way: the test for a subset looks at the
sizes first, and the test for equality looks at the sizes and at one direction only.

Both are right because a set holds no two equal elements, which is part of its type and so holds of
every set that can be made. Different elements then have their equals in different places. So an
included set is not larger; and if it is not smaller either, no element of the other set is left
without an equal.
-/
import Retention.Proofs.ClassSet.Representative

namespace Retention.ClassSet

universe u

variable {α : Type u} [BEq α]

/-- Every element of `s` has an equal one in `t`. -/
def IncludedIn (s t : ClassSet α) : Prop := ∀ x ∈ s.items, ∃ y ∈ t.items, y == x

instance (s t : ClassSet α) : Decidable (s.IncludedIn t) :=
  inferInstanceAs (Decidable (∀ x ∈ s.items, ∃ y ∈ t.items, y == x))

variable {r s t : ClassSet α}

/-! ## Inclusion -/

theorem IncludedIn.all_contains (h : s.IncludedIn t) : s.items.all t.contains = true := by
  rw [List.all_eq_true]
  intro x hx
  apply contains_iff.mpr
  exact h x hx

variable [EquivBEq α]

theorem IncludedIn.refl (s : ClassSet α) : s.IncludedIn s := by
  intro x hx
  exact ⟨x, hx, BEq.refl x⟩

theorem IncludedIn.trans (hrs : r.IncludedIn s) (hst : s.IncludedIn t) : r.IncludedIn t := by
  intro x hx
  obtain ⟨y, hy, hyx⟩ := hrs x hx
  obtain ⟨z, hz, hzy⟩ := hst y hy
  exact ⟨z, hz, BEq.trans hzy hyx⟩

theorem IncludedIn.contains (h : s.IncludedIn t) {x : α} (hx : s.contains x = true) :
    t.contains x = true := by
  obtain ⟨y, hy, hyx⟩ := contains_iff.mp hx
  obtain ⟨z, hz, hzy⟩ := h y hy
  exact contains_iff.mpr ⟨z, hz, BEq.trans hzy hyx⟩

theorem includedIn_of_contains (hsub : ∀ x, s.contains x = true → t.contains x = true) :
    s.IncludedIn t := by
  intro x hx
  apply contains_iff.mp
  apply hsub
  exact contains_of_mem hx

theorem IncludedIn.size_le (h : s.IncludedIn t) : s.size ≤ t.size :=
  length_le_of_distinct s.distinct h

theorem isSubset_iff : s.isSubset t = true ↔ s.IncludedIn t := by
  unfold isSubset
  rw [Bool.and_eq_true, decide_eq_true_eq]
  constructor
  · rintro ⟨-, hall⟩ x hx
    apply contains_iff.mp
    exact List.all_eq_true.mp hall x hx
  · intro h
    exact ⟨h.size_le, h.all_contains⟩

/-! ## Equality -/

theorem isEqual_iff : s.isEqual t = true ↔ s.IncludedIn t ∧ t.IncludedIn s := by
  unfold isEqual
  rw [Bool.and_eq_true, beq_iff_eq, isSubset_iff]
  constructor
  · rintro ⟨hsize, hst⟩
    refine ⟨hst, ?_⟩
    -- With equally many elements on both sides, none of `t` is left without an equal.
    intro y hy
    exact exists_beq_of_distinct s.distinct hst (Nat.le_of_eq hsize.symm) hy
  · rintro ⟨hst, hts⟩
    exact ⟨Nat.le_antisymm hst.size_le hts.size_le, hst⟩

instance : EquivBEq (ClassSet α) where
  rfl {s} := isEqual_iff.mpr ⟨.refl s, .refl s⟩
  symm {s t} h := isEqual_iff.mpr (isEqual_iff.mp h).symm
  trans {r s t} hrs hst := by
    obtain ⟨hrs, hsr⟩ := isEqual_iff.mp hrs
    obtain ⟨hst, hts⟩ := isEqual_iff.mp hst
    exact isEqual_iff.mpr ⟨hrs.trans hst, hts.trans hsr⟩

theorem contains_eq_of_beq (h : s == t) (x : α) : s.contains x = t.contains x := by
  obtain ⟨hst, hts⟩ := isEqual_iff.mp h
  rw [Bool.eq_iff_iff]
  constructor
  · exact hst.contains
  · exact hts.contains

/-- Sets with the same classes are equal as sets. -/
theorem beq_of_contains_eq (hsame : ∀ x, s.contains x = t.contains x) : s == t := by
  apply isEqual_iff.mpr
  constructor
  · apply includedIn_of_contains
    intro x hx
    rwa [← hsame x]
  · apply includedIn_of_contains
    intro x hx
    rwa [hsame x]

theorem size_eq_of_contains_eq (hsame : ∀ x, s.contains x = t.contains x) : s.size = t.size := by
  obtain ⟨hst, hts⟩ := isEqual_iff.mp (beq_of_contains_eq hsame)
  exact Nat.le_antisymm hst.size_le hts.size_le

/-! ## Lists of equal sets -/

/-- Each set of one list has an equal one in the other. Neither the order of the lists nor their
repetitions matter, nor which elements stand for the classes of a set. -/
def SameSets (sets sets' : List (ClassSet α)) : Prop :=
  (∀ s ∈ sets, ∃ t ∈ sets', s == t) ∧ ∀ t ∈ sets', ∃ s ∈ sets, s == t

instance (sets sets' : List (ClassSet α)) : Decidable (SameSets sets sets') :=
  inferInstanceAs (Decidable ((∀ s ∈ sets, ∃ t ∈ sets', s == t) ∧ ∀ t ∈ sets', ∃ s ∈ sets, s == t))

theorem SameSets.all_contains {sets sets' : List (ClassSet α)} (ask : Bool → Bool)
    (h : SameSets sets sets') (x : α) :
    (sets.all fun s => ask (s.contains x)) = sets'.all fun t => ask (t.contains x) := by
  rw [Bool.eq_iff_iff, List.all_eq_true, List.all_eq_true]
  constructor
  · intro hall t ht
    obtain ⟨s, hs, hst⟩ := h.2 t ht
    rw [← contains_eq_of_beq hst]
    exact hall s hs
  · intro hall s hs
    obtain ⟨t, ht, hst⟩ := h.1 s hs
    rw [contains_eq_of_beq hst]
    exact hall t ht

omit [EquivBEq α] in
theorem SameSets.isEmpty_eq {sets sets' : List (ClassSet α)} (h : SameSets sets sets') :
    sets.isEmpty = sets'.isEmpty := by
  cases sets with
  | nil =>
      cases sets' with
      | nil => rfl
      | cons t _ =>
          obtain ⟨s, hs, -⟩ := h.2 t List.mem_cons_self
          exact absurd hs List.not_mem_nil
  | cons s _ =>
      cases sets' with
      | nil =>
          obtain ⟨t, ht, -⟩ := h.1 s List.mem_cons_self
          exact absurd ht List.not_mem_nil
      | cons => rfl

/-! ## The result -/

/-- The test for a subset decides whether each element has an equal one in the other set, the test
for a superset does so the other way round, and the test for equality decides whether it is so both
ways. Equality is therefore an equivalence; to be a subset is reflexive and transitive, and two sets
are subsets of each other just when they are equal. -/
theorem comparisons_decide_inclusion :
    (∀ s t : ClassSet α,
      (s.isSubset t = true ↔ s.IncludedIn t) ∧
      (s.isSuperset t = true ↔ t.IncludedIn s) ∧
      s.isSuperset t = t.isSubset s ∧
      (s.isEqual t = true ↔ s.IncludedIn t ∧ t.IncludedIn s) ∧
      (s == t) = s.isEqual t ∧
      (s.isEqual t = true ↔ s.isSubset t = true ∧ t.isSubset s = true)) ∧
    Equivalence (fun s t : ClassSet α => s.isEqual t = true) ∧
    (∀ s : ClassSet α, s.isSubset s = true) ∧
    ∀ r s t : ClassSet α, r.isSubset s = true → s.isSubset t = true → r.isSubset t = true := by
  refine ⟨?_, ⟨?_, ?_, ?_⟩, ?_, ?_⟩
  · intro s t
    refine ⟨isSubset_iff, isSubset_iff, rfl, isEqual_iff, rfl, ?_⟩
    rw [isEqual_iff, isSubset_iff, isSubset_iff]
  · intro s
    exact BEq.refl s
  · intro s t hst
    exact BEq.symm (a := s) (b := t) hst
  · intro r s t hrs hst
    exact BEq.trans (a := r) (b := s) (c := t) hrs hst
  · intro s
    exact isSubset_iff.mpr (.refl s)
  · intro r s t hrs hst
    rw [isSubset_iff] at hrs hst ⊢
    exact hrs.trans hst

/-- Keys 1 and 2 with two marks, keys 1 and 4, and keys 1 to 3. The first two sets share no element
and are equal; they are no subset of the third, which is as large, and one of the fourth. -/
theorem comparisons_decide_inclusion_marked :
    let low := ofList [(⟨1, 0⟩ : Marked), ⟨2, 0⟩]
    let low' := ofList [(⟨2, 1⟩ : Marked), ⟨1, 1⟩, ⟨2, 5⟩]
    let apart := ofList [(⟨1, 2⟩ : Marked), ⟨4, 2⟩]
    let wide := ofList [(⟨3, 3⟩ : Marked), ⟨2, 3⟩, ⟨1, 3⟩]
    low.items = [⟨1, 0⟩, ⟨2, 0⟩] ∧ low'.items = [⟨2, 1⟩, ⟨1, 1⟩] ∧
      low.isEqual low' = true ∧ (low' == low) = true ∧ low.isSubset apart = false ∧
      low'.isSubset wide = true ∧ wide.isSuperset low = true ∧ wide.isEqual low = false := by
  intro low low' apart wide
  obtain ⟨hdecide, hequivalence, -, htrans⟩ := comparisons_decide_inclusion (α := Marked)
  obtain ⟨-, -, -, hequal, -, hboth⟩ := hdecide low low'
  have hlow : low.isEqual low' = true := hequal.mpr ⟨by decide, by decide⟩
  have hwide : low'.isSubset wide = true := (hdecide low' wide).1.mpr (by decide)
  have hapart : low.isSubset apart = false := by
    rw [Bool.eq_false_iff]
    exact mt (hdecide low apart).1.mp (by decide)
  have hlarger : wide.isEqual low = false := by
    rw [Bool.eq_false_iff]
    exact mt (hdecide wide low).2.2.2.1.mp (by decide)
  exact ⟨rfl, rfl, hlow, hequivalence.symm hlow, hapart, hwide,
    htrans low low' wide (hboth.mp hlow).1 hwide, hlarger⟩

end Retention.ClassSet
