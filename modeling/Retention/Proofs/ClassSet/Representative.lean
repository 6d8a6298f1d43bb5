/-
# Retention.Proofs.ClassSet.Representative -- the element that stands for a class

Two sets may have the same classes and hold different elements, and the order in which elements were
added shows in a listing of them but in no answer. Both are settled by one question: which element
stands for the class of `x`? It has at most one answer, for a set holds no two equal elements; the
classes of a set are those for which there is one; and the set holds exactly the elements that stand
for their own class.

So it is enough to know how an operation changes the answers. To insert elements is to answer as
before where there was an answer, and else with the first of those inserted that is equal. To merge
a set is the same with the answers of that set, whatever the order in which it lists its elements.
To filter by a test that does not tell equal elements apart is to keep an answer or to drop it.
-/
import Retention.ClassSet.Algebra
import Retention.Proofs.Distinct

namespace Retention

universe u v

/-- An element with a mark that shows which one it is, and that equality does not look at. -/
structure Marked where
  key : Nat
  mark : Nat

instance : BEq Marked := ⟨fun x y => x.key == y.key⟩

instance : EquivBEq Marked where
  rfl {x} := BEq.refl x.key
  symm {x y} h := BEq.symm (a := x.key) (b := y.key) h
  trans {x y z} hxy hyz := BEq.trans (a := x.key) (b := y.key) (c := z.key) hxy hyz

namespace ClassSet

variable {α : Type u} [BEq α]

/-! ## The one element of a class -/

/-- The element of a set that is equal to `x`, if there is one. -/
def representative? (s : ClassSet α) (x : α) : Option α := s.items.find? (· == x)

@[simp] theorem representative?_empty (x : α) : (empty : ClassSet α).representative? x = none := rfl

theorem isSome_representative? (s : ClassSet α) (x : α) :
    (s.representative? x).isSome = s.contains x :=
  List.isSome_find?

theorem representative?_eq_none_iff {s : ClassSet α} {x : α} :
    s.representative? x = none ↔ s.contains x = false := by
  rw [← isSome_representative?, Option.isSome_eq_false_iff, Option.isNone_iff_eq_none]

variable [EquivBEq α] {s : ClassSet α} {x y : α}

theorem representative?_eq_some_iff : s.representative? x = some y ↔ y ∈ s.items ∧ y == x := by
  rw [representative?, List.find?_eq_some_iff_append]
  constructor
  · rintro ⟨hyx, before, after, hitems, -⟩
    rw [hitems]
    exact ⟨List.mem_append_right before List.mem_cons_self, hyx⟩
  · rintro ⟨hy, hyx⟩
    obtain ⟨before, after, hitems⟩ := List.append_of_mem hy
    refine ⟨hyx, before, after, hitems, ?_⟩
    intro z hz
    -- No element in front of it can be equal to `x`, because it would be equal to it.
    obtain ⟨-, -, hapart⟩ := List.pairwise_append.mp (hitems ▸ s.distinct)
    rw [← BEq.congr_right hyx, hapart z hz y List.mem_cons_self, Bool.not_false]

theorem mem_items_iff : y ∈ s.items ↔ s.representative? y = some y := by
  rw [representative?_eq_some_iff]
  exact (and_iff_left (BEq.refl y)).symm

theorem contains_of_mem (hy : y ∈ s.items) : s.contains y = true :=
  contains_iff.mpr ⟨y, hy, BEq.refl y⟩

theorem eq_of_beq_of_mem {z : α} (hy : y ∈ s.items) (hz : z ∈ s.items) (hyz : y == z) : y = z := by
  have hyz : s.representative? z = some y := representative?_eq_some_iff.mpr ⟨hy, hyz⟩
  rw [mem_items_iff.mp hz] at hyz
  exact (Option.some.inj hyz).symm

theorem nodup_items (s : ClassSet α) : s.items.Nodup := by
  apply s.distinct.imp
  rintro y z hyz rfl
  rw [BEq.refl y] at hyz
  exact Bool.false_ne_true hyz.symm

theorem contains_congr (hxy : x == y) : s.contains x = s.contains y := by
  unfold contains
  apply List.any_congr rfl
  intro z
  exact BEq.congr_right hxy

/-- What is asked of the classes of some sets has one answer for equal elements. -/
theorem all_contains_congr (ask : Bool → Bool) (sets : List (ClassSet α)) (x y : α) (hxy : x == y) :
    (sets.all fun s => ask (s.contains x)) = sets.all fun s => ask (s.contains y) := by
  apply List.all_congr rfl
  intro s
  rw [contains_congr hxy]

theorem isEmpty_iff : s.isEmpty = true ↔ ∀ x, s.contains x = false := by
  unfold isEmpty contains
  rw [List.isEmpty_iff]
  constructor
  · intro hnil x
    rw [hnil, List.any_nil]
  · intro hnone
    apply List.eq_nil_iff_forall_not_mem.mpr
    intro y hy
    have hpresent := contains_of_mem hy
    rw [contains, hnone y] at hpresent
    exact Bool.false_ne_true hpresent

theorem countP_items (s : ClassSet α) (x : α) :
    s.items.countP (· == x) = if s.contains x then 1 else 0 :=
  countP_of_distinct s.distinct x

/-! ## Inserting and merging -/

theorem representative?_insert (s : ClassSet α) (y x : α) :
    (s.insert y).representative? x =
      (s.representative? x).or (if y == x then some y else none) := by
  unfold representative?
  rw [items_insert]
  split
  · next hpresent =>
      split
      · next hyx =>
          -- The set keeps the element that it has for the class of `y`, which is that of `x`.
          rw [contains_congr hyx, ← isSome_representative?, Option.isSome_iff_exists] at hpresent
          obtain ⟨z, hz⟩ := hpresent
          rw [show s.items.find? (· == x) = some z from hz, Option.some_or]
      · rw [Option.or_none]
  · rw [List.find?_append, List.find?_singleton]

theorem representative?_insertMany (s : ClassSet α) (xs : List α) (x : α) :
    (s.insertMany xs).representative? x = (s.representative? x).or (xs.find? (· == x)) := by
  induction xs generalizing s with
  | nil => exact Option.or_none.symm
  | cons y ys ih =>
      show ((s.insert y).insertMany ys).representative? x = _
      rw [ih, representative?_insert, Option.or_assoc, List.find?_cons]
      cases y == x
      · rfl
      · rfl

theorem representative?_merge (s t : ClassSet α) (x : α) :
    (s.merge t).representative? x = (s.representative? x).or (t.representative? x) :=
  representative?_insertMany s t.items x

/-- When sets are merged one after another, the first that has a class provides its element. -/
theorem representative?_foldl_merge (s : ClassSet α) (sets : List (ClassSet α)) (x : α) :
    (sets.foldl merge s).representative? x =
      (s.representative? x).or (sets.findSome? (representative? · x)) := by
  induction sets generalizing s with
  | nil => exact Option.or_none.symm
  | cons t sets ih =>
      rw [List.foldl_cons, ih, representative?_merge, Option.or_assoc, List.findSome?_cons]
      cases t.representative? x
      · rfl
      · rfl

/-! ## Filtering -/

omit [EquivBEq α] in
/-- Filtered by one test after another, a set keeps the elements that pass them all. -/
theorem foldl_filter {β : Type v} (keep : β → α → Bool) (s : ClassSet α) (tests : List β) :
    tests.foldl (fun r b => r.filter (keep b)) s = s.filter fun y => tests.all fun b => keep b y := by
  induction tests generalizing s with
  | nil =>
      apply ext
      exact (List.filter_true s.items).symm
  | cons b tests ih =>
      rw [List.foldl_cons, ih]
      apply ext
      rw [items_filter, items_filter, items_filter, List.filter_filter]
      apply List.filter_congr
      intro y _
      rw [List.all_cons, Bool.and_comm]

/-- A test that does not tell equal elements apart keeps a class with its element or drops it. -/
theorem representative?_filter {keep : α → Bool} (hkeep : ∀ y z, y == z → keep y = keep z)
    (s : ClassSet α) (x : α) :
    (s.filter keep).representative? x = if keep x then s.representative? x else none := by
  apply Option.ext
  intro y
  rw [representative?_eq_some_iff, items_filter, List.mem_filter]
  constructor
  · rintro ⟨⟨hy, hpass⟩, hyx⟩
    rw [if_pos (hkeep y x hyx ▸ hpass)]
    exact representative?_eq_some_iff.mpr ⟨hy, hyx⟩
  · intro hy
    obtain ⟨hpass, hy⟩ := Option.ite_none_right_eq_some.mp hy
    obtain ⟨hy, hyx⟩ := representative?_eq_some_iff.mp hy
    exact ⟨⟨hy, (hkeep y x hyx).trans hpass⟩, hyx⟩

theorem contains_filter {keep : α → Bool} (hkeep : ∀ y z, y == z → keep y = keep z)
    (s : ClassSet α) (x : α) : (s.filter keep).contains x = (s.contains x && keep x) := by
  rw [← isSome_representative?, representative?_filter hkeep, ← isSome_representative?]
  cases keep x
  · rw [Bool.and_false]
    rfl
  · rw [Bool.and_true]
    rfl

end ClassSet

end Retention
