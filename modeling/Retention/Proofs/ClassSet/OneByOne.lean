/-
# Retention.Proofs.ClassSet.OneByOne -- many elements at once are one element after another

A list can be inserted, erased or asked for as a whole, and so can the elements of another set,
which come in no order that anyone could rely on. All this is settled by what happens to one
element. Elements are added one by one, and each addition tells whether its class is new; so of a
list the elements stay whose addition said so, which are the first of their classes.

To merge a set differs from a union in one respect: it never copies the larger set, so an element
that is there stays. Therefore to take away again what was merged does not give back the set, but
what the other set has nothing of, the same as if nothing had been merged. And when nothing is asked
for, not all of it is present, whereas the empty set is a subset of every set.
-/
import Retention.Proofs.ClassSet.Apart
import Retention.Proofs.ClassSet.Common
import Retention.Proofs.Run

namespace Retention.ClassSet

universe u

variable {α : Type u} [BEq α]

/-! ## One element after another -/

/-- One element is added. The result tells whether its class is new. -/
def add (s : ClassSet α) (x : α) : Step (ClassSet α) Bool :=
  { state := (s.containsThenInsert x).2, result := !(s.containsThenInsert x).1 }

/-- One element is removed. The result tells whether its class was present. -/
def remove (s : ClassSet α) (x : α) : Step (ClassSet α) Bool :=
  { state := (s.containsThenErase x).2, result := (s.containsThenErase x).1 }

/-- The elements of a list whose addition tells that their class is new. -/
def welcomed (s : ClassSet α) (xs : List α) : List α :=
  ((Step.transcript add s xs).filter Prod.snd).map Prod.fst

theorem state_forEach_add (s : ClassSet α) (xs : List α) :
    (Step.forEach add s xs).state = s.insertMany xs := by
  induction xs generalizing s with
  | nil => rfl
  | cons x xs ih => exact ih (s.insert x)

theorem state_forEach_remove (s : ClassSet α) (xs : List α) :
    (Step.forEach remove s xs).state = s.eraseMany xs := by
  induction xs generalizing s with
  | nil => rfl
  | cons x xs ih => exact ih (s.erase x)

theorem welcomed_cons (s : ClassSet α) (x : α) (xs : List α) :
    s.welcomed (x :: xs) =
      if s.contains x then (s.insert x).welcomed xs else x :: (s.insert x).welcomed xs := by
  have hrest : Step.transcript add s (x :: xs) =
      (x, !s.contains x) :: Step.transcript add (s.insert x) xs := rfl
  rw [welcomed, hrest, List.filter_cons]
  cases s.contains x
  · rfl
  · rfl

theorem mem_of_mem_welcomed {s : ClassSet α} {xs : List α} {y : α} (hy : y ∈ s.welcomed xs) :
    y ∈ xs := by
  obtain ⟨t, ht, rfl⟩ := List.mem_map.mp hy
  rw [← Step.map_fst_transcript add s xs]
  exact List.mem_map_of_mem (List.mem_of_mem_filter ht)

/-- What is inserted comes behind what was there, and only elements of new classes do. -/
theorem items_insertMany (s : ClassSet α) (xs : List α) :
    (s.insertMany xs).items = s.items ++ s.welcomed xs := by
  induction xs generalizing s with
  | nil => exact (List.append_nil s.items).symm
  | cons x xs ih =>
      rw [welcomed_cons]
      refine (ih (s.insert x)).trans ?_
      rw [items_insert]
      split
      · rfl
      · exact List.append_assoc s.items [x] _

theorem eraseMany_eq_filter (s : ClassSet α) (xs : List α) :
    s.eraseMany xs = s.filter fun y => xs.all fun x => !(y == x) :=
  foldl_filter (fun x y => !(y == x)) s xs

/-! ## The order of a list -/

section
variable {xs ys : List α}

theorem eraseMany_perm (s : ClassSet α) (h : xs.Perm ys) : s.eraseMany xs = s.eraseMany ys := by
  rw [eraseMany_eq_filter, eraseMany_eq_filter]
  congr 1
  funext y
  exact h.all_eq

theorem hasAll_perm (s : ClassSet α) (h : xs.Perm ys) : s.hasAll xs = s.hasAll ys := by
  rw [hasAll, hasAll, h.all_eq, h.isEmpty_eq]

theorem hasAny_perm (s : ClassSet α) (h : xs.Perm ys) : s.hasAny xs = s.hasAny ys := by
  rw [hasAny, hasAny, h.any_eq]

end

/-! ## The elements of a set at once -/

variable [EquivBEq α] {s t : ClassSet α} {y : α}

/-- Of a list the first element of each class stays. -/
theorem mem_ofList_iff {xs : List α} : y ∈ (ofList xs).items ↔
    ∃ before after, xs = before ++ y :: after ∧ ∀ z ∈ before, (z == y) = false := by
  rw [mem_items_iff, ofList, representative?_insertMany, representative?_empty, Option.none_or,
    List.find?_eq_some_iff_append, and_iff_right (BEq.refl y)]
  simp only [Bool.not_eq_true']

theorem mem_merge_iff :
    y ∈ (s.merge t).items ↔ y ∈ s.items ∨ y ∈ t.items ∧ s.contains y = false := by
  rw [mem_items_iff, representative?_merge, Option.or_eq_some_iff, representative?_eq_none_iff,
    ← mem_items_iff, ← mem_items_iff, and_comm]

theorem contains_merge (s t : ClassSet α) (x : α) :
    (s.merge t).contains x = (s.contains x || t.contains x) := by
  rw [← isSome_representative?, representative?_merge, Option.isSome_or, isSome_representative?,
    isSome_representative?]

/-- The elements of a set may be inserted in any order, because no two of them have one class. -/
theorem insertMany_perm_merge {xs : List α} (h : xs.Perm t.items) :
    (s.insertMany xs).items.Perm (s.merge t).items := by
  let relisted : ClassSet α :=
    { items := xs, distinct := t.distinct.perm h.symm BEq.symm_false }
  rw [List.perm_ext_iff_of_nodup (nodup_items _) (nodup_items _)]
  intro y
  rw [show s.insertMany xs = s.merge relisted from rfl, mem_merge_iff, mem_merge_iff, h.mem_iff]

theorem eraseMany_items (s t : ClassSet α) : s.eraseMany t.items = s.without t := by
  rw [eraseMany_eq_filter, without]
  congr 1
  funext y
  rw [contains, List.not_any_eq_all_not]
  apply List.all_congr rfl
  intro x
  rw [BEq.comm]

/-- What another set has is taken away again, whether it was merged or there before. -/
theorem without_merge (s t : ClassSet α) : (s.merge t).without t = s.without t := by
  apply ext
  show (s.merge t).items.filter _ = s.items.filter _
  rw [merge, items_insertMany, List.filter_append, List.append_right_eq_self, List.filter_eq_nil_iff]
  intro y hy
  rw [contains_of_mem (mem_of_mem_welcomed hy)]
  exact Bool.false_ne_true

theorem hasAll_items_iff :
    s.hasAll t.items = true ↔ t.isEmpty = false ∧ t.isSubset s = true := by
  rw [hasAll, Bool.and_eq_true, Bool.not_eq_true', isSubset_iff]
  refine and_congr_right fun _ => ⟨fun hall x hx => ?_, IncludedIn.all_contains⟩
  apply contains_iff.mp
  exact List.all_eq_true.mp hall x hx

theorem hasAny_items_iff :
    s.hasAny t.items = true ↔ (intersection [s, t]).isEmpty = false := by
  rw [← Bool.not_eq_true (intersection [s, t]).isEmpty, isEmpty_iff, not_forall, hasAny,
    List.any_eq_true]
  constructor
  · rintro ⟨x, hx, hsx⟩
    refine ⟨x, ?_⟩
    rw [contains_intersection_pair, hsx, contains_of_mem hx]
    exact Bool.false_ne_true.symm
  · rintro ⟨x, hx⟩
    rw [Bool.not_eq_false, contains_intersection_pair, Bool.and_eq_true] at hx
    obtain ⟨y, hy, hyx⟩ := contains_iff.mp hx.2
    exact ⟨y, hy, (contains_congr hyx).trans hx.1⟩

/-! ## The result -/

/-- To insert or to erase a whole list is to add or to remove its elements one after another. The
set of a list is what comes of adding them to the empty set, however that is put: the elements whose
addition said that their class is new, and so the first of each class. Now let there be two sets. To
merge the second into the first gives the classes of their union; but each element of the first
stays, and of the second come those whose class the first has not. To take the second away from the
first leaves the difference, and so it does after a merge. To insert, to erase or to ask for a list
of the elements of the second, in whatever order, comes to the same as to merge it, to take it away,
to see that it is not empty and a subset, and to see that the intersection is not empty. -/
theorem at_once_as_one_by_one :
    (∀ (s : ClassSet α) (xs : List α),
      s.insertMany xs = (Step.forEach add s xs).state ∧
      s.eraseMany xs = (Step.forEach remove s xs).state) ∧
    (∀ xs : List α,
      ofList xs = empty.insertMany xs ∧
      ofList xs = (Step.forEach add empty xs).state ∧
      (ofList xs).items = empty.welcomed xs ∧
      ∀ y, y ∈ (ofList xs).items ↔
        ∃ before after, xs = before ++ y :: after ∧ ∀ z ∈ before, (z == y) = false) ∧
    ∀ s t : ClassSet α,
      (∀ x, (s.merge t).contains x = (union [s, t]).contains x) ∧
      (s.merge t == union [s, t]) = true ∧
      (∀ y, y ∈ (s.merge t).items ↔ y ∈ s.items ∨ y ∈ t.items ∧ s.contains y = false) ∧
      s.without t = difference s [t] ∧
      (s.merge t).without t = difference s [t] ∧
      ∀ xs : List α, xs.Perm t.items →
        (s.insertMany xs).items.Perm (s.merge t).items ∧
        s.eraseMany xs = difference s [t] ∧
        (s.hasAll xs = true ↔ t.isEmpty = false ∧ t.isSubset s = true) ∧
        (s.hasAny xs = true ↔ (intersection [s, t]).isEmpty = false) := by
  refine ⟨?_, ?_, ?_⟩
  · intro s xs
    exact ⟨(state_forEach_add s xs).symm, (state_forEach_remove s xs).symm⟩
  · intro xs
    exact ⟨rfl, (state_forEach_add empty xs).symm, items_insertMany empty xs,
      fun y => mem_ofList_iff⟩
  · intro s t
    have hsame : ∀ x, (s.merge t).contains x = (union [s, t]).contains x := by
      intro x
      rw [contains_merge, contains_union_pair]
    refine ⟨hsame, beq_of_contains_eq hsame, fun y => mem_merge_iff, rfl, without_merge s t, ?_⟩
    intro xs hxs
    rw [eraseMany_perm s hxs, hasAll_perm s hxs, hasAny_perm s hxs]
    exact ⟨insertMany_perm_merge hxs, eraseMany_items s t, hasAll_items_iff, hasAny_items_iff⟩

/-- Keys 1 and 2, of which key 1 comes twice, and keys 2 to 4 with another mark, listed in another
order. The union copies the larger set and so has another element of key 2 than the merged set. To
ask for nothing fails, though the empty set is a subset. -/
theorem at_once_as_one_by_one_marked :
    let low := ofList [(⟨1, 0⟩ : Marked), ⟨2, 0⟩, ⟨1, 5⟩]
    let high := ofList [(⟨2, 1⟩ : Marked), ⟨3, 1⟩, ⟨4, 1⟩]
    let listed := [(⟨4, 1⟩ : Marked), ⟨2, 1⟩, ⟨3, 1⟩]
    listed.Perm high.items ∧
      (Step.forEach add empty [(⟨1, 0⟩ : Marked), ⟨2, 0⟩, ⟨1, 5⟩]).result = [true, true, false] ∧
      low = (Step.forEach add empty [⟨1, 0⟩, ⟨2, 0⟩, ⟨1, 5⟩]).state ∧
      low.items = [⟨1, 0⟩, ⟨2, 0⟩] ∧
      (low.merge high).items = [⟨1, 0⟩, ⟨2, 0⟩, ⟨3, 1⟩, ⟨4, 1⟩] ∧
      (union [low, high]).items = [⟨2, 1⟩, ⟨3, 1⟩, ⟨4, 1⟩, ⟨1, 0⟩] ∧
      (low.merge high == union [low, high]) = true ∧
      (low.insertMany listed).items = [⟨1, 0⟩, ⟨2, 0⟩, ⟨4, 1⟩, ⟨3, 1⟩] ∧
      (low.insertMany listed).items.Perm (low.merge high).items ∧
      (difference low [high]).items = [⟨1, 0⟩] ∧
      (low.merge high).without high = difference low [high] ∧
      low.eraseMany listed = difference low [high] ∧
      low.hasAll listed = false ∧ low.hasAny listed = true ∧
      low.hasAll [] = false ∧ empty.isSubset low = true := by
  intro low high listed
  obtain ⟨hlists, hof, hsets⟩ := at_once_as_one_by_one (α := Marked)
  obtain ⟨-, hone, -⟩ := hof [⟨1, 0⟩, ⟨2, 0⟩, ⟨1, 5⟩]
  obtain ⟨-, hunion, -, -, hagain, hlisted⟩ := hsets low high
  have hperm : listed.Perm high.items :=
    (List.perm_append_singleton (⟨4, 1⟩ : Marked) [⟨2, 1⟩, ⟨3, 1⟩]).symm
  obtain ⟨hinsert, herase, hall, hany⟩ := hlisted listed hperm
  have hnotAll : low.hasAll listed = false := by
    rw [Bool.eq_false_iff]
    exact mt hall.mp (by decide)
  obtain ⟨-, -, -, -, -, hnothing⟩ := hsets low empty
  obtain ⟨-, -, hnone, -⟩ := hnothing [] .rfl
  have hnotNone : low.hasAll [] = false := by
    rw [Bool.eq_false_iff]
    exact mt hnone.mp (by decide)
  exact ⟨hperm, rfl, hone, rfl, rfl, rfl, hunion, rfl, hinsert, rfl, hagain, herase, hnotAll,
    hany.mpr (by decide), hnotNone, rfl⟩

end Retention.ClassSet
