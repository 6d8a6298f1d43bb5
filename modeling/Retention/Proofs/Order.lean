/-
# Retention.Proofs.Order -- elements in ascending order

A comparison that is total and transitive orders the elements, but it may compare two different ones
as equal. So the elements of two lists may lie in ascending order, be the same elements, and yet not
be the same list. `Alike` is what remains: position by position the elements compare as equal. To
show it, it is enough to know how many elements of each list are not greater than a given one.
For the same reason there may be several greatest elements; `Peak` holds of all that compare as
equal to one of them.
-/
import Retention.Order
import Mathlib.Data.List.Forall2

namespace Retention.Order

open scoped List

universe u

variable {α : Type u} {cmp : α → α → Ordering} {x y z : α} {xs ys zs : List α}

/-! ## Two elements -/

/-- The second element is not less than the first. -/
def AtMost (cmp : α → α → Ordering) (x y : α) : Prop := cmp y x ≠ .lt

instance (cmp : α → α → Ordering) : DecidableRel (AtMost cmp) :=
  fun x y => inferInstanceAs (Decidable (cmp y x ≠ .lt))

section
variable [Std.TransCmp cmp]

theorem atMost_iff_isLE : AtMost cmp x y ↔ (cmp x y).isLE = true := by
  rw [AtMost, Ne, ← Std.OrientedCmp.gt_iff_lt]
  cases cmp x y <;> decide

theorem AtMost.refl (x : α) : AtMost cmp x x := atMost_iff_isLE.mpr Std.ReflCmp.isLE_rfl

theorem AtMost.trans (hxy : AtMost cmp x y) (hyz : AtMost cmp y z) : AtMost cmp x z :=
  atMost_iff_isLE.mpr (Std.TransCmp.isLE_trans (atMost_iff_isLE.mp hxy) (atMost_iff_isLE.mp hyz))

theorem AtMost.of_lt (h : cmp x y = .lt) : AtMost cmp x y :=
  atMost_iff_isLE.mpr (h ▸ rfl)

theorem AtMost.total (x y : α) : AtMost cmp x y ∨ AtMost cmp y x := by
  by_cases h : cmp y x = .lt
  · exact .inr (.of_lt h)
  · exact .inl h

theorem AtMost.antisymm (hxy : AtMost cmp x y) (hyx : AtMost cmp y x) : cmp x y = .eq :=
  Std.OrientedCmp.isLE_antisymm (atMost_iff_isLE.mp hxy) (atMost_iff_isLE.mp hyx)

theorem AtMost.of_eq (h : cmp x y = .eq) : AtMost cmp x y :=
  atMost_iff_isLE.mpr (h ▸ rfl)

/-- Elements that compare as equal are equally good as upper bounds. -/
theorem atMost_congr (h : cmp x y = .eq) : AtMost cmp x z ↔ AtMost cmp y z :=
  ⟨(AtMost.of_eq (Std.OrientedCmp.eq_symm h)).trans, (AtMost.of_eq h).trans⟩

end

/-! ## Sorted lists -/

/-- Position by position the elements compare as equal. -/
def Alike (cmp : α → α → Ordering) : List α → List α → Prop :=
  List.Forall₂ fun x y => cmp x y = .eq

/-- No element is less than one before it. -/
def Ascending (cmp : α → α → Ordering) (xs : List α) : Prop := xs.Pairwise (AtMost cmp)

section
variable [Std.TransCmp cmp]

theorem ascending_sorted (cmp : α → α → Ordering) [Std.TransCmp cmp] (xs : List α) :
    Ascending cmp (sorted cmp xs) := by
  have hsorted : (sorted cmp xs).Pairwise fun x y => (cmp x y).isLE = true := by
    apply List.pairwise_mergeSort
    · intro x y z hxy hyz
      exact Std.TransCmp.isLE_trans hxy hyz
    · intro x y
      rw [Bool.or_eq_true, ← atMost_iff_isLE, ← atMost_iff_isLE]
      exact AtMost.total x y
  exact hsorted.imp atMost_iff_isLE.mpr

/-- The first of several elements in ascending order is the least. -/
theorem Ascending.head_atMost (h : Ascending cmp (x :: xs)) (hy : y ∈ x :: xs) :
    AtMost cmp x y := by
  rcases List.mem_cons.mp hy with rfl | hy
  · exact .refl y
  · exact (List.pairwise_cons.mp h).1 y hy

/-- The head of a list bounds itself. If it bounds as many elements of an ascending list as of its
own, it bounds one of them, and then the first. -/
theorem Ascending.head_atMost_of_countP (h : Ascending cmp (x :: xs))
    (hcount : (x :: xs).countP (AtMost cmp · y) = (y :: ys).countP (AtMost cmp · y)) :
    AtMost cmp x y := by
  have hpos : 0 < (x :: xs).countP (AtMost cmp · y) := by
    rw [hcount]
    exact List.countP_pos_iff.mpr ⟨y, List.mem_cons_self, decide_eq_true (.refl y)⟩
  obtain ⟨w, hw, hwy⟩ := List.countP_pos_iff.mp hpos
  exact (h.head_atMost hw).trans (of_decide_eq_true hwy)

/-- Two ascending lists are alike if every element bounds as many of the one as of the other. -/
theorem Ascending.alike_of_countP (hx : Ascending cmp xs) (hy : Ascending cmp ys)
    (hlength : xs.length = ys.length)
    (hcount : ∀ z, xs.countP (AtMost cmp · z) = ys.countP (AtMost cmp · z)) : Alike cmp xs ys := by
  induction xs generalizing ys with
  | nil =>
      rw [List.length_eq_zero_iff.mp hlength.symm]
      exact .nil
  | cons x xs ih =>
      obtain ⟨y, ys, rfl⟩ := List.exists_cons_of_length_eq_add_one hlength.symm
      -- Each of the two first elements bounds itself, hence an element of the other list.
      have hxy : cmp x y = .eq :=
        (hx.head_atMost_of_countP (hcount y)).antisymm (hy.head_atMost_of_countP (hcount x).symm)
      refine .cons hxy (ih hx.of_cons hy.of_cons (Nat.succ.inj hlength) fun z => ?_)
      have hz := hcount z
      rw [List.countP_cons, List.countP_cons] at hz
      simp only [atMost_congr hxy] at hz
      omega

/-- The same elements in ascending order are alike. -/
theorem Ascending.alike (hx : Ascending cmp xs) (hy : Ascending cmp ys) (hperm : xs.Perm ys) :
    Alike cmp xs ys :=
  hx.alike_of_countP hy hperm.length_eq fun _ => hperm.countP_eq _

/-- The elements that no other is greater than lie at the end when all are sorted. -/
theorem sorted_alike_drop (hperm : (xs ++ ys).Perm zs) (hle : ∀ y ∈ ys, ∀ x ∈ xs, AtMost cmp y x) :
    Alike cmp (sorted cmp xs) ((sorted cmp zs).drop ys.length) := by
  have hsplit : Ascending cmp (sorted cmp ys ++ sorted cmp xs) := by
    refine List.pairwise_append.mpr ⟨ascending_sorted cmp ys, ascending_sorted cmp xs, ?_⟩
    intro y hy x hx
    exact hle y ((sorted_perm cmp ys).mem_iff.mp hy) x ((sorted_perm cmp xs).mem_iff.mp hx)
  have hsame : (sorted cmp ys ++ sorted cmp xs).Perm (sorted cmp zs) :=
    calc sorted cmp ys ++ sorted cmp xs
      _ ~ ys ++ xs := (sorted_perm cmp ys).append (sorted_perm cmp xs)
      _ ~ xs ++ ys := List.perm_append_comm
      _ ~ zs := hperm
      _ ~ sorted cmp zs := (sorted_perm cmp zs).symm
  have halike := hsplit.alike (ascending_sorted cmp zs) hsame
  have hdrop := List.forall₂_drop ys.length halike
  have hlength : ys.length = (sorted cmp ys).length := (sorted_perm cmp ys).length_eq.symm
  rwa [hlength, List.drop_left, ← hlength] at hdrop

/-! ## The greatest of some elements -/

/-- None of the elements is greater, and one of them compares as equal. -/
structure Peak (cmp : α → α → Ordering) (xs : List α) (m : α) : Prop where
  bound : ∀ y ∈ xs, AtMost cmp y m
  attained : ∃ z ∈ xs, cmp m z = .eq

omit [Std.TransCmp cmp] in
theorem Peak.perm (h : Peak cmp xs x) (hperm : xs.Perm ys) : Peak cmp ys x := by
  obtain ⟨hbound, z, hz, heq⟩ := h
  constructor
  · intro y hy
    exact hbound y (hperm.mem_iff.mpr hy)
  · exact ⟨z, hperm.mem_iff.mp hz, heq⟩

/-- Two elements that none is greater than compare as equal. -/
theorem Peak.eq (hx : Peak cmp xs x) (hy : Peak cmp xs y) : cmp x y = .eq := by
  obtain ⟨z, hz, hxz⟩ := hx.attained
  obtain ⟨w, hw, hyw⟩ := hy.attained
  apply AtMost.antisymm
  · exact (AtMost.of_eq hxz).trans (hy.bound z hz)
  · exact (AtMost.of_eq hyw).trans (hx.bound w hw)

/-- A newcomer that is not less than any element is the greatest. -/
theorem peak_cons_self (h : ∀ y ∈ xs, AtMost cmp y x) : Peak cmp (x :: xs) x := by
  constructor
  · intro y hy
    rcases List.mem_cons.mp hy with rfl | hy
    · exact .refl y
    · exact h y hy
  · exact ⟨x, List.mem_cons_self, Std.ReflCmp.compare_self⟩

omit [Std.TransCmp cmp] in
/-- A newcomer that is not greater changes nothing. -/
theorem Peak.cons (h : Peak cmp xs x) (hy : AtMost cmp y x) : Peak cmp (y :: xs) x := by
  obtain ⟨hbound, z, hz, heq⟩ := h
  refine ⟨?_, z, List.mem_cons_of_mem y hz, heq⟩
  intro w hw
  rcases List.mem_cons.mp hw with rfl | hw
  · exact hy
  · exact hbound w hw

/-- When a least element leaves and others stay, the greatest remains the greatest: if it was the
one that left, all of them compare as equal. -/
theorem Peak.of_cons_least (h : Peak cmp (y :: xs) x) (hleast : ∀ z ∈ xs, AtMost cmp y z)
    (hsome : xs ≠ []) : Peak cmp xs x := by
  obtain ⟨hbound, z, hz, heq⟩ := h
  refine ⟨fun w hw => hbound w (List.mem_cons_of_mem y hw), ?_⟩
  rcases List.mem_cons.mp hz with rfl | hz
  · obtain ⟨w, hw⟩ := List.exists_mem_of_ne_nil xs hsome
    refine ⟨w, hw, AtMost.antisymm ?_ (hbound w (List.mem_cons_of_mem z hw))⟩
    exact (AtMost.of_eq heq).trans (hleast w hw)
  · exact ⟨z, hz, heq⟩

/-- The search keeps the greatest of the elements seen so far. -/
theorem peak_foldl (xs : List α) (h : Peak cmp ys x) :
    Peak cmp (xs ++ ys) (xs.foldl (fun best y => if (cmp best y).isGT then best else y) x) := by
  induction xs generalizing x ys with
  | nil => exact h
  | cons y xs ih =>
      have hnext : Peak cmp (y :: ys) (if (cmp x y).isGT then x else y) := by
        split
        · next hgt =>
          rw [Ordering.isGT_iff_eq_gt, Std.OrientedCmp.gt_iff_lt] at hgt
          exact h.cons (.of_lt hgt)
        · next hle =>
          rw [Ordering.isGT_iff_eq_gt, Std.OrientedCmp.gt_iff_lt] at hle
          exact peak_cons_self fun z hz => (h.bound z hz).trans hle
      exact (ih hnext).perm List.perm_middle

theorem peak_of_greatest? (h : greatest? cmp xs = some x) : Peak cmp xs x := by
  cases xs with
  | nil => exact absurd h (by simp [greatest?])
  | cons y xs =>
      obtain rfl := Option.some.inj h
      have hself : Peak cmp [y] y := peak_cons_self fun z hz => absurd hz List.not_mem_nil
      exact (peak_foldl xs hself).perm (List.perm_append_singleton y xs)

end

end Retention.Order
