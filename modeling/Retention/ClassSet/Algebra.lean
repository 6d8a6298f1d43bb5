/-
# Retention.ClassSet.Algebra -- sets made from several sets

Union and intersection start from one of the given sets, whose representatives they keep: the union
from a largest one, so that few elements have to be added, and the intersection from a smallest one,
so that few have to be tested. Of several largest sets the last is taken, of several smallest the
first. Up to equality of elements the choice does not show in the result.
-/
import Retention.ClassSet.Basic

namespace Retention.ClassSet

universe u

variable {α : Type u} [BEq α]

/-- A preferred set and the others in their order. Going through the list from its end, a set takes
the place of the one preferred so far when `better` says that it is better than that. -/
def pick? (better : ClassSet α → ClassSet α → Bool) :
    List (ClassSet α) → Option (ClassSet α × List (ClassSet α))
  | [] => none
  | s :: rest =>
    match pick? better rest with
    | none => some (s, [])
    | some (chosen, others) =>
      if better s chosen then some (s, rest) else some (chosen, s :: others)

/-- The last of the largest sets, and the others. -/
def largest? (sets : List (ClassSet α)) : Option (ClassSet α × List (ClassSet α)) :=
  pick? (fun earlier later => later.size < earlier.size) sets

/-- The first of the smallest sets, and the others. -/
def smallest? (sets : List (ClassSet α)) : Option (ClassSet α × List (ClassSet α)) :=
  pick? (fun earlier later => earlier.size ≤ later.size) sets

/-- The classes that some set has. -/
def union (sets : List (ClassSet α)) : ClassSet α :=
  match largest? sets with
  | none => empty
  | some (base, others) => others.foldl merge base

/-- The classes that every set has; none if there is no set. -/
def intersection (sets : List (ClassSet α)) : ClassSet α :=
  match smallest? sets with
  | none => empty
  | some (base, others) => others.foldl (fun s t => s.filter t.contains) base

/-- The elements of a set whose class none of the others has. -/
def difference (s : ClassSet α) (others : List (ClassSet α)) : ClassSet α :=
  others.foldl without s

/-- The elements whose class exactly one of two sets has. -/
def symmetricDifference (s t : ClassSet α) : ClassSet α :=
  union [difference s [t], difference t [s]]

/-! ## Small laws -/

theorem pick?_eq_none_iff {better : ClassSet α → ClassSet α → Bool} {sets : List (ClassSet α)} :
    pick? better sets = none ↔ sets = [] := by
  cases sets with
  | nil => simp [pick?]
  | cons s rest =>
    simp only [pick?, reduceCtorEq, iff_false]
    split
    · exact Option.some_ne_none _
    · split <;> exact Option.some_ne_none _

/-- The set that is picked is taken from its place, and the others keep theirs. If `better` orders
the sets, none of those before it is better, and it is better than all those after it. -/
theorem pick?_eq_some {better : ClassSet α → ClassSet α → Bool}
    (htrans : ∀ r s t, better r s → better s t → better r t)
    (hbetween : ∀ r s t, better r t → better s t = false → better r s)
    {sets : List (ClassSet α)} {chosen : ClassSet α} {others : List (ClassSet α)}
    (hpick : pick? better sets = some (chosen, others)) :
    ∃ before after, sets = before ++ chosen :: after ∧ others = before ++ after ∧
      (∀ s ∈ before, better s chosen = false) ∧ ∀ s ∈ after, better chosen s := by
  induction sets generalizing chosen others with
  | nil => cases hpick
  | cons s rest ih =>
    unfold pick? at hpick
    split at hpick
    · next hnone =>
      obtain rfl := pick?_eq_none_iff.mp hnone
      cases hpick
      exact ⟨[], [], rfl, rfl, fun _ h => (List.not_mem_nil h).elim,
        fun _ h => (List.not_mem_nil h).elim⟩
    · next best remaining hrest =>
      obtain ⟨before, after, rfl, rfl, hbefore, hafter⟩ := ih hrest
      split at hpick
      · next hbetter =>
        cases hpick
        refine ⟨[], _, rfl, rfl, fun _ h => (List.not_mem_nil h).elim, ?_⟩
        rw [List.forall_mem_append, List.forall_mem_cons]
        refine ⟨fun t ht => ?_, hbetter, fun t ht => ?_⟩
        · exact hbetween s t best hbetter (hbefore t ht)
        · exact htrans s best t hbetter (hafter t ht)
      · next hworse =>
        cases hpick
        refine ⟨s :: before, after, rfl, rfl, ?_, hafter⟩
        rw [List.forall_mem_cons]
        exact ⟨Bool.eq_false_iff.mpr hworse, hbefore⟩

end Retention.ClassSet
