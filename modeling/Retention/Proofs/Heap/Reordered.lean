/-
# Retention.Proofs.Heap.Reordered -- a heap whose elements change their order

The order of elements may change while they are in the heap, so that the array is in no order at all
and one comparison contradicts another. The operations go on all the same. Here nothing is assumed
of the array or of what comparisons say, and every operation comes with the comparison of its time.
Several elements between which the order changes enter by several operations.

`Rises` and `Sinks` follow an element on its way, one look at the array after the other. They have a
rule only where every position looked at is one of the array, and a derivation is finite; so if an
operation `Runs`, it ends and never looks outside the array. Every operation runs, and it runs to
what it was defined to give and to nothing else.
-/
import Mathlib.Data.List.Perm.Basic
import Retention.Proofs.Heap.Elements

namespace Retention.Heap

universe u

variable {α : Type u} {cmp : α → α → Ordering} {a b c : Array α} {h : Heap α} {i j k n : Nat}

/-! ## Looking at the array -/

/-- The element at `i` rises past every greater one above it, until the array is as it is given
last. -/
inductive Rises (cmp : α → α → Ordering) : Array α → Nat → Array α → Prop
  | top (a : Array α) : Rises cmp a 0 a
  | stays {a : Array α} {i : Nat} (hpos : 0 < i) (hi : i < a.size) (hq : parent i < a.size)
      (hnot : cmp a[i] a[parent i] ≠ .lt) : Rises cmp a i a
  | passes {a b : Array α} {i : Nat} (hpos : 0 < i) (hi : i < a.size) (hq : parent i < a.size)
      (hless : cmp a[i] a[parent i] = .lt)
      (hrest : Rises cmp (a.swap i (parent i) hi hq) (parent i) b) : Rises cmp a i b

/-- The child of `i` that its element is compared with: the right one if there is one and it is less
than the left one. -/
inductive Chooses (cmp : α → α → Ordering) (a : Array α) (i : Nat) : Nat → Prop
  | right (hl : 2 * i + 1 < a.size) (hr : 2 * i + 2 < a.size)
      (hless : cmp a[2 * i + 2] a[2 * i + 1] = .lt) : Chooses cmp a i (2 * i + 2)
  | left (hl : 2 * i + 1 < a.size)
      (hnot : ∀ hr : 2 * i + 2 < a.size, cmp a[2 * i + 2] a[2 * i + 1] ≠ .lt) :
      Chooses cmp a i (2 * i + 1)

/-- The element at `i` sinks past the child chosen for as long as that is less. -/
inductive Sinks (cmp : α → α → Ordering) : Array α → Nat → Array α → Prop
  | bottom {a : Array α} {i : Nat} (hleaf : a.size ≤ 2 * i + 1) : Sinks cmp a i a
  | stays {a : Array α} {i k : Nat} (hk : Chooses cmp a i k) (hi : i < a.size) (hks : k < a.size)
      (hnot : cmp a[k] a[i] ≠ .lt) : Sinks cmp a i a
  | passes {a b : Array α} {i k : Nat} (hk : Chooses cmp a i k) (hi : i < a.size)
      (hks : k < a.size) (hless : cmp a[k] a[i] = .lt)
      (hrest : Sinks cmp (a.swap i k hi hks) k b) : Sinks cmp a i b

/-- The elements at the positions below `n` sink, the last of them first. -/
inductive Settles (cmp : α → α → Ordering) : Nat → Array α → Array α → Prop
  | done (a : Array α) : Settles cmp 0 a a
  | next {n : Nat} {a b c : Array α} (hsink : Sinks cmp a n b) (hrest : Settles cmp n b c) :
      Settles cmp (n + 1) a c

/-- An operation runs to an end, with this answer and this heap. -/
inductive Runs (cmp : α → α → Ordering) : Heap α → Op α → Answer α → Heap α → Prop
  | push {h : Heap α} {x : α} {b : Array α}
      (hrise : Rises cmp (h.items.push x) ((h.items.push x).size - 1) b) :
      Runs cmp h (.push x) .done ⟨b⟩
  | extend_nil (h : Heap α) : Runs cmp h (.extend []) .done h
  | extend_cons {h mid next : Heap α} {x : α} {xs : List α}
      (hfirst : Runs cmp h (.push x) .done mid)
      (hothers : Runs cmp mid (.extend xs) .done next) : Runs cmp h (.extend (x :: xs)) .done next
  | collect {h : Heap α} {xs : List α} {b : Array α}
      (hsettle : Settles cmp (xs.toArray.size / 2) xs.toArray b) :
      Runs cmp h (.collect xs) .done ⟨b⟩
  | pop_nil {h : Heap α} (hnone : h.items.size = 0) : Runs cmp h .pop (.element none) h
  | pop {h : Heap α} {b : Array α} (hfilled : 0 < h.items.size)
      (hlast : h.items.size - 1 < h.items.size)
      (hsink : Sinks cmp (h.items.swap 0 (h.items.size - 1) hfilled hlast).pop 0 b) :
      Runs cmp h .pop (.element (h.items.swap 0 (h.items.size - 1) hfilled hlast).back?) ⟨b⟩
  | clear (h : Heap α) : Runs cmp h .clear .done empty

/-! ## Every operation runs -/

theorem rises_siftUp (cmp : α → α → Ordering) (a : Array α) (i : Nat) (hi : i < a.size) :
    Rises cmp a i (siftUp cmp a i) := by
  fun_induction siftUp cmp a i with
  | case1 a i hpos here above hless ih =>
      refine .passes hpos.1 here above hless (ih ?_)
      rwa [Array.size_swap]
  | case2 a i hpos here above hnot => exact .stays hpos.1 here above hnot
  | case3 a i hnot =>
      -- The position is one of the array, so the way up can only have ended at the top.
      obtain rfl : i = 0 := Nat.eq_zero_of_not_pos fun hpos => hnot ⟨hpos, hi⟩
      exact .top a

theorem chooses_lesserChild (cmp : α → α → Ordering) (a : Array α) (i : Nat)
    (hl : 2 * i + 1 < a.size) : Chooses cmp a i (lesserChild cmp a i hl) := by
  unfold lesserChild
  split
  · next hr =>
    split
    · next hless => exact .right hl hr hless
    · next hnot => exact .left hl fun _ => hnot
  · next hr => exact .left hl fun hright => absurd hright hr

theorem sinks_siftDown (cmp : α → α → Ordering) (a : Array α) (i : Nat) :
    Sinks cmp a i (siftDown cmp a i) := by
  fun_induction siftDown cmp a i with
  | case1 a i hl below here hless ih =>
      exact .passes (chooses_lesserChild cmp a i hl) here below hless ih
  | case2 a i hl below here hnot =>
      exact .stays (chooses_lesserChild cmp a i hl) here below hnot
  | case3 a i hleaf => exact .bottom (Nat.le_of_not_lt hleaf)

theorem settles_settle (cmp : α → α → Ordering) (n : Nat) (a : Array α) :
    Settles cmp n a (settle cmp n a) := by
  induction n generalizing a with
  | zero => exact .done a
  | succ n ih => exact .next (sinks_siftDown cmp a n) (ih _)

theorem runs_push (cmp : α → α → Ordering) (h : Heap α) (x : α) :
    Runs cmp h (.push x) .done (h.push cmp x) := by
  apply Runs.push
  rw [Array.size_push]
  exact rises_siftUp cmp _ _ (by simp)

theorem runs_extend (cmp : α → α → Ordering) (h : Heap α) (xs : List α) :
    Runs cmp h (.extend xs) .done (h.extend cmp xs) := by
  induction xs generalizing h with
  | nil => exact .extend_nil h
  | cons x xs ih => exact .extend_cons (runs_push cmp h x) (ih (h.push cmp x))

theorem runs_pop (cmp : α → α → Ordering) (h : Heap α) :
    Runs cmp h .pop (h.perform cmp .pop).result (h.perform cmp .pop).state := by
  unfold perform pop?
  by_cases hfilled : 0 < h.items.size
  · have hlast : h.items.size - 1 < h.items.size := Nat.sub_lt hfilled Nat.one_pos
    -- After the exchange the element that was on top is the last one, and it is the one taken.
    have hback : (h.items.swap 0 (h.items.size - 1) hfilled hlast).back? = some h.items[0] := by
      rw [Array.back?_eq_getElem?, Array.size_swap, Array.getElem?_swap, if_pos rfl]
    have hpop := Runs.pop hfilled hlast (sinks_siftDown cmp _ 0)
    rw [hback] at hpop
    simp only [dif_pos hfilled]
    exact hpop
  · simp only [dif_neg hfilled]
    exact .pop_nil (Nat.eq_zero_of_not_pos hfilled)

/-- Every operation on every heap runs to its end, whatever the comparison says. -/
theorem runs_perform (cmp : α → α → Ordering) (h : Heap α) (op : Op α) :
    Runs cmp h op (h.perform cmp op).result (h.perform cmp op).state := by
  cases op with
  | push x => exact runs_push cmp h x
  | extend xs => exact runs_extend cmp h xs
  | collect xs => exact .collect (settles_settle cmp _ _)
  | pop => exact runs_pop cmp h
  | clear => exact .clear h

/-! ## It runs to one end only -/

theorem Rises.unique (hb : Rises cmp a i b) (hc : Rises cmp a i c) : b = c := by
  induction hb with
  | top a =>
      cases hc with
      | top => rfl
      | stays hpos => exact absurd hpos (Nat.lt_irrefl 0)
      | passes hpos => exact absurd hpos (Nat.lt_irrefl 0)
  | stays hpos _ _ hnot =>
      cases hc with
      | top => rfl
      | stays => rfl
      | passes _ _ _ hless => exact absurd hless hnot
  | passes hpos _ _ hless _ ih =>
      cases hc with
      | top => exact absurd hpos (Nat.lt_irrefl 0)
      | stays _ _ _ hnot => exact absurd hless hnot
      | passes _ _ _ _ hrest => exact ih hrest

theorem Chooses.unique (hj : Chooses cmp a i j) (hk : Chooses cmp a i k) : j = k := by
  cases hj with
  | right _ hr hless =>
      cases hk with
      | right => rfl
      | left _ hnot => exact absurd hless (hnot hr)
  | left _ hnot =>
      cases hk with
      | right _ hr hless => exact absurd hless (hnot hr)
      | left => rfl

theorem Chooses.left_lt (hk : Chooses cmp a i k) : 2 * i + 1 < a.size := by
  cases hk with
  | right hl => exact hl
  | left hl => exact hl

theorem Sinks.unique (hb : Sinks cmp a i b) (hc : Sinks cmp a i c) : b = c := by
  induction hb with
  | bottom hleaf =>
      cases hc with
      | bottom => rfl
      | stays => rfl
      | passes hk => exact absurd hk.left_lt (Nat.not_lt.mpr hleaf)
  | stays hj _ _ hnot =>
      cases hc with
      | bottom => rfl
      | stays => rfl
      | passes hk _ _ hless =>
          obtain rfl := hj.unique hk
          exact absurd hless hnot
  | passes hj _ _ hless _ ih =>
      cases hc with
      | bottom hleaf => exact absurd hj.left_lt (Nat.not_lt.mpr hleaf)
      | stays hk _ _ hnot =>
          obtain rfl := hj.unique hk
          exact absurd hless hnot
      | passes hk _ _ _ hrest =>
          obtain rfl := hj.unique hk
          exact ih hrest

theorem Settles.unique (hb : Settles cmp n a b) (hc : Settles cmp n a c) : b = c := by
  induction hb with
  | done a =>
      cases hc with
      | done => rfl
  | next hsink _ ih =>
      cases hc with
      | next hsink' hrest =>
          obtain rfl := hsink.unique hsink'
          exact ih hrest

theorem sinks_iff : Sinks cmp a i b ↔ b = siftDown cmp a i := by
  constructor
  · intro hsink
    exact hsink.unique (sinks_siftDown cmp a i)
  · rintro rfl
    exact sinks_siftDown cmp a i

theorem settles_iff : Settles cmp n a b ↔ b = settle cmp n a := by
  constructor
  · intro hsettle
    exact hsettle.unique (settles_settle cmp n a)
  · rintro rfl
    exact settles_settle cmp n a

theorem Runs.unique {op : Op α} {answer answer' : Answer α} {next next' : Heap α}
    (h₁ : Runs cmp h op answer next) (h₂ : Runs cmp h op answer' next') :
    answer = answer' ∧ next = next' := by
  induction h₁ generalizing answer' next' with
  | push hrise =>
      cases h₂ with
      | push hrise' => exact ⟨rfl, congrArg Heap.mk (hrise.unique hrise')⟩
  | extend_nil =>
      cases h₂ with
      | extend_nil => exact ⟨rfl, rfl⟩
  | extend_cons _ _ ihFirst ihOthers =>
      cases h₂ with
      | extend_cons hfirst hothers =>
          obtain ⟨-, rfl⟩ := ihFirst hfirst
          exact ihOthers hothers
  | collect hsettle =>
      cases h₂ with
      | collect hsettle' => exact ⟨rfl, congrArg Heap.mk (hsettle.unique hsettle')⟩
  | pop_nil hnone =>
      cases h₂ with
      | pop_nil => exact ⟨rfl, rfl⟩
      | pop hfilled => exact absurd hfilled (Nat.not_lt.mpr (Nat.le_of_eq hnone))
  | pop hfilled _ hsink =>
      cases h₂ with
      | pop_nil hnone => exact absurd hfilled (Nat.not_lt.mpr (Nat.le_of_eq hnone))
      | pop _ _ hsink' => exact ⟨rfl, congrArg Heap.mk (hsink.unique hsink')⟩
  | clear =>
      cases h₂ with
      | clear => exact ⟨rfl, rfl⟩

/-- An operation runs to what it was defined to give, and to nothing else. -/
theorem runs_iff {op : Op α} {answer : Answer α} {next : Heap α} :
    Runs cmp h op answer next ↔
      (h.perform cmp op).result = answer ∧ (h.perform cmp op).state = next := by
  constructor
  · intro hruns
    exact (runs_perform cmp h op).unique hruns
  · rintro ⟨rfl, rfl⟩
    exact runs_perform cmp h op

/-! ## Elements put in and taken out -/

/-- One operation on a heap, with the comparison of its time. -/
def performAt (h : Heap α) (r : (α → α → Ordering) × Op α) : Step (Heap α) (Answer α) :=
  h.perform r.1 r.2

/-- The elements that an operation puts in. -/
def Op.entering : Op α → List α
  | .push x => [x]
  | .extend xs | .collect xs => xs
  | .pop | .clear => []

/-- The elements that an answer hands out, at most one. -/
def Answer.leaving : Answer α → List α
  | .done => []
  | .element x => x.toList

/-- The elements that are dropped together, when another heap comes in the place of this one. -/
def dropped (h : Heap α) (r : (α → α → Ordering) × Op α) : List α :=
  match r.2 with
  | .collect _ | .clear => h.toList
  | .push _ | .extend _ | .pop => []

/-- What is there and what an operation puts in is what it hands out and drops and what is there
then. -/
theorem perform_conserves (h : Heap α) (r : (α → α → Ordering) × Op α) :
    (h.toList ++ r.2.entering).Perm
      ((h.performAt r).result.leaving ++ h.dropped r ++ (h.performAt r).state.toList) := by
  obtain ⟨cmp, op⟩ := r
  cases op with
  | push x => exact (List.perm_append_singleton x h.toList).trans (toList_push_perm cmp h x).symm
  | extend xs => exact List.perm_append_comm.trans (toList_extend_perm cmp h xs).symm
  | collect xs => exact (toList_ofList_perm cmp xs).symm.append_left h.toList
  | pop =>
      show (h.toList ++ []).Perm
        ((h.perform cmp .pop).result.leaving ++ [] ++ (h.perform cmp .pop).state.toList)
      rw [List.append_nil, List.append_nil]
      cases hpop : h.pop? cmp with
      | none =>
          rw [perform, hpop]
          exact .rfl
      | some popped =>
          rw [perform, hpop]
          exact (pop?_eq_some hpop).2.symm
  | clear => exact .rfl

/-- Popping answers with the element on top. -/
theorem result_perform_pop (cmp : α → α → Ordering) (h : Heap α) :
    (h.perform cmp .pop).result = .element h.peek? := by
  rw [← map_fst_pop? cmp h, perform]
  cases h.pop? cmp with
  | none => rfl
  | some popped => rfl

/-- Over a run the elements at its beginning and all that were put in are those handed out, those
dropped and those at its end, each exactly once. -/
theorem run_conserves (h : Heap α) (rs : List ((α → α → Ordering) × Op α)) :
    let ran := Step.forEach performAt h rs
    let noted := Step.forEach (Step.noting dropped performAt) h rs
    (h.toList ++ rs.flatMap (·.2.entering)).Perm
      (ran.result.flatMap Answer.leaving ++ noted.result.flatMap Prod.snd ++ ran.state.toList) := by
  have hrun := Step.noting_balances dropped performAt toList (fun t => t.1.2.entering)
    Answer.leaving perform_conserves h rs
  rwa [Step.flatMap_fst_transcript performAt h rs fun r => r.2.entering] at hrun

end Retention.Heap
