/-
# Retention.Proofs.Drained -- to empty a heap is to sort it

Each element that a heap gives up is a least one of those still there, so what it gives up until
there is nothing left comes in ascending order. That determines the order only up to elements that
compare as equal. Heaps loaded with the same elements in different ways have different arrays, every
pop rearranges what is left, and a sort that keeps equal elements in their order need not agree with
any of this. So two orders of the same elements are compared position by position, and they agree up
to elements that compare as equal, because both ascend.

How often an element is taken out is not fixed beforehand: `Emptied` follows the operation until it
fails.
-/
import Retention.Proofs.Selection.Greatest

namespace Retention

open scoped List

universe u v

/-! ## Taking out until there is nothing left -/

section
variable {α : Type u} {σ : Type v} {next? : σ → Option (α × σ)} {s t : σ} {xs : List α}

/-- Taking elements out until that fails gives these, and leaves this state. -/
inductive Emptied (next? : σ → Option (α × σ)) : σ → List α → σ → Prop
  | done {s : σ} (hnone : next? s = none) : Emptied next? s [] s
  | next {s t u : σ} {x : α} {xs : List α} (htaken : next? s = some (x, t))
      (hrest : Emptied next? t xs u) : Emptied next? s (x :: xs) u

/-- If every success lowers some measure, taking out comes to an end. -/
theorem exists_emptied (measure : σ → Nat)
    (hlower : ∀ s x t, next? s = some (x, t) → measure t < measure s) (s : σ) :
    ∃ xs t, Emptied next? s xs t := by
  induction hsize : measure s using Nat.strongRecOn generalizing s with
  | _ n ih =>
      cases htaken : next? s with
      | none => exact ⟨[], s, .done htaken⟩
      | some taken =>
          obtain ⟨x, t⟩ := taken
          obtain ⟨xs, u, hrest⟩ := ih (measure t) (hsize ▸ hlower s x t htaken) t rfl
          exact ⟨x :: xs, u, .next htaken hrest⟩

/-- Repeating the operation often enough does the same. -/
theorem Emptied.takeOut_eq (h : Emptied next? s xs t) {n : Nat} (hn : xs.length ≤ n) :
    takeOut next? n s = (xs, t) := by
  induction h generalizing n with
  | done hnone => exact takeOut_of_none n hnone
  | @next s t u x xs htaken _ ih =>
      rw [List.length_cons] at hn
      obtain ⟨m, rfl⟩ : ∃ m, n = m + 1 := ⟨n - 1, by omega⟩
      rw [takeOut_of_some m htaken, ih (by omega)]

end

/-! ## Heaps -/

namespace Heap

variable {α : Type u} {cmp : α → α → Ordering} {h rest : Heap α} {xs ys : List α}

/-- A heap loaded with the elements of a list: all are put in order at once, or each is pushed into
an empty heap, or some are put in order and the others follow. -/
inductive Loaded (cmp : α → α → Ordering) : List α → Heap α → Prop
  | collected (xs : List α) : Loaded cmp xs (ofList cmp xs)
  | pushed (xs : List α) : Loaded cmp xs (xs.foldl (push cmp) empty)
  | extended (xs ys : List α) : Loaded cmp (xs ++ ys) ((ofList cmp xs).extend cmp ys)

theorem Loaded.perm (hload : Loaded cmp xs h) : h.toList.Perm xs := by
  cases hload with
  | collected => exact toList_ofList_perm cmp xs
  | pushed =>
      have hall := toList_extend_perm cmp empty xs
      rwa [show (empty : Heap α).toList = [] from rfl, List.append_nil] at hall
  | extended xs ys =>
      calc ((ofList cmp xs).extend cmp ys).toList
        _ ~ ys ++ (ofList cmp xs).toList := toList_extend_perm cmp _ ys
        _ ~ ys ++ xs := (toList_ofList_perm cmp xs).append_left ys
        _ ~ xs ++ ys := List.perm_append_comm

theorem Loaded.ordered [Std.TransCmp cmp] (hload : Loaded cmp xs h) : Ordered cmp h := by
  cases hload with
  | collected => exact ordered_ofList xs
  | pushed => exact ordered_empty.extend xs
  | extended xs ys => exact (ordered_ofList xs).extend ys

theorem toList_eq_nil_iff : h.toList = [] ↔ h = empty := by
  obtain ⟨items⟩ := h
  simp [toList, empty]

theorem exists_emptied (cmp : α → α → Ordering) (h : Heap α) :
    ∃ xs rest, Emptied (Heap.pop? cmp) h xs rest := by
  apply Retention.exists_emptied size
  intro h x rest hpop
  have hsize := size_of_pop? hpop
  omega

/-- Whatever the comparison says, all elements are given up, each as often as it was there. -/
theorem perm_of_emptied (he : Emptied (Heap.pop? cmp) h xs rest) :
    xs.Perm h.toList ∧ rest = empty := by
  induction he with
  | @done h hnone =>
      have hbare : h.toList = [] := List.length_eq_zero_iff.mp (pop?_eq_none_iff.mp hnone)
      rw [hbare]
      exact ⟨.rfl, toList_eq_nil_iff.mp hbare⟩
  | next hpop _ ih =>
      obtain ⟨hperm, hrest⟩ := ih
      exact ⟨(hperm.cons _).trans (pop?_eq_some hpop).2, hrest⟩

/-- In a heap in order each is a least one of those that are still to come. -/
theorem Ordered.ascending_of_emptied [Std.TransCmp cmp] (hord : Ordered cmp h)
    (he : Emptied (Heap.pop? cmp) h xs rest) : Order.Ascending cmp xs := by
  induction he with
  | done hnone => exact .nil
  | @next h others rest x xs hpop hrest ih =>
      obtain ⟨hpeek, hperm⟩ := pop?_eq_some hpop
      refine List.pairwise_cons.mpr ⟨?_, ih (hord.pop? hpop)⟩
      intro y hy
      have hy' : y ∈ others.toList := (perm_of_emptied hrest).1.mem_iff.mp hy
      exact hord.peek?_atMost hpeek (hperm.mem_iff.mp (List.mem_cons_of_mem x hy'))

theorem Ordered.alike_sorted [Std.TransCmp cmp] (hord : Ordered cmp h)
    (he : Emptied (Heap.pop? cmp) h xs rest) : Order.Alike cmp xs (h.sorted cmp) := by
  apply (hord.ascending_of_emptied he).alike (Order.ascending_sorted cmp h.toList)
  exact (perm_of_emptied he).1.trans (Order.sorted_perm cmp h.toList).symm

theorem drain_of_emptied (he : Emptied (Heap.pop? cmp) h xs rest) : h.drain cmp = (xs, rest) :=
  he.takeOut_eq (Nat.le_of_eq (perm_of_emptied he).1.length_eq)

end Heap

/-! ## Selections -/

namespace Selection

variable {α : Type u} {cmp : α → α → Ordering} {s : Selection α} {h rest : Heap α} {xs : List α}

/-- A selection gives up what its heap gives up, and forgets the greatest element at the end. -/
theorem emptied_of_heap (he : Emptied (Heap.pop? cmp) h xs rest) (hs : s.heap = h)
    (hforgets : s.toList = [] → s.maximum = none) :
    Emptied (pop? cmp) s xs { s with heap := rest, maximum := none } := by
  induction he generalizing s with
  | done hnone =>
      subst hs
      have hbare : s.toList = [] := List.length_eq_zero_iff.mp (Heap.pop?_eq_none_iff.mp hnone)
      have hpop : s.pop? cmp = none := by rw [pop?, hnone, Option.map_none]
      have hstays : { s with maximum := none } = s := by rw [← hforgets hbare]
      have hdone := Emptied.done hpop
      rwa [← hstays] at hdone ⊢
  | @next h others rest x xs htaken _ ih =>
      subst hs
      have hpop : s.pop? cmp = some (x, { s with
          heap := others
          maximum := if others.isEmpty then none else s.maximum }) := by
        rw [pop?, htaken, Option.map_some]
      apply Emptied.next hpop
      apply ih rfl
      intro hbare
      exact if_pos (Heap.isEmpty_iff_toList_eq_nil.mpr hbare)

/-- Its elements come in ascending order, and it is then as if it had never kept any. -/
theorem Informed.exists_emptied [Std.TransCmp cmp] {n : Nat} (h : Informed cmp n s) :
    ∃ xs t, Emptied (Selection.pop? cmp) s xs t ∧ s.drain cmp = (xs, t) ∧ xs.Perm s.toList ∧
      Order.Alike cmp xs (s.sorted cmp) ∧ t.toList = [] ∧ t.maximum = none := by
  obtain ⟨xs, rest, he⟩ := Heap.exists_emptied cmp s.heap
  obtain ⟨hperm, rfl⟩ := Heap.perm_of_emptied he
  have hall := emptied_of_heap he rfl h.forgets
  refine ⟨xs, _, hall, ?_, hperm, h.sound.ordered.alike_sorted he, rfl, rfl⟩
  exact hall.takeOut_eq (Nat.le_of_eq hperm.length_eq)

/-- What a selection that could be created is like after any run of operations. -/
theorem informed_run [Std.TransCmp cmp] {n : Nat} {fresh : Selection α}
    (hfresh : create n = .ok fresh) (ops : List (Op α)) :
    Informed cmp n (Step.forEach (perform cmp) fresh ops).state := by
  have hn : 0 < n := by
    apply Nat.pos_of_ne_zero
    rintro rfl
    cases hfresh
  rw [create, if_neg (Nat.ne_of_gt hn)] at hfresh
  obtain rfl := Except.ok.inj hfresh
  exact Step.forEach_induction (fun _ op h => h.perform hn op) (informed_create cmp n) ops

end Selection

/-! ## The result -/

variable {α : Type u}

/-- Load a heap with the elements of a list, in one of the ways to do so. Popping comes to an end,
and what is popped are these elements in ascending order; so it is alike to what a sort of the heap
gives, and to what popping gives in any other heap loaded with them. Likewise what is popped from a
selection, after any run of operations on it, is alike to what a sort gave before, and in the end
nothing is kept and nothing remembered. -/
theorem emptied_alike_sorted (cmp : α → α → Ordering) [Std.TransCmp cmp] :
    (∀ (xs : List α) (h : Heap α), Heap.Loaded cmp xs h →
        ∃ ys, Emptied (Heap.pop? cmp) h ys Heap.empty ∧ h.drain cmp = (ys, Heap.empty) ∧
          ys.Perm xs ∧ Order.Ascending cmp ys ∧ Order.Alike cmp ys (h.sorted cmp) ∧
          ∀ h' zs rest, Heap.Loaded cmp xs h' → Emptied (Heap.pop? cmp) h' zs rest →
            Order.Alike cmp ys zs) ∧
      ∀ (n : Nat) (fresh : Selection α), Selection.create n = .ok fresh →
        ∀ ops : List (Selection.Op α),
          let s := (Step.forEach (Selection.perform cmp) fresh ops).state
          ∃ ys t, Emptied (Selection.pop? cmp) s ys t ∧ s.drain cmp = (ys, t) ∧
            ys.Perm s.toList ∧ Order.Alike cmp ys (s.sorted cmp) ∧
            t.toList = [] ∧ t.maximum = none := by
  constructor
  · intro xs h hload
    obtain ⟨ys, rest, he⟩ := Heap.exists_emptied cmp h
    obtain ⟨hperm, rfl⟩ := Heap.perm_of_emptied he
    have hys : ys.Perm xs := hperm.trans hload.perm
    have hascends := hload.ordered.ascending_of_emptied he
    refine ⟨ys, he, Heap.drain_of_emptied he, hys, hascends, hload.ordered.alike_sorted he, ?_⟩
    intro h' zs rest hload' he'
    have hzs : zs.Perm xs := (Heap.perm_of_emptied he').1.trans hload'.perm
    exact hascends.alike (hload'.ordered.ascending_of_emptied he') (hys.trans hzs.symm)
  · intro n fresh hfresh ops s
    exact (Selection.informed_run hfresh ops).exists_emptied

/-- Two elements of key 1 and two of key 2. Put in order at once and pushed one by one they lie in
two different ways, and are popped in two different orders, neither of which is the one that a sort
gives; all three are alike. From a selection with room for two the one that is remembered leaves
before the other one of key 2. -/
theorem emptied_alike_sorted_tied :
    let cmp := compareOn (Prod.fst : Nat × Nat → Nat)
    let xs := [(2, 0), (2, 1), (1, 0), (1, 1)]
    let h := Heap.ofList cmp xs
    let h' := xs.foldl (Heap.push cmp) Heap.empty
    Heap.Loaded cmp xs h ∧ Heap.Loaded cmp xs h' ∧
      h.toList = [(1, 1), (2, 0), (1, 0), (2, 1)] ∧ h'.toList = [(1, 0), (1, 1), (2, 0), (2, 1)] ∧
      (h.drain cmp).1 = [(1, 1), (1, 0), (2, 1), (2, 0)] ∧
      (h'.drain cmp).1 = [(1, 0), (1, 1), (2, 0), (2, 1)] ∧
      Order.Alike cmp (h.drain cmp).1 (h'.drain cmp).1 ∧
      Order.Alike cmp (h.drain cmp).1 (h.sorted cmp) ∧
      ∃ fresh : Selection (Nat × Nat), Selection.create 2 = .ok fresh ∧
        let s := (Step.forEach (Selection.perform cmp) fresh (xs.map .push)).state
        s.maximum = some (2, 0) ∧ (s.drain cmp).1 = [(2, 0), (2, 1)] ∧
          Order.Alike cmp (s.drain cmp).1 (s.sorted cmp) ∧ (s.drain cmp).2.maximum = none := by
  intro cmp xs h h'
  obtain ⟨hheaps, hselections⟩ := emptied_alike_sorted cmp
  obtain ⟨ys, -, hdrain, -, -, hsorted, hothers⟩ := hheaps xs h (.collected xs)
  obtain ⟨zs, he', hdrain', -⟩ := hheaps xs h' (.pushed xs)
  obtain ⟨us, t, -, hall, -, halike, -, hforgotten⟩ := hselections 2 _ rfl (xs.map .push)
  refine ⟨.collected xs, .pushed xs, ?_, ?_, ?_, ?_, ?_, ?_, _, rfl, ?_, ?_, ?_, ?_⟩
  · decide +kernel
  · decide +kernel
  · decide +kernel
  · decide +kernel
  · rw [hdrain, hdrain']
    exact hothers h' zs _ (.pushed xs) he'
  · rw [hdrain]
    exact hsorted
  · decide +kernel
  · decide +kernel
  · rw [hall]
    exact halike
  · rw [hall]
    exact hforgotten

end Retention
