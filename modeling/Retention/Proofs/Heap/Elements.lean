/-
# Retention.Proofs.Heap.Elements -- a heap is a multiset whose least elements come first

Where in its array a heap keeps an element is nobody's business but its own. What matters is which
elements are there, each as often as it was put in, and that the one on top is a least one. `Effect`
says so for each operation, and every run of operations on a heap follows these effects, however the
heap was built. Elements that compare as equal are still told apart: the one that is popped leaves,
and not another one that compares as equal to it.
-/
import Mathlib.Data.Multiset.AddSub
import Retention.Proofs.Heap.Ordered
import Retention.Proofs.Run

namespace Retention.Heap

universe u

variable {α : Type u} {cmp : α → α → Ordering} {h : Heap α} {m : Multiset α} {x : α}

/-! ## Elements -/

/-- The elements, each as often as it is there. -/
def elements (h : Heap α) : Multiset α := h.toList

theorem elements_empty : (empty : Heap α).elements = 0 := rfl

theorem elements_ofList (cmp : α → α → Ordering) (xs : List α) : (ofList cmp xs).elements = xs :=
  Multiset.coe_eq_coe.mpr (toList_ofList_perm cmp xs)

theorem elements_push (cmp : α → α → Ordering) (h : Heap α) (x : α) :
    (h.push cmp x).elements = x ::ₘ h.elements :=
  Multiset.coe_eq_coe.mpr (toList_push_perm cmp h x)

theorem elements_extend (cmp : α → α → Ordering) (h : Heap α) (xs : List α) :
    (h.extend cmp xs).elements = xs + h.elements :=
  Multiset.coe_eq_coe.mpr (toList_extend_perm cmp h xs)

theorem elements_of_pop? {rest : Heap α} (hpop : h.pop? cmp = some (x, rest)) :
    x ::ₘ rest.elements = h.elements :=
  Multiset.coe_eq_coe.mpr (pop?_eq_some hpop).2

theorem elements_eq_zero_iff : h.elements = 0 ↔ h.size = 0 := by
  rw [elements, Multiset.coe_eq_zero, ← List.length_eq_zero_iff]
  rfl

/-- One of the elements, and none of them is less. -/
def Least (cmp : α → α → Ordering) (m : Multiset α) (x : α) : Prop :=
  x ∈ m ∧ ∀ y ∈ m, Order.AtMost cmp x y

theorem Ordered.least [Std.TransCmp cmp] (hord : Ordered cmp h) (hx : h.peek? = some x) :
    Least cmp h.elements x := by
  constructor
  · rw [← elements_of_pop? (pop?_of_peek? cmp hx)]
    exact Multiset.mem_cons_self x _
  · intro y hy
    exact hord.peek?_atMost hx hy

/-! ## Operations -/

/-- The operations on a heap. -/
inductive Op (α : Type u) where
  | push (x : α)
  | extend (xs : List α)
  | collect (xs : List α)
  | pop
  | clear

/-- What an operation answers. -/
inductive Answer (α : Type u) where
  | done
  | element (x : Option α)
deriving DecidableEq

/-- One operation on a heap. Collecting elements puts a heap of them in its place. -/
def perform (cmp : α → α → Ordering) (h : Heap α) : Op α → Step (Heap α) (Answer α)
  | .push x => { state := h.push cmp x, result := .done }
  | .extend xs => { state := h.extend cmp xs, result := .done }
  | .collect xs => { state := ofList cmp xs, result := .done }
  | .pop =>
    match h.pop? cmp with
    | some (x, rest) => { state := rest, result := .element (some x) }
    | none => { state := h, result := .element none }
  | .clear => { state := empty, result := .done }

/-- What an operation does to the elements, and what it answers. The element that is popped is a
least one, and of the elements it alone leaves, and only once. -/
inductive Effect (cmp : α → α → Ordering) :
    Multiset α → Op α → Answer α → Multiset α → Prop
  | enters (x : α) (m : Multiset α) : Effect cmp m (.push x) .done (x ::ₘ m)
  | allEnter (xs : List α) (m : Multiset α) : Effect cmp m (.extend xs) .done (xs + m)
  | replaces (xs : List α) (m : Multiset α) : Effect cmp m (.collect xs) .done xs
  | leaves {x : α} {m : Multiset α} (hleast : Least cmp (x ::ₘ m) x) :
      Effect cmp (x ::ₘ m) .pop (.element (some x)) m
  | stays_empty : Effect cmp 0 .pop (.element none) 0
  | clears (m : Multiset α) : Effect cmp m .clear .done 0

/-! ## Steps and runs -/

/-- The heap is in order, and these are its elements. -/
structure Holds (cmp : α → α → Ordering) (h : Heap α) (m : Multiset α) : Prop where
  ordered : h.Ordered cmp
  elements_eq : h.elements = m

/-- A heap just built, without elements or of the elements of a list. -/
inductive Fresh (cmp : α → α → Ordering) : Heap α → Multiset α → Prop
  | empty : Fresh cmp empty 0
  | ofList (xs : List α) : Fresh cmp (ofList cmp xs) xs

section
variable [Std.TransCmp cmp]

theorem Fresh.holds (hfresh : Fresh cmp h m) : Holds cmp h m := by
  cases hfresh with
  | empty => exact ⟨ordered_empty, elements_empty⟩
  | ofList xs => exact ⟨ordered_ofList xs, elements_ofList cmp xs⟩

/-- Every operation has its effect on the elements. -/
theorem Holds.perform (hholds : Holds cmp h m) (op : Op α) :
    ∃ m', Effect cmp m op (h.perform cmp op).result m' ∧
      Holds cmp (h.perform cmp op).state m' := by
  obtain ⟨hord, rfl⟩ := hholds
  cases op with
  | push x => exact ⟨_, .enters x _, hord.push x, elements_push cmp h x⟩
  | extend xs => exact ⟨_, .allEnter xs _, hord.extend xs, elements_extend cmp h xs⟩
  | collect xs => exact ⟨_, .replaces xs _, (Fresh.ofList xs).holds⟩
  | pop =>
      cases hpop : h.pop? cmp with
      | none =>
          have hnone := elements_eq_zero_iff.mpr (pop?_eq_none_iff.mp hpop)
          rw [Heap.perform, hpop, hnone]
          exact ⟨0, .stays_empty, hord, hnone⟩
      | some popped =>
          obtain ⟨x, rest⟩ := popped
          have hleast := hord.least (pop?_eq_some hpop).1
          rw [Heap.perform, hpop]
          rw [← elements_of_pop? hpop] at hleast ⊢
          exact ⟨_, .leaves hleast, hord.pop? hpop, rfl⟩
  | clear => exact ⟨0, .clears _, Fresh.empty.holds⟩

/-- Every run of operations on a heap keeps it in order and has their effects on its elements, one
after the other. What the heap then shows on top is a least element, and popping takes that one; if
it shows none, there is none to take. -/
theorem run_keeps_order_and_elements (hfresh : Fresh cmp h m) (ops : List (Op α)) :
    let last := (Step.forEach (perform cmp) h ops).state
    Step.Follows (Effect cmp) m (Step.transcript (perform cmp) h ops) last.elements ∧
      Ordered cmp last ∧
      (∀ x, last.peek? = some x → Least cmp last.elements x) ∧
      (last.peek? = none ↔ last.elements = 0) ∧
      (last.pop? cmp).map Prod.fst = last.peek? := by
  obtain ⟨m', hfollows, hord, rfl⟩ :=
    Step.forEach_follows (fun _ _ op h => h.perform op) hfresh.holds ops
  refine ⟨hfollows, hord, ?_, ?_, ?_⟩
  · intro x hx
    exact hord.least hx
  · rw [elements_eq_zero_iff]
    exact peek?_eq_none_iff
  · exact map_fst_pop? cmp _

end

/-- Three elements compare as equal, and another is less. That one is popped first, and then the one
of the three on top, though it was not the first of them to enter; the other two stay. -/
theorem run_keeps_order_and_elements_tied :
    let cmp := compareOn (Prod.fst : Nat × Nat → Nat)
    let fresh := ofList cmp [(2, 0), (2, 1)]
    let ops := [.push (1, 0), .extend [(2, 2)], .pop, .pop]
    let last := (Step.forEach (perform cmp) fresh ops).state
    Fresh cmp fresh ([(2, 0), (2, 1)] : List (Nat × Nat)) ∧
      Step.Follows (Effect cmp) ([(2, 0), (2, 1)] : List (Nat × Nat))
        (Step.transcript (perform cmp) fresh ops) last.elements ∧
      (Step.forEach (perform cmp) fresh ops).result =
        [.done, .done, .element (some (1, 0)), .element (some (2, 2))] ∧
      last.toList = [(2, 0), (2, 1)] ∧ Least cmp last.elements (2, 0) := by
  intro cmp fresh ops last
  have hfresh : Fresh cmp fresh ([(2, 0), (2, 1)] : List (Nat × Nat)) := .ofList _
  obtain ⟨hfollows, -, hleast, -⟩ := run_keeps_order_and_elements hfresh ops
  refine ⟨hfresh, hfollows, ?_, ?_, ?_⟩
  · decide +kernel
  · decide +kernel
  · apply hleast
    decide +kernel

end Retention.Heap
