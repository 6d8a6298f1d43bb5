/-
# Retention.Proofs.Selection.Greatest -- a selection knows its greatest element

The greatest element is remembered beside the heap and never searched for: an element that is
accepted can only raise it, and it is forgotten when the last element leaves. Between these two it
must not go stale, though elements leave by being taken and by being displaced. Both times it is a
least one that leaves. If that one compares as equal to the one remembered, so do all the others,
and any of them may stand for it. With room for one element only, the one displaced leaves none
behind, and the newcomer is remembered whatever it compares as.
-/
import Retention.Proofs.Selection.Retained

namespace Retention.Selection

universe u

open Retention.Order (AtMost Peak)

variable {α : Type u} {cmp : α → α → Ordering} {n : Nat} {s : Selection α} {x : α}

/-! ## What is remembered -/

/-- If elements are kept, a greatest of them is remembered. -/
def Remembers (cmp : α → α → Ordering) (s : Selection α) : Prop :=
  s.toList ≠ [] → ∃ m, s.maximum = some m ∧ Peak cmp s.toList m

theorem raises_iff : s.raises cmp x = true ↔
    s.toList = [] ∨ ∀ m, s.maximum = some m → cmp m x = .lt := by
  unfold raises
  cases s.maximum with
  | none => simp
  | some m => simp [toList, Heap.toList, Heap.isEmpty, Ordering.isLT_iff_eq_lt]

theorem toList_keep_ne_nil (cmp : α → α → Ordering) (s : Selection α) (x : α) :
    (s.keep cmp x).toList ≠ [] := by
  intro hnil
  have hlength := (Heap.toList_push_perm cmp s.heap x).length_eq
  have hzero : (s.heap.push cmp x).toList.length = 0 := congrArg List.length hnil
  rw [hzero] at hlength
  exact absurd hlength (by simp)

/-- An element that is accepted is remembered if it is greater than all others, and else it leaves
what is remembered as it is. -/
theorem Remembers.keep [Std.TransCmp cmp] (h : Remembers cmp s) (x : α) :
    Remembers cmp (s.keep cmp x) := by
  intro _
  have hperm : (s.keep cmp x).toList.Perm (x :: s.toList) := Heap.toList_push_perm cmp s.heap x
  suffices hpeak : ∃ m, (s.keep cmp x).maximum = some m ∧ Peak cmp (x :: s.toList) m by
    obtain ⟨m, hm, hpeak⟩ := hpeak
    exact ⟨m, hm, hpeak.perm hperm.symm⟩
  unfold Selection.keep
  by_cases hnil : s.toList = []
  · rw [if_pos (raises_iff.mpr (.inl hnil)), hnil]
    exact ⟨x, rfl, Order.peak_cons_self fun y hy => absurd hy List.not_mem_nil⟩
  · obtain ⟨m, hm, hpeak⟩ := h hnil
    by_cases hless : cmp m x = .lt
    · have hraises : s.raises cmp x = true := by
        refine raises_iff.mpr (.inr ?_)
        intro k hk
        rwa [← Option.some.inj (hm.symm.trans hk)]
      rw [if_pos hraises]
      exact ⟨x, rfl, Order.peak_cons_self fun y hy => (hpeak.bound y hy).trans (.of_lt hless)⟩
    · have hstays : ¬ s.raises cmp x = true := by
        intro hraises
        rcases raises_iff.mp hraises with hbare | hall
        · exact hnil hbare
        · exact hless (hall m hm)
      rw [if_neg hstays]
      exact ⟨m, hm, hpeak.cons hless⟩

/-- When a least element leaves, what is remembered still serves for the others. -/
theorem Remembers.of_least [Std.TransCmp cmp] {rest : Heap α} (h : Remembers cmp s)
    (hperm : (x :: rest.toList).Perm s.toList) (hleast : ∀ y ∈ s.toList, AtMost cmp x y) :
    Remembers cmp { s with heap := rest } := by
  intro hsome
  have hfilled : s.toList ≠ [] := by
    intro hnil
    rw [hnil] at hperm
    exact absurd hperm.eq_nil (List.cons_ne_nil x _)
  obtain ⟨m, hm, hpeak⟩ := h hfilled
  refine ⟨m, hm, (hpeak.perm hperm.symm).of_cons_least ?_ hsome⟩
  intro y hy
  exact hleast y (hperm.mem_iff.mp (List.mem_cons_of_mem x hy))

/-! ## Steps -/

/-- A selection in good order that remembers a greatest element, and none if it keeps none. -/
structure Informed (cmp : α → α → Ordering) (n : Nat) (s : Selection α) : Prop where
  sound : Sound cmp n s
  remembers : Remembers cmp s
  forgets : s.toList = [] → s.maximum = none

theorem Informed.maximum_eq_none_iff (h : Informed cmp n s) :
    s.maximum = none ↔ s.toList = [] := by
  constructor
  · intro hnone
    by_contra hsome
    obtain ⟨m, hm, -⟩ := h.remembers hsome
    rw [hnone] at hm
    exact Option.some_ne_none m hm.symm
  · exact h.forgets

theorem Informed.peak (h : Informed cmp n s) (hx : s.maximum = some x) :
    Peak cmp s.toList x := by
  have hsome : s.toList ≠ [] := by
    intro hnil
    rw [h.forgets hnil] at hx
    exact Option.some_ne_none x hx.symm
  obtain ⟨m, hm, hpeak⟩ := h.remembers hsome
  rwa [Option.some.inj (hx.symm.trans hm)]

theorem informed_create (cmp : α → α → Ordering) (n : Nat) :
    Informed cmp n ({ capacity := n } : Selection α) where
  sound := sound_create cmp n
  remembers hsome := absurd rfl hsome
  forgets _ := rfl

section
variable [Std.TransCmp cmp]

theorem Informed.remembers_push (h : Informed cmp n s) (x : α) :
    Remembers cmp (s.push cmp x).state ∧
      ((s.push cmp x).state.toList = [] → (s.push cmp x).state.maximum = none) := by
  rcases push_cases cmp s x with ⟨-, hpush⟩ | ⟨least, -, hleast, -, hpush⟩ | ⟨-, -, hpush⟩
  · rw [hpush]
    exact ⟨h.remembers.keep x, fun hnil => absurd hnil (toList_keep_ne_nil cmp s x)⟩
  · -- With room for one only, none is kept for a moment, and then the newcomer is remembered.
    have hperm := (Heap.pop?_eq_some (Heap.pop?_of_peek? cmp hleast)).2
    have hrest := h.remembers.of_least hperm fun y hy => h.sound.minimum_atMost hleast hy
    rw [hpush]
    exact ⟨hrest.keep x, fun hnil => absurd hnil (toList_keep_ne_nil cmp _ x)⟩
  · rw [hpush]
    exact ⟨h.remembers, h.forgets⟩

theorem Informed.remembers_pop (h : Informed cmp n s) :
    Remembers cmp (s.perform cmp .pop).state ∧
      ((s.perform cmp .pop).state.toList = [] → (s.perform cmp .pop).state.maximum = none) := by
  rcases pop_cases cmp s with ⟨-, hpop⟩ | ⟨least, rest, htaken, hpop⟩
  · rw [hpop]
    exact ⟨h.remembers, h.forgets⟩
  · obtain ⟨hleast, hperm⟩ := Heap.pop?_eq_some htaken
    have hrest := h.remembers.of_least hperm fun y hy => h.sound.minimum_atMost hleast hy
    have hbare : rest.isEmpty = true ↔ rest.toList = [] := Heap.isEmpty_iff_toList_eq_nil
    rw [hpop]
    constructor
    · intro hsome
      obtain ⟨m, hm, hpeak⟩ := hrest hsome
      refine ⟨m, ?_, hpeak⟩
      show (if rest.isEmpty then none else s.maximum) = some m
      rw [if_neg (mt hbare.mp hsome)]
      exact hm
    · intro hnil
      exact if_pos (hbare.mpr hnil)

theorem Informed.perform (hn : 0 < n) (h : Informed cmp n s) (op : Op α) :
    Informed cmp n (s.perform cmp op).state := by
  have hsound := (h.sound.perform hn op).1
  cases op with
  | push x =>
      obtain ⟨hremembers, hforgets⟩ := h.remembers_push x
      exact ⟨hsound, hremembers, hforgets⟩
  | pop =>
      obtain ⟨hremembers, hforgets⟩ := h.remembers_pop
      exact ⟨hsound, hremembers, hforgets⟩

/-! ## The guard -/

/-- The element remembered and the one that a search finds compare as equal. -/
theorem Informed.agree_greatest? (h : Informed cmp n s) :
    agree cmp s.maximum (Order.greatest? cmp s.toList) = true := by
  cases hx : s.maximum with
  | none =>
      rw [h.maximum_eq_none_iff.mp hx]
      rfl
  | some x =>
      cases hy : Order.greatest? cmp s.toList with
      | none =>
          have hnil := Order.greatest?_eq_none_iff.mp hy
          rw [h.forgets hnil] at hx
          exact absurd hx.symm (Option.some_ne_none x)
      | some y =>
          have heq := (h.peak hx).eq (Order.peak_of_greatest? hy)
          show (cmp x y).isEq = true
          rw [heq]
          rfl

theorem Informed.guard_eq_ok (h : Informed cmp n s) : s.guard cmp = .ok () := by
  have hheap : s.heap.guard cmp = .ok () := by
    rw [Heap.guard, Heap.audit_eq_ok_iff.mpr h.sound.ordered]
    rfl
  have hroom : ¬ s.capacity < s.size := by
    rw [h.sound.capacity_eq]
    exact Nat.not_lt.mpr h.sound.size_le
  rw [guard, hheap]
  show (if s.capacity < s.size then _ else _) = _
  rw [if_neg hroom, if_pos h.agree_greatest?]

end

/-! ## Runs -/

/-- A selection with room for an element knows its greatest element after every run of operations,
and so also when it was emptied and filled again in between: nothing is remembered exactly if no
element is kept; what is remembered compares as equal to an element kept, and none is greater. It
never keeps too many, and its guard never raises an alarm. -/
theorem run_knows_greatest (cmp : α → α → Ordering) [Std.TransCmp cmp] {n : Nat} (hn : 0 < n) :
    ∃ fresh : Selection α, create n = .ok fresh ∧
      ∀ ops : List (Op α),
        let s := (Step.forEach (perform cmp) fresh ops).state
        (s.maximum = none ↔ s.toList = []) ∧
          (∀ m, s.maximum = some m → Peak cmp s.toList m) ∧
          s.size ≤ n ∧ s.guard cmp = .ok () := by
  refine ⟨{ capacity := n }, if_neg (Nat.ne_of_gt hn), fun ops => ?_⟩
  have hlast : Informed cmp n (Step.forEach (perform cmp) { capacity := n } ops).state :=
    Step.forEach_induction (fun _ op h => h.perform hn op) (informed_create cmp n) ops
  exact ⟨hlast.maximum_eq_none_iff, fun m hm => hlast.peak hm, hlast.sound.size_le,
    hlast.guard_eq_ok⟩

/-- Room for two. The one of key 2 that is remembered leaves first, and it still compares as equal
to the one that stays. When that one has left too, nothing is remembered, and then a lesser one. -/
theorem run_knows_greatest_tied :
    0 < 2 ∧ ∃ fresh : Selection (Nat × Nat), create 2 = .ok fresh ∧
      let cmp := compareOn Prod.fst
      let tied := (Step.forEach (perform cmp) fresh
        [.push (2, 0), .push (2, 1), .push (1, 0), .pop]).state
      let bare := (Step.forEach (perform cmp) fresh [.push (2, 0), .push (2, 1), .pop, .pop]).state
      let refilled := (Step.forEach (perform cmp) fresh
        [.push (2, 0), .push (2, 1), .pop, .pop, .push (1, 5)]).state
      tied.toList = [(2, 1)] ∧ tied.maximum = some (2, 0) ∧ Peak cmp tied.toList (2, 0) ∧
        tied.guard cmp = .ok () ∧ bare.maximum = none ∧
        refilled.maximum = some (1, 5) ∧ Peak cmp refilled.toList (1, 5) := by
  refine ⟨by decide, ?_⟩
  obtain ⟨fresh, hfresh, hrun⟩ :=
    run_knows_greatest (compareOn (Prod.fst : Nat × Nat → Nat)) (n := 2) (by decide)
  obtain ⟨-, htied, -, hguard⟩ := hrun [.push (2, 0), .push (2, 1), .push (1, 0), .pop]
  obtain ⟨hbare, -⟩ := hrun [.push (2, 0), .push (2, 1), .pop, .pop]
  obtain ⟨-, hrefilled, -⟩ := hrun [.push (2, 0), .push (2, 1), .pop, .pop, .push (1, 5)]
  cases Except.ok.inj hfresh
  refine ⟨_, rfl, ?_, ?_, htied _ ?_, hguard, hbare.mpr ?_, ?_, hrefilled _ ?_⟩
  · decide +kernel
  · decide +kernel
  · decide +kernel
  · decide +kernel
  · decide +kernel
  · decide +kernel

end Retention.Selection
