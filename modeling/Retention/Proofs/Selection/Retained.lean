/-
# Retention.Proofs.Selection.Retained -- a selection keeps the greatest elements

Only the least element that a selection keeps is ever looked at. `Effect` says what offering and
taking do to the elements kept, and it holds whatever the comparison says. That the element looked
at is a least one holds in every selection that a run of such operations reaches, because its heap
is in order. If elements are only offered, those turned away and those displaced are never greater
than one that is kept. So the elements kept are, up to elements that compare as equal, the greatest
of all that were offered, and the order in which they came does not matter.
-/
import Retention.Proofs.Heap.Ordered
import Retention.Proofs.Run
import Retention.Selection

namespace Retention.Selection

open scoped List

universe u

variable {α : Type u} {cmp : α → α → Ordering} {n : Nat} {s : Selection α} {x : α}

/-! ## Operations -/

/-- The operations on a selection. -/
inductive Op (α : Type u) where
  | push (x : α)
  | pop

/-- What an operation answers. -/
inductive Answer (α : Type u) where
  | kept (b : Bool)
  | element (x : Option α)

/-- One operation on a selection. -/
def perform (cmp : α → α → Ordering) (s : Selection α) : Op α → Step (Selection α) (Answer α)
  | .push x => (s.push cmp x).map .kept
  | .pop =>
    match s.pop? cmp with
    | some (x, t) => { state := t, result := .element (some x) }
    | none => { state := s, result := .element none }

/-- What an operation does to the elements kept, what it answers and what it reports. Nothing is
reported unless an element is turned away. -/
inductive Effect (cmp : α → α → Ordering) (n : Nat) (s : Selection α) :
    Op α → Step (Selection α) (Answer α) → Prop
  | enters {x : α} {t : Selection α} (hroom : s.size < n)
      (hperm : t.toList.Perm (x :: s.toList)) :
      Effect cmp n s (.push x) { state := t, result := .kept true }
  | displaces {x least : α} {t : Selection α} (hfull : s.size = n)
      (hleast : s.minimum = some least) (hless : cmp least x = .lt)
      (hperm : (least :: t.toList).Perm (x :: s.toList)) :
      Effect cmp n s (.push x) { state := t, result := .kept true }
  | turnedAway {x least : α} (hfull : s.size = n) (hleast : s.minimum = some least)
      (hless : cmp least x ≠ .lt) :
      Effect cmp n s (.push x)
        { state := s, result := .kept false, events := [.elementDiscarded n] }
  | pops {x : α} {t : Selection α} (hleast : s.minimum = some x)
      (hperm : (x :: t.toList).Perm s.toList) :
      Effect cmp n s .pop { state := t, result := .element (some x) }
  | pops_nil (hs : s.toList = []) : Effect cmp n s .pop { state := s, result := .element none }

/-! ## What an operation comes to -/

theorem length_toList (s : Selection α) : s.toList.length = s.size := Array.length_toList

theorem mem_of_minimum (hleast : s.minimum = some x) : x ∈ s.toList := by
  refine List.mem_of_getElem? (i := 0) ?_
  rw [toList, Heap.toList, Array.getElem?_toList]
  exact hleast

/-- An element that is offered finds room, or displaces the least one, or is turned away. -/
theorem push_cases (cmp : α → α → Ordering) (s : Selection α) (x : α) :
    (s.size < s.capacity ∧ s.push cmp x = { state := s.keep cmp x, result := true }) ∨
      (∃ least, s.capacity ≤ s.size ∧ s.minimum = some least ∧ cmp least x = .lt ∧
        s.push cmp x =
          { state := { s with heap := s.heap.withoutTop cmp }.keep cmp x, result := true }) ∨
      (s.capacity ≤ s.size ∧ (∀ least, s.minimum = some least → cmp least x ≠ .lt) ∧
        s.push cmp x =
          { state := s, result := false, events := [.elementDiscarded s.capacity] }) := by
  unfold push
  by_cases hroom : s.size < s.capacity
  · exact .inl ⟨hroom, if_pos hroom⟩
  · refine .inr ?_
    have hfull : s.capacity ≤ s.size := Nat.le_of_not_lt hroom
    rw [if_neg hroom]
    cases hleast : s.minimum with
    | none => exact .inr ⟨hfull, by simp, rfl⟩
    | some least =>
        by_cases hless : cmp least x = .lt
        · exact .inl ⟨least, hfull, rfl, hless, if_pos hless⟩
        · refine .inr ⟨hfull, ?_, if_neg hless⟩
          rintro y ⟨⟩
          exact hless

/-- The wish for an element is answered with the least one, or there is none. -/
theorem pop_cases (cmp : α → α → Ordering) (s : Selection α) :
    (s.size = 0 ∧ s.perform cmp .pop = { state := s, result := .element none }) ∨
      ∃ least rest, s.heap.pop? cmp = some (least, rest) ∧
        s.perform cmp .pop =
          { state := { s with
              heap := rest
              maximum := if rest.isEmpty then none else s.maximum }
            result := .element (some least) } := by
  unfold perform pop?
  cases hpop : s.heap.pop? cmp with
  | none => exact .inl ⟨Heap.pop?_eq_none_iff.mp hpop, rfl⟩
  | some popped => exact .inr ⟨popped.1, popped.2, rfl, rfl⟩

/-! ## Bounds -/

/-- A selection of this capacity is not overfull. -/
structure Bounded (n : Nat) (s : Selection α) : Prop where
  capacity_eq : s.capacity = n
  size_le : s.size ≤ n

/-- A displacement takes out the least element and nothing else. -/
theorem displaced_perm (hleast : s.minimum = some x) (cmp : α → α → Ordering) (y : α) :
    (x :: ((s.heap.withoutTop cmp).push cmp y).toList).Perm (y :: s.toList) := by
  have hpop := (Heap.pop?_eq_some (Heap.pop?_of_peek? cmp hleast)).2
  have hpush := Heap.toList_push_perm cmp (s.heap.withoutTop cmp) y
  calc x :: ((s.heap.withoutTop cmp).push cmp y).toList
    _ ~ x :: y :: (s.heap.withoutTop cmp).toList := hpush.cons x
    _ ~ y :: x :: (s.heap.withoutTop cmp).toList := .swap y x _
    _ ~ y :: s.toList := hpop.cons y

/-- Whatever the comparison says, offering an element has its effect. -/
theorem Bounded.push (hn : 0 < n) (h : Bounded n s) (cmp : α → α → Ordering) (x : α) :
    Bounded n (s.push cmp x).state ∧ Effect cmp n s (.push x) ((s.push cmp x).map .kept) := by
  obtain ⟨rfl, hsize⟩ := h
  rcases push_cases cmp s x with
    ⟨hroom, hpush⟩ | ⟨least, hfull, hleast, hless, hpush⟩ | ⟨hfull, hless, hpush⟩
  · rw [hpush]
    refine ⟨⟨rfl, ?_⟩, .enters hroom (Heap.toList_push_perm cmp s.heap x)⟩
    show (s.heap.push cmp x).size ≤ s.capacity
    rw [Heap.size_push]
    exact hroom
  · have hperm := displaced_perm hleast cmp x
    rw [hpush]
    refine ⟨⟨rfl, ?_⟩, .displaces (Nat.le_antisymm hsize hfull) hleast hless hperm⟩
    have hlength := hperm.length_eq
    rw [List.length_cons, List.length_cons, length_toList] at hlength
    show ((s.heap.withoutTop cmp).push cmp x).items.size ≤ s.capacity
    rw [← Array.length_toList]
    exact Nat.le_trans (Nat.le_of_eq (Nat.succ.inj hlength)) hsize
  · rw [hpush]
    refine ⟨⟨rfl, hsize⟩, ?_⟩
    cases hleast : s.minimum with
    | none =>
        have hnone : s.size = 0 := Heap.peek?_eq_none_iff.mp hleast
        omega
    | some least => exact .turnedAway (Nat.le_antisymm hsize hfull) hleast (hless least hleast)

/-- Whatever the comparison says, taking an element has its effect. -/
theorem Bounded.pop (h : Bounded n s) (cmp : α → α → Ordering) :
    Bounded n (s.perform cmp .pop).state ∧ Effect cmp n s .pop (s.perform cmp .pop) := by
  rcases pop_cases cmp s with ⟨hnone, hpop⟩ | ⟨least, rest, htaken, hpop⟩
  · rw [hpop]
    refine ⟨h, .pops_nil (List.eq_nil_of_length_eq_zero ?_)⟩
    exact (length_toList s).trans hnone
  · obtain ⟨hleast, hperm⟩ := Heap.pop?_eq_some htaken
    have hsize := Heap.size_of_pop? htaken
    have hle : s.heap.size ≤ n := h.size_le
    rw [hpop]
    refine ⟨⟨h.capacity_eq, ?_⟩, .pops hleast hperm⟩
    show rest.size ≤ n
    omega

theorem Bounded.perform (hn : 0 < n) (h : Bounded n s) (cmp : α → α → Ordering) (op : Op α) :
    Bounded n (s.perform cmp op).state ∧ Effect cmp n s op (s.perform cmp op) := by
  cases op with
  | push x => exact h.push hn cmp x
  | pop => exact h.pop cmp

/-! ## Good order -/

/-- A selection of this capacity is not overfull, and its heap is in order. -/
structure Sound (cmp : α → α → Ordering) (n : Nat) (s : Selection α) : Prop where
  ordered : s.heap.Ordered cmp
  capacity_eq : s.capacity = n
  size_le : s.size ≤ n

section
variable [Std.TransCmp cmp]

theorem sound_create (cmp : α → α → Ordering) (n : Nat) :
    Sound cmp n ({ capacity := n } : Selection α) :=
  ⟨Heap.ordered_empty, rfl, Nat.zero_le n⟩

theorem Sound.minimum_atMost {y : α} (h : Sound cmp n s) (hleast : s.minimum = some x)
    (hy : y ∈ s.toList) : Order.AtMost cmp x y :=
  h.ordered.peek?_atMost hleast hy

theorem Sound.withoutTop (h : Sound cmp n s) (hleast : s.minimum = some x) :
    (s.heap.withoutTop cmp).Ordered cmp :=
  h.ordered.pop? (Heap.pop?_of_peek? cmp hleast)

theorem Sound.ordered_perform (h : Sound cmp n s) (op : Op α) :
    (s.perform cmp op).state.heap.Ordered cmp := by
  cases op with
  | push x =>
      show (s.push cmp x).state.heap.Ordered cmp
      rcases push_cases cmp s x with ⟨-, hpush⟩ | ⟨least, -, hleast, -, hpush⟩ | ⟨-, -, hpush⟩
      · rw [hpush]
        exact h.ordered.push x
      · rw [hpush]
        exact (h.withoutTop hleast).push x
      · rw [hpush]
        exact h.ordered
  | pop =>
      rcases pop_cases cmp s with ⟨-, hpop⟩ | ⟨least, rest, htaken, hpop⟩
      · rw [hpop]
        exact h.ordered
      · rw [hpop]
        exact h.ordered.pop? htaken

theorem Sound.perform (hn : 0 < n) (h : Sound cmp n s) (op : Op α) :
    Sound cmp n (s.perform cmp op).state ∧ Effect cmp n s op (s.perform cmp op) := by
  have hbounded : Bounded n s := ⟨h.capacity_eq, h.size_le⟩
  obtain ⟨hnext, heffect⟩ := hbounded.perform hn cmp op
  exact ⟨⟨h.ordered_perform op, hnext.capacity_eq, hnext.size_le⟩, heffect⟩

end

/-! ## Offers only -/

/-- The selection keeps as many of the elements offered as it can, and none that it does not keep is
greater than one that it keeps. -/
def Retains (cmp : α → α → Ordering) (n : Nat) (s : Selection α) (offered : List α) : Prop :=
  s.size = min n offered.length ∧
    ∃ others, (s.toList ++ others).Perm offered ∧
      ∀ y ∈ others, ∀ z ∈ s.toList, Order.AtMost cmp y z

theorem Retains.perm {offered offered' : List α} (h : Retains cmp n s offered)
    (hperm : offered.Perm offered') : Retains cmp n s offered' := by
  obtain ⟨hsize, others, hall, hle⟩ := h
  exact ⟨hperm.length_eq ▸ hsize, others, hall.trans hperm, hle⟩

section
variable [Std.TransCmp cmp]

theorem Retains.offer {offered : List α} {out : Step (Selection α) (Answer α)}
    (h : Retains cmp n s offered) (hsound : Sound cmp n s)
    (heffect : Effect cmp n s (.push x) out) : Retains cmp n out.state (x :: offered) := by
  obtain ⟨hsize, others, hall, hle⟩ := h
  have hlength := hall.length_eq
  rw [List.length_append, length_toList] at hlength
  cases heffect with
  | @enters _ t hroom hperm =>
      -- There was room, so none has been turned away or displaced so far.
      have hothers : others = [] := List.eq_nil_of_length_eq_zero (by omega)
      subst hothers
      have hcount := hperm.length_eq
      rw [List.length_cons, length_toList, length_toList] at hcount
      rw [List.append_nil] at hall
      refine ⟨?_, [], ?_, fun y hy => absurd hy List.not_mem_nil⟩
      · show t.size = _
        rw [List.length_cons]
        omega
      · rw [List.append_nil]
        exact hperm.trans (hall.cons x)
  | @displaces _ least t hfull hleast hless hperm =>
      have hcount := hperm.length_eq
      rw [List.length_cons, List.length_cons, length_toList, length_toList] at hcount
      refine ⟨?_, least :: others, ?_, ?_⟩
      · show t.size = _
        rw [List.length_cons]
        omega
      · exact List.perm_middle.trans ((hperm.append_right others).trans (hall.cons x))
      · -- The element displaced is no greater than what is kept, and the others no greater than it.
        have hlow : ∀ z ∈ x :: s.toList, Order.AtMost cmp least z := by
          intro z hz
          rcases List.mem_cons.mp hz with rfl | hz
          · exact .of_lt hless
          · exact hsound.minimum_atMost hleast hz
        intro y hy z hz
        have hz' := hlow z (hperm.mem_iff.mp (List.mem_cons_of_mem least hz))
        rcases List.mem_cons.mp hy with rfl | hy
        · exact hz'
        · exact (hle y hy least (mem_of_minimum hleast)).trans hz'
  | @turnedAway _ least hfull hleast hless =>
      refine ⟨?_, x :: others, List.perm_middle.trans (hall.cons x), ?_⟩
      · show s.size = _
        rw [List.length_cons]
        omega
      · intro y hy z hz
        rcases List.mem_cons.mp hy with rfl | hy
        · -- What is turned away is not greater than the least element kept.
          have hx : Order.AtMost cmp y least := hless
          exact hx.trans (hsound.minimum_atMost hleast hz)
        · exact hle y hy z hz

theorem Retains.offers (hn : 0 < n) {offered : List α} (h : Retains cmp n s offered)
    (hsound : Sound cmp n s) (xs : List α) :
    Retains cmp n (Step.forEach (perform cmp) s (xs.map .push)).state (xs ++ offered) := by
  induction xs generalizing s offered with
  | nil => exact h
  | cons x xs ih =>
      obtain ⟨hnext, heffect⟩ := hsound.perform hn (.push x)
      exact (ih (h.offer hsound heffect) hnext).perm List.perm_middle

theorem Retains.alike {offered : List α} (h : Retains cmp n s offered) :
    Order.Alike cmp (s.sorted cmp) ((Order.sorted cmp offered).drop (offered.length - n)) := by
  obtain ⟨hsize, others, hall, hle⟩ := h
  have hlength := hall.length_eq
  rw [List.length_append, length_toList] at hlength
  have hothers : others.length = offered.length - n := by omega
  rw [← hothers]
  exact Order.sorted_alike_drop hall hle

end

/-- A selection with room for an element keeps the greatest elements offered. Every operation, after
any run of operations, has its effect, and the least element is a least one. When elements were only
offered, the elements kept are, in ascending order, alike to the greatest of them, as many as there
is room for, whatever the order in which they were offered. -/
theorem run_keeps_greatest (cmp : α → α → Ordering) [Std.TransCmp cmp] {n : Nat} (hn : 0 < n) :
    ∃ fresh : Selection α, create n = .ok fresh ∧
      (∀ ops : List (Op α),
        let s := (Step.forEach (perform cmp) fresh ops).state
        s.size ≤ n ∧ (∀ op, Effect cmp n s op (s.perform cmp op)) ∧
          (s.minimum = none ↔ s.toList = []) ∧
          ∀ least, s.minimum = some least →
            least ∈ s.toList ∧ ∀ y ∈ s.toList, Order.AtMost cmp least y) ∧
      ∀ offered arranged : List α, offered.Perm arranged →
        let s := (Step.forEach (perform cmp) fresh (offered.map .push)).state
        s.size = min n offered.length ∧
          Order.Alike cmp (s.sorted cmp)
            ((Order.sorted cmp arranged).drop (arranged.length - n)) := by
  have hfresh : Sound cmp n ({ capacity := n } : Selection α) :=
    ⟨Heap.ordered_empty, rfl, Nat.zero_le n⟩
  refine ⟨{ capacity := n }, if_neg (Nat.ne_of_gt hn), fun ops => ?_, ?_⟩
  · have hsound : Sound cmp n (Step.forEach (perform cmp) { capacity := n } ops).state :=
      Step.forEach_induction (fun _ op h => (h.perform hn op).1) hfresh ops
    refine ⟨hsound.size_le, fun op => (hsound.perform hn op).2, ?_, fun least hleast => ?_⟩
    · rw [← List.length_eq_zero_iff, length_toList]
      exact Heap.peek?_eq_none_iff
    · exact ⟨mem_of_minimum hleast, fun y hy => hsound.minimum_atMost hleast hy⟩
  · intro offered arranged hperm
    have hnone : Retains cmp n ({ capacity := n } : Selection α) [] :=
      ⟨(Nat.min_zero n).symm, [], .refl _, fun y hy => absurd hy List.not_mem_nil⟩
    have hretains := hnone.offers hn hfresh offered
    rw [List.append_nil] at hretains
    exact ⟨hretains.1, (hretains.perm hperm).alike⟩

/-- Room for two, and three elements of key 2 among those offered: the first two of these are kept,
which are alike to the ones that another order puts last, though they are not the same. Another
element of key 2 is then turned away, and the least of the two kept leaves first. -/
theorem run_keeps_greatest_tied :
    0 < 2 ∧ ∃ fresh : Selection (Nat × Nat), create 2 = .ok fresh ∧
      let cmp := compareOn Prod.fst
      let s := (Step.forEach (perform cmp) fresh
        ([(2, 0), (1, 0), (2, 1), (2, 2)].map .push)).state
      s.toList = [(2, 0), (2, 1)] ∧ s.size = 2 ∧
        Order.Alike cmp (s.sorted cmp) [(2, 2), (2, 1)] ∧
        Effect cmp 2 s (.push (2, 3)) (s.perform cmp (.push (2, 3))) ∧
        (s.push cmp (2, 3)).result = false ∧ (s.push cmp (3, 0)).result = true ∧
        Effect cmp 2 s .pop (s.perform cmp .pop) := by
  refine ⟨by decide, ?_⟩
  obtain ⟨fresh, hfresh, hrun, hoffered⟩ :=
    run_keeps_greatest (compareOn (Prod.fst : Nat × Nat → Nat)) (n := 2) (by decide)
  obtain ⟨-, heffect, -⟩ := hrun ([(2, 0), (1, 0), (2, 1), (2, 2)].map .push)
  obtain ⟨hsize, halike⟩ := hoffered [(2, 0), (1, 0), (2, 1), (2, 2)]
    [(1, 0), (2, 0), (2, 2), (2, 1)] (by decide)
  have hsorted : Order.sorted (compareOn Prod.fst) [(1, 0), (2, 0), (2, 2), (2, 1)] =
      [(1, 0), (2, 0), (2, 2), (2, 1)] := List.mergeSort_of_pairwise (by decide)
  rw [hsorted] at halike
  cases Except.ok.inj hfresh
  refine ⟨_, rfl, by decide +kernel, hsize, halike, heffect _, ?_, ?_, heffect _⟩
  · decide +kernel
  · decide +kernel

end Retention.Selection
