/-
# Retention.Proofs.Selection.Reordered -- a selection whose elements change their order

Elements may change their order while they are kept, and then neither the element on top of the heap
need be a least one nor the one remembered a greatest one. What a selection keeps nevertheless does
not depend on the order: it is never overfull, it remembers an element exactly as long as it keeps
one, and an element that finds no room displaces the very one that the selection shows as its least.

`Runs` says what offering and taking come to in terms of what runs on the heap. So no step can fail
to end or look outside the array, as none on the heap can.
-/
import Retention.Proofs.Heap.Reordered
import Retention.Proofs.Selection.Greatest

namespace Retention.Selection

universe u

variable {α : Type u} {cmp : α → α → Ordering} {n : Nat} {s t : Selection α} {x : α}

/-! ## Every operation runs -/

/-- An operation runs to an end, with this answer and this selection. The element to be displaced is
taken from the heap before the newcomer is put in. -/
inductive Runs (cmp : α → α → Ordering) :
    Selection α → Op α → Answer α → Selection α → Prop
  | enters {s : Selection α} {x : α} {heap : Heap α} (hroom : s.size < s.capacity)
      (hpush : Heap.Runs cmp s.heap (.push x) .done heap) :
      Runs cmp s (.push x) (.kept true)
        { s with heap, maximum := if s.raises cmp x then some x else s.maximum }
  | displaces {s : Selection α} {x least : α} {others heap : Heap α} (hfull : s.capacity ≤ s.size)
      (hleast : s.minimum = some least) (hless : cmp least x = .lt)
      (hpop : Heap.Runs cmp s.heap .pop (.element (some least)) others)
      (hpush : Heap.Runs cmp others (.push x) .done heap) :
      Runs cmp s (.push x) (.kept true)
        { s with
          heap
          maximum := if { s with heap := others }.raises cmp x then some x else s.maximum }
  | turnedAway {s : Selection α} {x : α} (hfull : s.capacity ≤ s.size)
      (hnot : ∀ least, s.minimum = some least → cmp least x ≠ .lt) :
      Runs cmp s (.push x) (.kept false) s
  | takes {s : Selection α} {out : Option α} {others : Heap α}
      (hpop : Heap.Runs cmp s.heap .pop (.element out) others) :
      Runs cmp s .pop (.element out)
        { s with heap := others, maximum := if others.isEmpty then none else s.maximum }

theorem runs_push (cmp : α → α → Ordering) (s : Selection α) (x : α) :
    Runs cmp s (.push x) (.kept (s.push cmp x).result) (s.push cmp x).state := by
  rcases push_cases cmp s x with
    ⟨hroom, hpush⟩ | ⟨least, hfull, hleast, hless, hpush⟩ | ⟨hfull, hnot, hpush⟩
  · rw [hpush]
    exact .enters hroom (Heap.runs_push cmp s.heap x)
  · -- There is an element to be displaced, so popping the heap hands out that one.
    have hpop : Heap.Runs cmp s.heap .pop (.element (some least)) (s.heap.withoutTop cmp) := by
      rw [Heap.runs_iff, Heap.perform, Heap.pop?_of_peek? cmp hleast]
      exact ⟨rfl, rfl⟩
    rw [hpush]
    exact .displaces hfull hleast hless hpop (Heap.runs_push cmp _ x)
  · rw [hpush]
    exact .turnedAway hfull hnot

/-- Taking from a selection without elements changes nothing, since nothing is remembered then. -/
theorem runs_pop (cmp : α → α → Ordering) (h : s.toList = [] → s.maximum = none) :
    Runs cmp s .pop (s.perform cmp .pop).result (s.perform cmp .pop).state := by
  rcases pop_cases cmp s with ⟨hnone, hpop⟩ | ⟨least, rest, htaken, hpop⟩
  · have hnil : s.toList = [] := List.eq_nil_of_length_eq_zero ((length_toList s).trans hnone)
    have hruns : Heap.Runs cmp s.heap .pop (.element none) s.heap := by
      rw [Heap.runs_iff, Heap.perform, Heap.pop?_eq_none_iff.mpr hnone]
      exact ⟨rfl, rfl⟩
    have hsame : { s with maximum := none } = s := by rw [← h hnil]
    have htakes := Runs.takes hruns
    rw [if_pos (Heap.isEmpty_iff_toList_eq_nil.mpr hnil), hsame] at htakes
    rw [hpop]
    exact htakes
  · have hruns : Heap.Runs cmp s.heap .pop (.element (some least)) rest := by
      rw [Heap.runs_iff, Heap.perform, htaken]
      exact ⟨rfl, rfl⟩
    rw [hpop]
    exact .takes hruns

theorem Runs.unique {op : Op α} {answer answer' : Answer α} {t' : Selection α}
    (h₁ : Runs cmp s op answer t) (h₂ : Runs cmp s op answer' t') : answer = answer' ∧ t = t' := by
  cases h₁ with
  | enters hroom hpush =>
      cases h₂ with
      | enters _ hpush' =>
          obtain ⟨-, rfl⟩ := hpush.unique hpush'
          exact ⟨rfl, rfl⟩
      | displaces hfull => exact absurd hroom (Nat.not_lt.mpr hfull)
      | turnedAway hfull => exact absurd hroom (Nat.not_lt.mpr hfull)
  | displaces hfull hleast hless hpop hpush =>
      cases h₂ with
      | enters hroom => exact absurd hroom (Nat.not_lt.mpr hfull)
      | displaces _ _ _ hpop' hpush' =>
          obtain ⟨-, rfl⟩ := hpop.unique hpop'
          obtain ⟨-, rfl⟩ := hpush.unique hpush'
          exact ⟨rfl, rfl⟩
      | turnedAway _ hnot => exact absurd hless (hnot _ hleast)
  | turnedAway hfull hnot =>
      cases h₂ with
      | enters hroom => exact absurd hroom (Nat.not_lt.mpr hfull)
      | displaces _ hleast hless => exact absurd hless (hnot _ hleast)
      | turnedAway => exact ⟨rfl, rfl⟩
  | takes hpop =>
      cases h₂ with
      | takes hpop' =>
          obtain ⟨hout, rfl⟩ := hpop.unique hpop'
          obtain rfl := Heap.Answer.element.inj hout
          exact ⟨rfl, rfl⟩

/-! ## Steadiness -/

/-- A selection that is not overfull and remembers an element exactly as long as it keeps one. -/
structure Steady (n : Nat) (s : Selection α) : Prop where
  bounded : Bounded n s
  maximum_eq_none_iff : s.maximum = none ↔ s.toList = []

theorem steady_create (n : Nat) : Steady n ({ capacity := n } : Selection α) where
  bounded := ⟨rfl, Nat.zero_le n⟩
  maximum_eq_none_iff := iff_of_true rfl rfl

theorem maximum_keep_ne_none (cmp : α → α → Ordering) (s : Selection α) (x : α) :
    (s.keep cmp x).maximum ≠ none := by
  unfold keep
  by_cases hraises : s.raises cmp x = true
  · rw [if_pos hraises]
    exact Option.some_ne_none x
  · rw [if_neg hraises]
    intro hnone
    apply hraises
    rw [raises, hnone]

theorem Steady.perform (hn : 0 < n) (h : Steady n s) (cmp : α → α → Ordering) (op : Op α) :
    Steady n (s.perform cmp op).state := by
  refine ⟨(h.bounded.perform hn cmp op).1, ?_⟩
  cases op with
  | push x =>
      show (s.push cmp x).state.maximum = none ↔ (s.push cmp x).state.toList = []
      rcases push_cases cmp s x with ⟨-, hpush⟩ | ⟨least, -, -, -, hpush⟩ | ⟨-, -, hpush⟩
      · rw [hpush]
        exact iff_of_false (maximum_keep_ne_none cmp _ x) (toList_keep_ne_nil cmp _ x)
      · rw [hpush]
        exact iff_of_false (maximum_keep_ne_none cmp _ x) (toList_keep_ne_nil cmp _ x)
      · rw [hpush]
        exact h.maximum_eq_none_iff
  | pop =>
      rcases pop_cases cmp s with ⟨-, hpop⟩ | ⟨least, rest, htaken, hpop⟩
      · rw [hpop]
        exact h.maximum_eq_none_iff
      · have hfilled : s.toList ≠ [] := by
          intro hnil
          have hperm : (least :: rest.toList).Perm s.toList := (Heap.pop?_eq_some htaken).2
          rw [hnil] at hperm
          exact absurd hperm.eq_nil (List.cons_ne_nil least _)
        rw [hpop]
        show (if rest.isEmpty then none else s.maximum) = none ↔ rest.toList = []
        rw [← Heap.isEmpty_iff_toList_eq_nil]
        by_cases hbare : rest.isEmpty = true
        · rw [if_pos hbare]
          exact iff_of_true rfl hbare
        · rw [if_neg hbare]
          exact iff_of_false (mt h.maximum_eq_none_iff.mp hfilled) hbare

/-- In such a selection every operation runs to what it was defined to give, and to nothing else. -/
theorem Steady.runs_iff (h : Steady n s) {op : Op α} {answer : Answer α} :
    Runs cmp s op answer t ↔
      (s.perform cmp op).result = answer ∧ (s.perform cmp op).state = t := by
  have hruns : Runs cmp s op (s.perform cmp op).result (s.perform cmp op).state := by
    cases op with
    | push x => exact runs_push cmp s x
    | pop => exact runs_pop cmp h.maximum_eq_none_iff.mpr
  constructor
  · intro hother
    exact hruns.unique hother
  · rintro ⟨rfl, rfl⟩
    exact hruns

/-! ## Elements put in and taken out -/

/-- One operation on a selection, with the comparison of its time. -/
def performAt (s : Selection α) (r : (α → α → Ordering) × Op α) :
    Step (Selection α) (Answer α) :=
  s.perform r.1 r.2

/-- The element that an operation puts in, if it is kept. -/
def accepted : ((α → α → Ordering) × Op α) × Answer α → List α
  | ((_, .push x), .kept true) => [x]
  | _ => []

/-- The elements that an answer hands out, at most one. -/
def Answer.leaving : Answer α → List α
  | .kept _ => []
  | .element x => x.toList

/-- The element that the selection shows as its least, if a newcomer is kept without room for it. -/
def displaced (s : Selection α) (r : (α → α → Ordering) × Op α) : List α :=
  match r.2 with
  | .push x => if s.size < s.capacity ∨ (s.push r.1 x).result = false then [] else s.minimum.toList
  | .pop => []

/-- What is kept and what an operation puts in is what it hands out and displaces and what is kept
then. -/
theorem perform_conserves (s : Selection α) (r : (α → α → Ordering) × Op α) :
    (s.toList ++ accepted (r, (s.performAt r).result)).Perm
      ((s.performAt r).result.leaving ++ s.displaced r ++ (s.performAt r).state.toList) := by
  obtain ⟨cmp, op⟩ := r
  cases op with
  | push x =>
      show (s.toList ++ accepted ((cmp, .push x), .kept (s.push cmp x).result)).Perm
        (s.displaced (cmp, .push x) ++ (s.push cmp x).state.toList)
      have hnew := List.perm_append_singleton x s.toList
      rcases push_cases cmp s x with
        ⟨hroom, hpush⟩ | ⟨least, hfull, hleast, hless, hpush⟩ | ⟨hfull, -, hpush⟩
      · have hdisplaced : s.displaced (cmp, .push x) = [] := if_pos (.inl hroom)
        rw [hdisplaced, hpush]
        exact hnew.trans (Heap.toList_push_perm cmp s.heap x).symm
      · have hdisplaced : s.displaced (cmp, .push x) = [least] := by
          simp [displaced, hpush, hleast, hfull]
        rw [hdisplaced, hpush]
        exact hnew.trans (displaced_perm hleast cmp x).symm
      · have hdisplaced : s.displaced (cmp, .push x) = [] := by
          simp [displaced, hpush]
        rw [hdisplaced, hpush]
        show (s.toList ++ []).Perm s.toList
        rw [List.append_nil]
  | pop =>
      show (s.toList ++ []).Perm
        ((s.perform cmp .pop).result.leaving ++ [] ++ (s.perform cmp .pop).state.toList)
      rw [List.append_nil, List.append_nil]
      rcases pop_cases cmp s with ⟨-, hpop⟩ | ⟨least, rest, htaken, hpop⟩
      · rw [hpop]
        exact .rfl
      · rw [hpop]
        exact (Heap.pop?_eq_some htaken).2.symm

/-! ## Runs -/

/-- Whatever the order of elements becomes while they are inside, heaps and selections go on. After
any run of operations, each with the comparison of its time, the next one runs to its end, to what
it was defined to give and to nothing else. Every element that was put in has been handed out, or
dropped with the heap it was in, or displaced, or it is there, once. Popping a heap hands out the
element on top. A selection with room for an element is never overfull and remembers one exactly as
long as it keeps one; what it gives up, for a newcomer or on demand, is what it showed as its least
element. -/
theorem run_survives_reordering {n : Nat} (hn : 0 < n) :
    (∀ (h : Heap α) (rs : List ((α → α → Ordering) × Heap.Op α)),
      let ran := Step.forEach Heap.performAt h rs
      let noted := Step.forEach (Step.noting Heap.dropped Heap.performAt) h rs
      (h.toList ++ rs.flatMap (·.2.entering)).Perm
          (ran.result.flatMap Heap.Answer.leaving ++ noted.result.flatMap Prod.snd ++
            ran.state.toList) ∧
        (∀ cmp op answer next, Heap.Runs cmp ran.state op answer next ↔
          (ran.state.perform cmp op).result = answer ∧ (ran.state.perform cmp op).state = next) ∧
        ∀ cmp, (ran.state.perform cmp .pop).result = .element ran.state.peek?) ∧
      ∃ fresh : Selection α, create n = .ok fresh ∧
        ∀ rs : List ((α → α → Ordering) × Op α),
          let ran := Step.forEach performAt fresh rs
          let noted := Step.forEach (Step.noting displaced performAt) fresh rs
          ((Step.transcript performAt fresh rs).flatMap accepted).Perm
              (ran.result.flatMap Answer.leaving ++ noted.result.flatMap Prod.snd ++
                ran.state.toList) ∧
            ran.state.size ≤ n ∧ (ran.state.maximum = none ↔ ran.state.size = 0) ∧
            (∀ cmp op answer next, Runs cmp ran.state op answer next ↔
              (ran.state.perform cmp op).result = answer ∧
                (ran.state.perform cmp op).state = next) ∧
            ∀ cmp op, Effect cmp n ran.state op (ran.state.perform cmp op) := by
  refine ⟨?_, { capacity := n }, if_neg (Nat.ne_of_gt hn), ?_⟩
  · intro h rs ran noted
    refine ⟨Heap.run_conserves h rs, ?_, ?_⟩
    · intro cmp op answer next
      exact Heap.runs_iff
    · intro cmp
      exact Heap.result_perform_pop cmp ran.state
  · intro rs ran noted
    have hsteady : Steady n ran.state := by
      apply Step.forEach_induction (P := Steady n)
      · intro s r h
        exact h.perform hn r.1 r.2
      · exact steady_create n
    refine ⟨?_, hsteady.bounded.size_le, ?_, ?_, ?_⟩
    · exact Step.noting_balances displaced performAt toList accepted Answer.leaving
        perform_conserves { capacity := n } rs
    · rw [hsteady.maximum_eq_none_iff, ← List.length_eq_zero_iff, length_toList]
    · intro cmp op answer next
      exact hsteady.runs_iff
    · intro cmp op
      exact (hsteady.bounded.perform hn cmp op).2

/-- The order is reversed while elements are inside, and turned back. The heap has 4 on top then and
pops it, the others stay. The selection displaced 1 for 0, remembers 0 as its greatest element and
shows 2 as its least one, and that is the one it gives. -/
theorem run_survives_reordering_reversed :
    let up : Nat → Nat → Ordering := compare
    let down : Nat → Nat → Ordering := fun x y => compare y x
    let ran := Step.forEach Heap.performAt Heap.empty
      [(up, .extend [1, 2, 3]), (down, .push 4), (up, .pop)]
    (ran.result.flatMap Heap.Answer.leaving = [4] ∧
        List.Perm [1, 2, 3, 4] (4 :: ran.state.toList) ∧ ran.state.peek? = some 1 ∧
        (ran.state.perform down .pop).result = .element ran.state.peek?) ∧
      0 < 2 ∧ ∃ fresh : Selection Nat, create 2 = .ok fresh ∧
        let last := (Step.forEach performAt fresh
          [(up, .push 1), (up, .push 2), (down, .push 0)]).state
        last.toList = [2, 0] ∧ last.size ≤ 2 ∧ last.maximum = some 0 ∧ last.minimum = some 2 ∧
          Effect up 2 last .pop (last.perform up .pop) := by
  intro up down ran
  obtain ⟨hheap, fresh, hfresh, hselection⟩ :=
    run_survives_reordering (α := Nat) (show 0 < 2 by decide)
  obtain ⟨hperm, -, htop⟩ := hheap Heap.empty
    [(up, .extend [1, 2, 3]), (down, .push 4), (up, .pop)]
  obtain ⟨-, hsize, -, -, heffect⟩ := hselection [(up, .push 1), (up, .push 2), (down, .push 0)]
  obtain rfl := Except.ok.inj hfresh
  have hout : ran.result.flatMap Heap.Answer.leaving = [4] := by decide +kernel
  rw [show Step.forEach Heap.performAt Heap.empty _ = ran from rfl, hout] at hperm
  refine ⟨⟨hout, hperm, ?_, htop down⟩, by decide, _, rfl, ?_, hsize, ?_, ?_, heffect up .pop⟩
  · decide +kernel
  · decide +kernel
  · decide +kernel
  · decide +kernel

end Retention.Selection
