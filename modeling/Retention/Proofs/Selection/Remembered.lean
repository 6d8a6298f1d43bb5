/-
# Retention.Proofs.Selection.Remembered -- where the maximum of a selection comes from

What a selection remembers as its maximum is a copy, kept apart from the heap and replaced by a
greater element only. Is the original still kept? Displacement never takes it: what is displaced is
less than the newcomer, and if that leaves the memory as it is, the element remembered is not less
than the newcomer. But taking can: among elements that all compare as equal the least one is also a
greatest one, and the heap may well have the original on top. Then the selection goes on to
remember an element that it has handed out.

So the maximum need not be an element kept. It was accepted at some time, it compares as equal to an
element kept, and it is missing only if it was handed out while others stayed that all compared as
equal to it. Where only equal elements compare as equal it is always kept.
-/
import Mathlib.Data.List.Induction
import Retention.Proofs.Selection.Greatest

namespace Retention.Selection

universe u

open Retention.Order (AtMost Peak)

variable {α : Type u} {cmp : α → α → Ordering} {n : Nat} {s : Selection α} {x m : α}

/-! ## One operation -/

/-- An element found after an operation was there before, or it was offered and accepted. -/
theorem Bounded.mem_toList_perform (hn : 0 < n) (h : Bounded n s) {op : Op α}
    (hx : x ∈ (s.perform cmp op).state.toList) :
    x ∈ s.toList ∨ op = .push x ∧ (s.perform cmp op).result = .kept true := by
  have heffect := (h.perform hn cmp op).2
  generalize s.perform cmp op = out at heffect hx
  cases heffect with
  | enters hroom hperm =>
      rcases List.mem_cons.mp (hperm.mem_iff.mp hx) with rfl | hold
      · exact .inr ⟨rfl, rfl⟩
      · exact .inl hold
  | displaces hfull hleast hless hperm =>
      rcases List.mem_cons.mp (hperm.mem_iff.mp (List.mem_cons_of_mem _ hx)) with rfl | hold
      · exact .inr ⟨rfl, rfl⟩
      · exact .inl hold
  | turnedAway => exact .inl hx
  | pops hleast hperm => exact .inl (hperm.mem_iff.mp (List.mem_cons_of_mem _ hx))
  | pops_nil => exact .inl hx

theorem mem_toList_keep (cmp : α → α → Ordering) (s : Selection α) (x : α) {y : α} :
    y ∈ (s.keep cmp x).toList ↔ y = x ∨ y ∈ s.toList :=
  (Heap.toList_push_perm cmp s.heap x).mem_iff.trans List.mem_cons

/-- What is remembered when an element was accepted is that element, or what was remembered before
and is not less. -/
theorem maximum_keep (hm : (s.keep cmp x).maximum = some m) :
    m = x ∨ s.maximum = some m ∧ cmp m x ≠ .lt := by
  unfold keep at hm
  by_cases hraises : s.raises cmp x = true
  · rw [if_pos hraises] at hm
    exact .inl (Option.some.inj hm).symm
  · rw [if_neg hraises] at hm
    refine .inr ⟨hm, fun hless => hraises (raises_iff.mpr (.inr ?_))⟩
    rintro k hk
    rwa [← Option.some.inj (hm.symm.trans hk)]

/-- An element is handed out with others left, all of which compare as equal to it. -/
def HandsOut (cmp : α → α → Ordering) (s : Selection α) (m : α) : Prop :=
  (s.perform cmp .pop).result = .element (some m) ∧ (s.perform cmp .pop).state.toList ≠ [] ∧
    ∀ y ∈ s.toList, cmp m y = .eq

/-- After an offer, what is remembered is the element offered, which was accepted, or the same as
before; and in that case it is still there if it was. -/
theorem maximum_push (hm : (s.push cmp x).state.maximum = some m) :
    (m = x ∧ (s.push cmp x).result = true ∧ x ∈ (s.push cmp x).state.toList) ∨
      s.maximum = some m ∧ (m ∈ s.toList → m ∈ (s.push cmp x).state.toList) := by
  rcases push_cases cmp s x with ⟨-, hpush⟩ | ⟨least, -, hleast, hless, hpush⟩ | ⟨-, -, hpush⟩
  · rw [hpush] at hm ⊢
    rcases maximum_keep hm with rfl | ⟨hsame, -⟩
    · exact .inl ⟨rfl, rfl, (mem_toList_keep cmp s m).mpr (.inl rfl)⟩
    · exact .inr ⟨hsame, fun hold => (mem_toList_keep cmp s x).mpr (.inr hold)⟩
  · rw [hpush] at hm ⊢
    rcases maximum_keep hm with rfl | ⟨hsame, hnotLess⟩
    · exact .inl ⟨rfl, rfl, (mem_toList_keep cmp _ m).mpr (.inl rfl)⟩
    · refine .inr ⟨hsame, fun hold => (mem_toList_keep cmp _ x).mpr (.inr ?_)⟩
      -- What is displaced is less than the newcomer, and what is remembered is not.
      have hperm := (Heap.pop?_eq_some (Heap.pop?_of_peek? cmp hleast)).2
      rcases List.mem_cons.mp (hperm.mem_iff.mpr hold) with rfl | hrest
      · exact absurd hless hnotLess
      · exact hrest
  · rw [hpush] at hm ⊢
    exact .inr ⟨hm, id⟩

/-- After a wish for an element, what is remembered is the same as before. If it was kept it is
still there, unless it was handed out while others stayed that compare as equal to it. -/
theorem Informed.maximum_pop [Std.TransCmp cmp] (h : Informed cmp n s)
    (hm : (s.perform cmp .pop).state.maximum = some m) :
    s.maximum = some m ∧
      (m ∈ s.toList → m ∈ (s.perform cmp .pop).state.toList ∨ HandsOut cmp s m) := by
  unfold HandsOut
  rcases pop_cases cmp s with ⟨-, hpop⟩ | ⟨least, rest, htaken, hpop⟩
  · rw [hpop] at hm ⊢
    exact ⟨hm, .inl⟩
  · rw [hpop] at hm ⊢
    obtain ⟨hleast, hperm⟩ := Heap.pop?_eq_some htaken
    have hsome : ¬ rest.isEmpty = true := by
      intro hbare
      rw [if_pos hbare] at hm
      exact Option.some_ne_none m hm.symm
    rw [if_neg hsome] at hm
    refine ⟨hm, fun hold => ?_⟩
    rcases List.mem_cons.mp (hperm.mem_iff.mpr hold) with rfl | hrest
    · -- What is handed out is a least one and a greatest one, so all the others are like it.
      refine .inr ⟨rfl, mt Heap.isEmpty_iff_toList_eq_nil.mpr hsome, fun y hy => ?_⟩
      exact AtMost.antisymm (h.sound.minimum_atMost hleast hy) ((h.peak hm).bound y hy)
    · exact .inl hrest

/-! ## Runs -/

/-- At some time in a run the element remembered was handed out, and others stayed that all compared
as equal to it. -/
def HandedOut (cmp : α → α → Ordering) (s : Selection α) (ops : List (Op α)) (m : α) : Prop :=
  ∃ before after, ops = before ++ .pop :: after ∧
    let met := (Step.forEach (perform cmp) s before).state
    met.maximum = some m ∧ HandsOut cmp met m

theorem HandedOut.concat {ops : List (Op α)} (h : HandedOut cmp s ops m) (op : Op α) :
    HandedOut cmp s (ops ++ [op]) m := by
  obtain ⟨before, after, rfl, hmet⟩ := h
  exact ⟨before, after ++ [op], by rw [List.append_assoc, List.cons_append], hmet⟩

/-- The element was offered in the run and accepted. -/
def Accepted (cmp : α → α → Ordering) (s : Selection α) (ops : List (Op α)) (x : α) : Prop :=
  (Op.push x, Answer.kept true) ∈ Step.transcript (perform cmp) s ops

theorem accepted_concat {ops : List (Op α)} {op : Op α} :
    Accepted cmp s (ops ++ [op]) x ↔ Accepted cmp s ops x ∨ op = .push x ∧
      ((Step.forEach (perform cmp) s ops).state.perform cmp op).result = .kept true := by
  rw [Accepted, Step.transcript_concat, List.mem_append, List.mem_singleton, Prod.mk.injEq,
    eq_comm (a := Op.push x), eq_comm (a := Answer.kept true)]
  rfl

/-- In a run from `s` every element kept was accepted, and the one remembered too; that one is still
kept, or it was handed out. -/
structure Traced (cmp : α → α → Ordering) (n : Nat) (s : Selection α) (ops : List (Op α)) :
    Prop where
  informed : Informed cmp n (Step.forEach (perform cmp) s ops).state
  kept : ∀ x ∈ (Step.forEach (perform cmp) s ops).state.toList, Accepted cmp s ops x
  remembered : ∀ m, (Step.forEach (perform cmp) s ops).state.maximum = some m →
    Accepted cmp s ops m ∧
      (m ∈ (Step.forEach (perform cmp) s ops).state.toList ∨ HandedOut cmp s ops m)

theorem traced_create [Std.TransCmp cmp] :
    Traced cmp n ({ capacity := n } : Selection α) [] where
  informed := informed_create cmp n
  kept _ hx := absurd hx List.not_mem_nil
  remembered _ hm := absurd hm.symm (Option.some_ne_none _)

/-- One more operation. -/
theorem Traced.concat [Std.TransCmp cmp] (hn : 0 < n) {ops : List (Op α)}
    (h : Traced cmp n s ops) (op : Op α) : Traced cmp n s (ops ++ [op]) := by
  obtain ⟨hinformed, hkept, hremembered⟩ := h
  have hbounded : Bounded n (Step.forEach (perform cmp) s ops).state :=
    ⟨hinformed.sound.capacity_eq, hinformed.sound.size_le⟩
  constructor
  · rw [Step.state_forEach_concat]
    exact hinformed.perform hn op
  · rw [Step.state_forEach_concat]
    intro x hx
    rcases hbounded.mem_toList_perform hn hx with hold | hnew
    · exact accepted_concat.mpr (.inl (hkept x hold))
    · exact accepted_concat.mpr (.inr hnew)
  · rw [Step.state_forEach_concat]
    intro m hm
    cases op with
    | push x =>
        rcases maximum_push hm with ⟨rfl, hresult, hmem⟩ | ⟨hsame, hstays⟩
        · refine ⟨accepted_concat.mpr (.inr ⟨rfl, ?_⟩), .inl hmem⟩
          exact congrArg Answer.kept hresult
        · obtain ⟨haccepted, hthere⟩ := hremembered m hsame
          refine ⟨accepted_concat.mpr (.inl haccepted), ?_⟩
          exact hthere.imp hstays fun hgone => hgone.concat (.push x)
    | pop =>
        obtain ⟨hsame, hstays⟩ := hinformed.maximum_pop hm
        obtain ⟨haccepted, hthere⟩ := hremembered m hsame
        refine ⟨accepted_concat.mpr (.inl haccepted), ?_⟩
        rcases hthere with hthere | hgone
        · refine (hstays hthere).imp_right fun hout => ?_
          exact ⟨ops, [], rfl, hsame, hout⟩
        · exact .inr (hgone.concat .pop)

theorem traced_run (cmp : α → α → Ordering) [Std.TransCmp cmp] (hn : 0 < n) (ops : List (Op α)) :
    Traced cmp n ({ capacity := n } : Selection α) ops := by
  -- What was handed out before stays so, hence the induction is at the end of the run.
  induction ops using List.reverseRecOn with
  | nil => exact traced_create
  | append_singleton ops op ih => exact ih.concat hn op

/-- A selection with room for an element remembers none exactly if it keeps none. What it remembers
was offered and accepted, it compares as equal to an element kept, and it is still kept, unless at
some time it was remembered and handed out while others stayed, all of which compared as equal to
it. If no two different elements offered compare as equal, it is always kept. -/
theorem run_remembers_kept_or_handed_out (cmp : α → α → Ordering) [Std.TransCmp cmp] {n : Nat}
    (hn : 0 < n) :
    ∃ fresh : Selection α, create n = .ok fresh ∧
      ∀ ops : List (Op α),
        let s := (Step.forEach (perform cmp) fresh ops).state
        (s.maximum = none ↔ s.toList = []) ∧
          ∀ m, s.maximum = some m →
            Accepted cmp fresh ops m ∧ (∃ y ∈ s.toList, cmp m y = .eq) ∧
              (m ∈ s.toList ∨ HandedOut cmp fresh ops m) ∧
              ((∀ x y, Op.push x ∈ ops → Op.push y ∈ ops → cmp x y = .eq → x = y) →
                m ∈ s.toList) := by
  refine ⟨{ capacity := n }, if_neg (Nat.ne_of_gt hn), fun ops => ?_⟩
  obtain ⟨hinformed, hkept, hremembered⟩ := traced_run cmp hn ops
  refine ⟨hinformed.maximum_eq_none_iff, fun m hm => ?_⟩
  obtain ⟨haccepted, hthere⟩ := hremembered m hm
  obtain ⟨y, hy, heq⟩ := (hinformed.peak hm).attained
  refine ⟨haccepted, ⟨y, hy, heq⟩, hthere, fun hdiffer => ?_⟩
  have hoffered : ∀ {x}, Accepted cmp { capacity := n } ops x → Op.push x ∈ ops :=
    fun hx => (List.of_mem_zip hx).1
  rwa [hdiffer m y (hoffered haccepted) (hoffered (hkept y hy)) heq]

/-- Room for two. Of three elements that all differ, the greatest is kept when the least but one has
left. Of two that compare as equal, the one remembered leaves first. -/
theorem run_remembers_kept_or_handed_out_tied :
    0 < 2 ∧ ∃ fresh : Selection (Nat × Nat), create 2 = .ok fresh ∧
      let cmp := compareOn Prod.fst
      let apart := (Step.forEach (perform cmp) fresh
        [.push (1, 0), .push (3, 1), .push (2, 0), .pop]).state
      let tied := (Step.forEach (perform cmp) fresh [.push (2, 0), .push (2, 1), .pop]).state
      apart.maximum = some (3, 1) ∧ (3, 1) ∈ apart.toList ∧
        tied.maximum = some (2, 0) ∧ (2, 0) ∉ tied.toList ∧
        HandedOut cmp fresh [.push (2, 0), .push (2, 1), .pop] (2, 0) := by
  refine ⟨by decide, ?_⟩
  obtain ⟨fresh, hfresh, hrun⟩ :=
    run_remembers_kept_or_handed_out (compareOn (Prod.fst : Nat × Nat → Nat)) (n := 2) (by decide)
  obtain ⟨-, hapart⟩ := hrun [.push (1, 0), .push (3, 1), .push (2, 0), .pop]
  obtain ⟨-, htied⟩ := hrun [.push (2, 0), .push (2, 1), .pop]
  cases Except.ok.inj hfresh
  have hgreatest : (Step.forEach (perform (compareOn (Prod.fst : Nat × Nat → Nat)))
      { capacity := 2 } [.push (1, 0), .push (3, 1), .push (2, 0), .pop]).state.maximum =
        some (3, 1) := by
    decide +kernel
  have hfirst : (Step.forEach (perform (compareOn (Prod.fst : Nat × Nat → Nat)))
      { capacity := 2 } [.push (2, 0), .push (2, 1), .pop]).state.maximum = some (2, 0) := by
    decide +kernel
  have hgone : (2, 0) ∉ (Step.forEach (perform (compareOn (Prod.fst : Nat × Nat → Nat)))
      { capacity := 2 } [.push (2, 0), .push (2, 1), .pop]).state.toList := by
    decide +kernel
  obtain ⟨-, -, -, hkept⟩ := hapart _ hgreatest
  obtain ⟨-, -, hthere, -⟩ := htied _ hfirst
  refine ⟨_, rfl, hgreatest, hkept ?_, hfirst, hgone, hthere.resolve_left hgone⟩
  -- The three elements offered differ in what is compared.
  intro x y hx hy heq
  simp only [List.mem_cons, Op.push.injEq, reduceCtorEq, List.not_mem_nil, or_false] at hx hy
  rcases hx with rfl | rfl | rfl <;> rcases hy with rfl | rfl | rfl <;> first | rfl | cases heq

/-- It is not so that a selection that keeps elements always remembers one of these: of two that
compare as equal, the one remembered leaves first. -/
theorem maximum_not_always_kept :
    ¬ ∀ (n : Nat) (ops : List (Op (Nat × Nat))), 0 < n →
      let s := (Step.forEach (perform (compareOn Prod.fst)) { capacity := n } ops).state
      s.toList ≠ [] → ∃ m ∈ s.toList, s.maximum = some m := by
  intro hall
  have hkept := hall 2 [.push (2, 0), .push (2, 1), .pop] (by decide)
  revert hkept
  decide +kernel

end Retention.Selection
