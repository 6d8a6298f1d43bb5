/-
# Retention.Proofs.Visitor -- what a visitor sees

A visitor decides on what it is shown and on what it remembers, so what it will decline cannot be
told from the elements alone. `Sees` says it all the same: of all beginnings of the list whose last
element the visitor declines, having been shown the others, it sees the shortest; and if there is
none, the whole list. To know what a visitor was shown, it is made to keep a record, which does not
change its decisions. A visitor that only collects what it is shown ends up with the whole list.
-/
import Mathlib.Data.List.Basic
import Retention.Visit

namespace Retention

universe u v

/-! ## The shortest beginning that ends with a refusal -/

variable {α : Type u} {σ : Type v} {visitor : σ → α → σ × Bool} {memory : σ} {xs seen : List α}
  {x : α}

/-- What a visitor remembers when it has been shown these elements. -/
def remembered (visitor : σ → α → σ × Bool) (memory : σ) (seen : List α) : σ :=
  seen.foldl (fun memory x => (visitor memory x).1) memory

/-- Having been shown the others, the visitor declines the last of these elements. -/
def DeclinesLast (visitor : σ → α → σ × Bool) (memory : σ) (xs : List α) : Prop :=
  ∃ before x, xs = before ++ [x] ∧ (visitor (remembered visitor memory before) x).2 = false

/-- The shortest beginning of a list whose last element the visitor declines, or the whole list if
it declines none. -/
structure Sees (visitor : σ → α → σ × Bool) (memory : σ) (xs seen : List α) : Prop where
  beginning : ∃ rest, xs = seen ++ rest
  ends : DeclinesLast visitor memory seen ∨ seen = xs
  shortest : ∀ before after, xs = before ++ after → DeclinesLast visitor memory before →
    seen.length ≤ before.length

/-- The same visitor, keeping a record of what it is shown. -/
def recording (visitor : σ → α → σ × Bool) (memory : σ × List α) (x : α) : (σ × List α) × Bool :=
  (((visitor memory.1 x).1, memory.2 ++ [x]), (visitor memory.1 x).2)

/-- The visitor that collects all that it is shown and never declines. -/
def collecting (seen : List α) (x : α) : List α × Bool := (seen ++ [x], true)

/-- Whatever it is shown, the visitor wants to go on as long as it has seen less than `k`. -/
def StopsAfter (k : Nat) (visitor : σ → α → σ × Bool) (memory : σ) : Prop :=
  ∀ before x, (visitor (remembered visitor memory before) x).2 = decide (before.length + 1 < k)

theorem not_declinesLast_nil : ¬ DeclinesLast visitor memory [] := by
  rintro ⟨before, x, hnil, -⟩
  exact List.append_ne_nil_of_right_ne_nil before (List.cons_ne_nil x []) hnil.symm

theorem declinesLast_cons_iff : DeclinesLast visitor memory (x :: xs) ↔
    xs = [] ∧ (visitor memory x).2 = false ∨ DeclinesLast visitor (visitor memory x).1 xs := by
  constructor
  · rintro ⟨before, y, hsplit, hno⟩
    cases before with
    | nil =>
        obtain ⟨rfl, rfl⟩ := List.cons.inj hsplit
        exact .inl ⟨rfl, hno⟩
    | cons z before =>
        obtain ⟨rfl, rfl⟩ := List.cons.inj hsplit
        exact .inr ⟨before, y, rfl, hno⟩
  · rintro (⟨rfl, hno⟩ | ⟨before, y, rfl, hno⟩)
    · exact ⟨[], x, rfl, hno⟩
    · exact ⟨x :: before, y, rfl, hno⟩

theorem sees_nil : Sees visitor memory [] [] where
  beginning := ⟨[], rfl⟩
  ends := .inr rfl
  shortest _ _ _ _ := Nat.zero_le _

/-- What is declined is the last that is seen. -/
theorem sees_of_declined (hno : (visitor memory x).2 = false) :
    Sees visitor memory (x :: xs) [x] where
  beginning := ⟨xs, rfl⟩
  ends := .inl (declinesLast_cons_iff.mpr (.inl ⟨rfl, hno⟩))
  shortest before after _ hlast := by
    apply List.length_pos_iff.mpr
    rintro rfl
    exact not_declinesLast_nil hlast

/-- After an element that is not declined the visit goes on, with what the visitor remembers. -/
theorem Sees.cons (hyes : (visitor memory x).2 = true)
    (h : Sees visitor (visitor memory x).1 xs seen) : Sees visitor memory (x :: xs) (x :: seen) := by
  obtain ⟨⟨rest, hrest⟩, hends, hshortest⟩ := h
  refine ⟨⟨rest, congrArg (x :: ·) hrest⟩, ?_, ?_⟩
  · exact hends.imp (fun hlast => declinesLast_cons_iff.mpr (.inr hlast)) (congrArg (x :: ·))
  · intro before after hsplit hlast
    cases before with
    | nil => exact absurd hlast not_declinesLast_nil
    | cons y before =>
        obtain ⟨rfl, hbefore⟩ := List.cons.inj hsplit
        rcases declinesLast_cons_iff.mp hlast with ⟨-, hno⟩ | hlater
        · rw [hyes] at hno
          cases hno
        · exact Nat.succ_le_succ (hshortest before after hbefore hlater)

theorem Sees.length_le {seen' : List α} (h : Sees visitor memory xs seen)
    (h' : Sees visitor memory xs seen') : seen.length ≤ seen'.length := by
  obtain ⟨rest', hrest'⟩ := h'.beginning
  rcases h'.ends with hlast | rfl
  · exact h.shortest seen' rest' hrest' hlast
  · obtain ⟨rest, hrest⟩ := h.beginning
    rw [hrest, List.length_append]
    exact Nat.le_add_right _ _

/-- There is only one such beginning. -/
theorem Sees.unique {seen' : List α} (h : Sees visitor memory xs seen)
    (h' : Sees visitor memory xs seen') : seen = seen' := by
  obtain ⟨rest, hrest⟩ := h.beginning
  obtain ⟨rest', hrest'⟩ := h'.beginning
  have hlength := Nat.le_antisymm (h.length_le h') (h'.length_le h)
  exact (List.append_inj (hrest.symm.trans hrest') hlength).1

/-- A visitor that stops after `k` elements sees the first `k`. -/
theorem sees_take {k : Nat} (hk : 0 < k) (hstops : StopsAfter k visitor memory) (xs : List α) :
    Sees visitor memory xs (xs.take k) where
  beginning := ⟨xs.drop k, (List.take_append_drop k xs).symm⟩
  ends := by
    by_cases hlength : xs.length < k
    · exact .inr (List.take_of_length_le (Nat.le_of_lt hlength))
    · -- The last of the first `k` is one too many for the visitor to go on.
      have hfull : (xs.take k).length = k := List.length_take_of_le (Nat.le_of_not_lt hlength)
      rcases List.eq_nil_or_concat' (xs.take k) with hnil | ⟨before, x, hlast⟩
      · rw [hnil] at hfull
        exact absurd hfull (Nat.ne_of_lt hk)
      · refine .inl ⟨before, x, hlast, ?_⟩
        rw [hlast, List.length_append, List.length_singleton] at hfull
        rw [hstops before x, hfull]
        exact decide_eq_false (Nat.lt_irrefl k)
  shortest before after _ hlast := by
    obtain ⟨earlier, x, rfl, hno⟩ := hlast
    rw [hstops earlier x, decide_eq_false_iff_not, Nat.not_lt] at hno
    rw [List.length_append]
    exact Nat.le_trans (List.length_take_le k xs) hno

/-- A visitor that keeps a record has seen what it should see, and remembers the same. -/
theorem visit_recording (visitor : σ → α → σ × Bool) (memory : σ) (noted xs : List α) :
    ∃ seen, Sees visitor memory xs seen ∧
      visit visitor memory xs = remembered visitor memory seen ∧
      visit (recording visitor) (memory, noted) xs = (visit visitor memory xs, noted ++ seen) := by
  induction xs generalizing memory noted with
  | nil => exact ⟨[], sees_nil, rfl, by rw [List.append_nil]; rfl⟩
  | cons x xs ih =>
      rw [visit_cons, visit_cons, recording]
      cases hyes : (visitor memory x).2 with
      | false => exact ⟨[x], sees_of_declined hyes, rfl, rfl⟩
      | true =>
          obtain ⟨seen, hseen, hmemory, hnoted⟩ := ih (visitor memory x).1 (noted ++ [x])
          refine ⟨x :: seen, hseen.cons hyes, hmemory, ?_⟩
          rw [List.append_assoc, List.singleton_append] at hnoted
          exact hnoted

/-- A visit of these elements that ended with `last` in memory, and with `noted` if a record was
kept, has shown the visitor what it should see. -/
structure UntilDeclined (visitor : σ → α → σ × Bool) (memory : σ) (xs : List α) (last : σ)
    (noted : σ × List α) : Prop where
  unchanged : noted.1 = last
  recalled : last = remembered visitor memory noted.2
  sees : Sees visitor memory xs noted.2
  first : ∀ k, 0 < k → StopsAfter k visitor memory →
    noted.2 = xs.take k ∧ noted.2.length = min k xs.length

theorem untilDeclined_visit (visitor : σ → α → σ × Bool) (memory : σ) (xs : List α) :
    UntilDeclined visitor memory xs (visit visitor memory xs)
      (visit (recording visitor) (memory, []) xs) := by
  obtain ⟨seen, hseen, hmemory, hnoted⟩ := visit_recording visitor memory [] xs
  rw [hnoted, List.nil_append]
  refine ⟨rfl, hmemory, hseen, fun k hk hstops => ?_⟩
  obtain rfl := hseen.unique (sees_take hk hstops xs)
  exact ⟨rfl, List.length_take⟩

theorem visit_collecting (seen xs : List α) : visit collecting seen xs = seen ++ xs := by
  induction xs generalizing seen with
  | nil => exact (List.append_nil seen).symm
  | cons x xs ih =>
      rw [visit_cons, collecting, if_pos rfl, ih (seen ++ [x]), List.append_assoc,
        List.singleton_append]

end Retention
