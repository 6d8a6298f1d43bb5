/-
# Retention.Proofs.Cache.AsQueue -- while every key is new, a cache is a queue

A cache gives up what was used least recently, a queue what came first. The two differ only because
an addition under a known key makes an old entry recent again; in a run without such additions the
least recent value is the oldest one.

They get there in opposite orders. A cache puts the new value in front and then evicts the one at
the back, if that is one too many; a queue lets the oldest leave and then takes the new one in. With
room for one, the cache holds two values for a moment and the queue none. So their slots differ, and
what is kept from move to move is only that both hold the same list of values.
-/
import Mathlib
import Retention.Proofs.Cache.Register
import Retention.Proofs.Queue.InOrder

namespace Retention

universe u v

variable {κ : Type u} {α : Type v}

/-! ## The same moves for a queue -/

/-- One move of a queue. The result is the value that it hands back, if any. -/
def Queue.perform (q : Queue α) : Cache.Move α → Step (Queue α) (Option α)
  | .add x => q.push x
  | .evict =>
    match q.dequeue? with
    | some (oldest, rest) => { state := rest, result := some oldest.value }
    | none => { state := q, result := none }
  | .clear => { state := q.clear, result := none }

namespace Queue

variable {capacity : Nat} {q : Queue α} {xs : List α}

/-- A line of the newest values, read from the other end. -/
theorem Holds.push (h : Holds capacity q xs.reverse) (x : α) :
    if capacity < xs.length + 1 then
      Holds capacity (q.push x).state (x :: xs).dropLast.reverse ∧
        (q.push x).result = (x :: xs).getLast?
    else
      Holds capacity (q.push x).state (x :: xs).reverse ∧ (q.push x).result = none := by
  have hline : (x :: xs).reverse = xs.reverse ++ [x] := List.reverse_cons
  split
  · next hfull =>
    have hlength : capacity ≤ xs.reverse.length := by
      rw [List.length_reverse]
      exact Nat.le_of_lt_succ hfull
    obtain ⟨oldest, ys, p, hsplit, hp, henqueue⟩ := h.enqueue_of_full hlength ⟨x⟩
    -- The first of the line is the last in the list.
    have hlast : x :: xs = ys.reverse ++ [oldest] := by
      rw [← List.reverse_cons, ← hsplit, List.reverse_append, List.reverse_reverse]
      rfl
    rw [Queue.push, henqueue, hlast, List.dropLast_concat, List.getLast?_concat,
      List.reverse_reverse]
    exact ⟨hp, rfl⟩
  · next hroom =>
    have hlength : xs.reverse.length < capacity := by
      rw [List.length_reverse]
      exact Nat.lt_of_succ_le (Nat.le_of_not_lt hroom)
    rw [Queue.push, h.enqueue_of_room hlength ⟨x⟩, hline]
    exact ⟨h.enter hlength ⟨x⟩, rfl⟩

theorem Holds.perform_evict (h : Holds capacity q xs.reverse) :
    Holds capacity (q.perform .evict).state xs.dropLast.reverse ∧
      (q.perform .evict).result = xs.getLast? := by
  rcases List.eq_nil_or_concat' xs with rfl | ⟨xs, x, rfl⟩
  · rw [perform, h.dequeue?_nil]
    exact ⟨h, rfl⟩
  · rw [List.reverse_append] at h
    obtain ⟨p, hdequeue, hp⟩ := h.dequeue?_cons
    rw [perform, hdequeue, List.dropLast_concat, List.getLast?_concat]
    exact ⟨hp, rfl⟩

theorem Holds.clear (h : Holds capacity q xs) : Holds capacity q.clear [] := by
  have hclear : q.clear = create capacity := by
    rw [← h.capacity_eq]
    rfl
  rw [hclear]
  exact holds_create capacity

end Queue

namespace Cache

variable [BEq κ] [Hashable κ] {keyOf : α → κ} {capacity : Nat} {c : Cache κ α} {q : Queue α}

/-- A move that adds nothing, or a value whose key the cache does not know. -/
def AddsNewKey (keyOf : α → κ) (c : Cache κ α) : Move α → Prop
  | .add x => c.contains (keyOf x) = false
  | .evict | .clear => True

/-- A cache and a queue of the same capacity hold the same values in the same order. -/
def SameValues (keyOf : α → κ) (capacity : Nat) (c : Cache κ α) (q : Queue α) : Prop :=
  ∃ xs, Mirrors keyOf capacity c xs ∧ Queue.Holds capacity q xs.reverse

theorem SameValues.reads (h : SameValues keyOf capacity c q) [EquivBEq κ] [LawfulHashable κ] :
    c.toList = q.toList ∧ c.size = q.size := by
  obtain ⟨xs, hc, hq⟩ := h
  have hshows := hc.holds.shows
  rw [hshows.toList_eq, hshows.size_eq, hq.toList_eq, hq.size_eq, List.reverse_reverse,
    List.length_reverse]
  exact ⟨rfl, rfl⟩

variable [EquivBEq κ] [LawfulHashable κ]

/-- A value of a new key enters both, and for it the same value leaves both, if any. -/
theorem SameValues.add (h : SameValues keyOf capacity c q) {x : α}
    (hnew : c.contains (keyOf x) = false) :
    SameValues keyOf capacity (c.add keyOf x).state (q.push x).state ∧
      (c.add keyOf x).result = (q.push x).result := by
  obtain ⟨xs, hc, hq⟩ := h
  have hne : ∀ y ∈ xs, (keyOf y == keyOf x) = false := by
    intro y hy
    rw [Bool.eq_false_iff]
    intro hyx
    have hknown := (hc.holds.shows.contains_iff (keyOf x)).mpr ⟨y, hy, hyx⟩
    rw [hnew] at hknown
    cases hknown
  obtain ⟨hadd, hresult⟩ := hc.add x
  have hpush := hq.push x
  rw [Recency.add_of_new hne] at hadd hresult
  split at hpush
  · next hfull =>
    rw [if_pos hfull] at hadd hresult
    exact ⟨⟨_, hadd, hpush.1⟩, hresult.trans hpush.2.symm⟩
  · next hroom =>
    rw [if_neg hroom] at hadd hresult
    exact ⟨⟨_, hadd, hpush.1⟩, hresult.trans hpush.2.symm⟩

/-- A cache and a queue that hold the same values make the same of a move, unless it adds a value of
a known key. -/
theorem SameValues.perform (h : SameValues keyOf capacity c q) (move : Move α)
    (hnew : c.AddsNewKey keyOf move) :
    SameValues keyOf capacity (c.perform keyOf move).state (q.perform move).state ∧
      (c.perform keyOf move).result = (q.perform move).result := by
  cases move with
  | add x => exact h.add hnew
  | evict =>
      obtain ⟨xs, hc, hq⟩ := h
      obtain ⟨hevict, hresult⟩ := hc.evict
      obtain ⟨hleave, holdest⟩ := hq.perform_evict
      exact ⟨⟨_, hevict, hleave⟩, hresult.trans holdest.symm⟩
  | clear =>
      obtain ⟨xs, hc, hq⟩ := h
      exact ⟨⟨[], hc.clear, hq.clear⟩, rfl⟩

/-- Let a cache and a queue have room for the same number of values, and let them be handed the same
values to add and told alike when to let one leave and when to be cleared. If the cache never knows
the key of a value that is added, then with every move the same value leaves both, or none does,
and after every move both hold the same values in the same order. -/
theorem run_acts_as_queue (keyOf : α → κ) (capacity : Nat) (hc : 0 < capacity) :
    ∃ fresh : Cache κ α, create capacity = .ok fresh ∧
      ∀ moves, Step.Admitted (perform keyOf) (AddsNewKey keyOf) fresh moves →
        ∀ before after, moves = before ++ after →
          let cached := Step.forEach (perform keyOf) fresh before
          let queued := Step.forEach Queue.perform (Queue.create capacity) before
          cached.result = queued.result ∧ cached.state.toList = queued.state.toList ∧
            cached.state.size = queued.state.size := by
  obtain ⟨fresh, hfresh, hempty⟩ := mirrors_create (α := α) keyOf hc
  refine ⟨fresh, hfresh, ?_⟩
  rintro moves hmoves before after rfl
  have hstart : SameValues keyOf capacity fresh (Queue.create capacity) :=
    ⟨[], hempty, Queue.holds_create capacity⟩
  obtain ⟨hlast, hresults⟩ := Step.forEach_simulates_of_admitted
    (fun _ _ move h hnew => h.perform move hnew) hstart hmoves.of_append
  exact ⟨hresults, hlast.reads⟩

/-- Room for one. The value 1 leaves for 2, and 2 when it is told to; then the key 1 is new again,
and a cleared cache knows no key. -/
theorem run_acts_as_queue_with_room_for_one :
    0 < 1 ∧ ∃ fresh : Cache Nat Nat, create 1 = .ok fresh ∧
      let moves : List (Move Nat) := [.add 1, .add 2, .evict, .add 1, .clear, .evict, .add 1]
      Step.Admitted (perform id) (AddsNewKey id) fresh moves ∧
        let cached := Step.forEach (perform id) fresh moves
        let queued := Step.forEach Queue.perform (Queue.create 1) moves
        cached.result = queued.result ∧
          queued.result = [none, some 1, some 2, none, none, none, none] ∧
          cached.state.toList = [1] := by
  refine ⟨by decide, ?_⟩
  obtain ⟨fresh, hfresh, hagree⟩ := run_acts_as_queue (id : Nat → Nat) 1 (by decide)
  obtain rfl : ({ capacity := 1 } : Cache Nat Nat) = fresh := Except.ok.inj hfresh
  have hmoves : Step.Admitted (perform id) (AddsNewKey id) ({ capacity := 1 } : Cache Nat Nat)
      [.add 1, .add 2, .evict, .add 1, .clear, .evict, .add 1] := by
    simp only [Step.admitted_cons, Step.admitted_nil, and_true]
    refine ⟨?_, ?_, trivial, ?_, trivial, trivial, ?_⟩
    all_goals cbv
  obtain ⟨hresult, hlist, -⟩ := hagree _ hmoves _ [] (List.append_nil _).symm
  refine ⟨_, rfl, hmoves, hresult, ?_, hlist.trans ?_⟩
  · rfl
  · rfl

end Cache

end Retention
