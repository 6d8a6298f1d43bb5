/-
# Retention.Proofs.Batcher.Recent -- a batcher is a list of arrivals

What a batcher does can be said without slots: it is a list of values with the instants at which
they entered, the oldest first. `Recent` says what each request does to such a list and what it
answers. The instants may be in any order, so a clock may also run backwards; what is dropped is
always the longest stale stretch at the old end. A batcher serves every run of requests as the list
does, and between two requests it is never full: so a value that enters always finds an empty slot,
and dropping never meets one.
-/
import Retention.Batcher.Basic
import Retention.Proofs.Ring.Window
import Retention.Proofs.Run

namespace Retention

universe u

variable {α : Type u}

/-! ## Requests -/

namespace Batcher

/-- What a batcher can be asked. -/
inductive Request (α : Type u) where
  | push (now : Instant) (x : α)
  | flush
  | clear
  | snapshot
  | size

/-- What the caller gets. -/
inductive Answer (α : Type u) where
  | batch (values : Option (List α))
  | values (xs : List α)
  | count (n : Nat)
  | done

/-- One request to a batcher. -/
def serve (b : Batcher α) : Request α → Step (Batcher α) (Answer α)
  | .push now x => (b.push now x).map .batch
  | .flush => { state := b.flush.2, result := .values b.flush.1 }
  | .clear => { state := b.clear, result := .done }
  | .snapshot => { state := b, result := .values b.toList }
  | .size => { state := b, result := .count b.size }

end Batcher

/-! ## The list -/

namespace Recent

open Batcher (Request Answer)

/-- At `now` the arrival is older than the window allows. An arrival of the future has no age. -/
def expired (window : Duration) (now : Instant) (a : Arrival α) : Bool :=
  decide ((window.nanos : Int) < max 0 ((now.nanos : Int) - a.time.nanos))

/-- A value enters behind the arrivals that are left when the stale ones at the old end are gone. A
list that has become full is handed out. -/
def push (capacity : Nat) (window : Duration) (as : List (Arrival α)) (now : Instant) (x : α) :
    Step (List (Arrival α)) (Option (List α)) :=
  let kept := as.dropWhile (expired window now) ++ [⟨x, now⟩]
  if kept.length = capacity then { state := [], result := some (kept.map Arrival.value) }
  else { state := kept, result := none }

/-- One request to the list. -/
def serve (capacity : Nat) (window : Duration) (as : List (Arrival α)) :
    Request α → Step (List (Arrival α)) (Answer α)
  | .push now x => (push capacity window as now x).map .batch
  | .flush => { state := [], result := .values (as.map Arrival.value) }
  | .clear => { state := [], result := .done }
  | .snapshot => { state := as, result := .values (as.map Arrival.value) }
  | .size => { state := as, result := .count as.length }

theorem expired_eq_isStale (window : Duration) (now : Instant) (a : Arrival α) :
    expired window now a = a.isStale now window := by
  rw [expired, Arrival.isStale, decide_eq_decide, Instant.since]
  omega

theorem length_dropWhile_le (p : Arrival α → Bool) (as : List (Arrival α)) :
    (as.dropWhile p).length ≤ as.length :=
  (List.dropWhile_sublist p).length_le

end Recent

/-! ## Steps and runs -/

namespace Batcher

variable {b : Batcher α} {as : List (Arrival α)} {capacity : Nat} {window : Duration}

/-- A batcher of this capacity and window holds these arrivals and has room for one more. -/
structure Mirrors (capacity : Nat) (window : Duration) (b : Batcher α) (as : List (Arrival α)) :
    Prop where
  holds : b.ring.Window as
  capacity_eq : b.ring.capacity = capacity
  window_eq : b.window = window
  length_lt : as.length < capacity

theorem Mirrors.toList_eq (h : Mirrors capacity window b as) : b.toList = as.map Arrival.value :=
  h.holds.toList_eq

theorem Mirrors.size_eq (h : Mirrors capacity window b as) : b.size = as.length :=
  h.holds.len_eq

/-- A batcher that was just created holds nothing. -/
theorem mirrors_create {capacity : Nat} (hc : 0 < capacity) {window : Duration}
    (hw : 0 < window.nanos) :
    ∃ fresh : Batcher α, create capacity window = .ok fresh ∧ Mirrors capacity window fresh [] := by
  refine ⟨{ ring := Ring.empty capacity, window }, ?_, Ring.window_empty hc, ?_, rfl, hc⟩
  · rw [create, if_neg (Nat.ne_of_gt hc), if_neg (Nat.ne_of_gt hw)]
  · exact Array.size_replicate

theorem Mirrors.dropStale (h : Mirrors capacity window b as) (now : Instant) :
    Mirrors capacity window (b.dropStale now).state (as.dropWhile (Recent.expired window now)) := by
  have hexpired : Recent.expired (α := α) window now = (·.isStale now b.window) := by
    funext a
    rw [Recent.expired_eq_isStale, h.window_eq]
  obtain ⟨hkept, hcapacity⟩ := h.holds.dropStale now b.window
  rw [hexpired]
  refine ⟨hkept, hcapacity.trans h.capacity_eq, h.window_eq, ?_⟩
  exact Nat.lt_of_le_of_lt (Recent.length_dropWhile_le _ as) h.length_lt

theorem Mirrors.clear (h : Mirrors capacity window b as) :
    Mirrors capacity window b.clear [] where
  holds := h.holds.clear
  capacity_eq := (Ring.capacity_clear b.ring).trans h.capacity_eq
  window_eq := h.window_eq
  length_lt := Nat.zero_lt_of_lt h.length_lt

/-- A value that is gathered becomes the newest, or completes the batch. -/
theorem Mirrors.gather (h : Mirrors capacity window b as) (a : Arrival α) :
    if (as ++ [a]).length = capacity then
      Mirrors capacity window (b.gather a).state [] ∧
        (b.gather a).result = some ((as ++ [a]).map Arrival.value)
    else
      Mirrors capacity window (b.gather a).state (as ++ [a]) ∧ (b.gather a).result = none := by
  have hinsert := h.holds.insert (h.capacity_eq.symm ▸ h.length_lt) a
  have hcapacity : (b.ring.insert a).capacity = capacity :=
    (Ring.capacity_insert b.ring a).trans h.capacity_eq
  rw [Batcher.gather, hinsert.len_eq, hcapacity]
  split
  · refine ⟨⟨hinsert.clear, ?_, h.window_eq, Nat.zero_lt_of_lt h.length_lt⟩, ?_⟩
    · exact (Ring.capacity_clear _).trans hcapacity
    · exact congrArg some hinsert.toList_eq
  · next hroom =>
    refine ⟨⟨hinsert, hcapacity, h.window_eq, ?_⟩, rfl⟩
    have hlt := h.length_lt
    rw [List.length_append, List.length_singleton] at hroom ⊢
    omega

theorem Mirrors.push (h : Mirrors capacity window b as) (now : Instant) (x : α) :
    Mirrors capacity window (b.push now x).state (Recent.push capacity window as now x).state ∧
      (b.push now x).result = (Recent.push capacity window as now x).result := by
  have hgather := (h.dropStale now).gather ⟨x, now⟩
  rw [Recent.push]
  split at hgather
  · next hfull =>
    rw [if_pos hfull]
    exact hgather
  · next hroom =>
    rw [if_neg hroom]
    exact hgather

/-- A batcher and a list that hold the same arrivals serve a request alike. -/
theorem Mirrors.serve (h : Mirrors capacity window b as) (request : Request α) :
    Mirrors capacity window (b.serve request).state
        (Recent.serve capacity window as request).state ∧
      (b.serve request).result = (Recent.serve capacity window as request).result := by
  cases request with
  | push now x =>
      obtain ⟨hnext, hresult⟩ := h.push now x
      exact ⟨hnext, congrArg Answer.batch hresult⟩
  | flush => exact ⟨h.clear, congrArg Answer.values h.holds.toList_eq⟩
  | clear => exact ⟨h.clear, rfl⟩
  | snapshot => exact ⟨h, congrArg Answer.values h.holds.toList_eq⟩
  | size => exact ⟨h, congrArg Answer.count h.holds.len_eq⟩

/-- A batcher with room for a value and a window that is not empty serves every run of requests as
a list of arrivals does, whatever the instants. Afterwards it holds the arrivals of the list and is
not full; exactly the slots of its window are occupied. The next value to enter will find the ring
not full either, and dropping stale values will find a value in each slot it looks at. -/
theorem run_acts_as_recent_list {capacity : Nat} (hc : 0 < capacity) {window : Duration}
    (hw : 0 < window.nanos) (requests : List (Request α)) :
    ∃ fresh, create capacity window = .ok fresh ∧
      let served := Step.forEach serve fresh requests
      let listed := Step.forEach (Recent.serve capacity window) [] requests
      served.result = listed.result ∧
        served.state.ring.arrivals = listed.state ∧
        served.state.toList = listed.state.map Arrival.value ∧
        served.state.size = listed.state.length ∧
        served.state.capacity = capacity ∧
        served.state.size < capacity ∧
        served.state.ring.WellFormed ∧
        (∀ now, (served.state.dropStale now).state.size < capacity) ∧
        ∀ k < served.state.size,
          let rest := Ring.dropOldest^[k] served.state.ring
          (rest.get? rest.start).isSome = true := by
  refine ⟨{ ring := Ring.empty capacity, window }, ?_, ?_⟩
  · rw [create, if_neg (Nat.ne_of_gt hc), if_neg (Nat.ne_of_gt hw)]
  · have hfresh : Mirrors capacity window { ring := Ring.empty capacity, window }
        ([] : List (Arrival α)) :=
      ⟨Ring.window_empty hc, Array.size_replicate, rfl, hc⟩
    -- Everything is read off the last state of the list.
    obtain ⟨hlast, hresult⟩ :=
      Step.forEach_simulates (fun _ _ request h => h.serve request) hfresh requests
    have hsize : (Step.forEach serve _ requests).state.size = _ := hlast.holds.len_eq
    refine ⟨hresult, hlast.holds.arrivals_eq, hlast.holds.toList_eq, hsize, hlast.capacity_eq,
      lt_of_eq_of_lt hsize hlast.length_lt, hlast.holds.wellFormed, fun now => ?_, fun k hk => ?_⟩
    · have hcleaned := hlast.dropStale now
      exact lt_of_eq_of_lt hcleaned.holds.len_eq hcleaned.length_lt
    · exact hlast.holds.get?_start_iterate (lt_of_lt_of_eq hk hsize)

/-- Room for three and a window of 100. When the clock stands at 150, the values of 10 and 40 are
stale and leave; it then goes back, and the value of 20 that enters behind the one of 150 is no
longer seen to grow stale. The batch they complete runs over the end of the ring. -/
theorem run_acts_as_recent_list_wrapped :
    0 < 3 ∧ 0 < (⟨100, by decide⟩ : Duration).nanos ∧
      ∃ fresh : Batcher Nat, create 3 ⟨100, by decide⟩ = .ok fresh ∧
        let served := Step.forEach serve fresh
          [.push ⟨10⟩ 1, .push ⟨40⟩ 2, .push ⟨150⟩ 3, .push ⟨20⟩ 4, .snapshot, .push ⟨160⟩ 5,
            .push ⟨161⟩ 6, .size]
        served.result = [.batch none, .batch none, .batch none, .batch none, .values [3, 4],
            .batch (some [3, 4, 5]), .batch none, .count 1] ∧
          served.state.toList = [6] := by
  refine ⟨by decide, by decide, ?_⟩
  obtain ⟨fresh, hfresh, hresult, -, hvalues, -⟩ :=
    run_acts_as_recent_list (show 0 < 3 by decide)
      (show 0 < (⟨100, by decide⟩ : Duration).nanos by decide)
      [.push ⟨10⟩ 1, .push ⟨40⟩ 2, .push ⟨150⟩ 3, .push ⟨20⟩ 4, .snapshot, .push ⟨160⟩ 5,
        .push ⟨161⟩ 6, .size]
  refine ⟨fresh, hfresh, ?_, ?_⟩
  · rw [hresult]
    rfl
  · rw [hvalues]
    rfl

end Batcher

end Retention
