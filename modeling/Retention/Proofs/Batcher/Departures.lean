/-
# Retention.Proofs.Batcher.Departures -- what enters a batcher leaves it in the same order

A value can leave a batcher in four ways: it is dropped as stale by a push, it is handed out in the
batch that a push completes, it is handed out by a flush, or it is dropped by clearing. Only the
batches and what is flushed are given to the caller, so a bystander notes for each request what
leaves with it. Whatever the clock does, all that leaves, one request after the other, followed by
what is there in the end, is all that was pushed. What a push drops is told by a diagnostic.
-/
import Mathlib
import Retention.Proofs.Batcher.Recent

namespace Retention.Batcher

universe u

variable {α : Type u}

/-! ## Entering and leaving -/

/-- The value that a request brings, if any. -/
def Request.pushed : Request α → List α
  | .push _ x => [x]
  | .flush | .clear | .snapshot | .size => []

/-- The values that are there before a push at `now` and are gone once it has dropped the stale
ones. -/
def stale (b : Batcher α) (now : Instant) : List α :=
  b.toList.take (b.size - (b.dropStale now).state.size)

/-- The values that leave with a request, in this order. -/
def leaving (b : Batcher α) : Request α → List α
  | .push now x => b.stale now ++ (b.push now x).result.getD []
  | .flush => b.flush.1
  | .clear => b.toList
  | .snapshot | .size => []

/-- A request to a batcher that a bystander watches. -/
def watch : Batcher α → Request α → Step (Batcher α) (Answer α × List α) :=
  Step.noting leaving serve

variable {b : Batcher α} {as : List (Arrival α)} {capacity : Nat} {window : Duration}

/-- The stale values are those of the longest stale stretch at the old end. -/
theorem Mirrors.stale_eq (h : Mirrors capacity window b as) (now : Instant) :
    b.stale now = (as.takeWhile (Recent.expired window now)).map Arrival.value := by
  have hsplit := List.takeWhile_append_dropWhile (p := Recent.expired window now) (l := as)
  have hlength := congrArg List.length hsplit
  rw [List.length_append] at hlength
  rw [stale, h.toList_eq, h.size_eq, (h.dropStale now).size_eq, ← hlength, Nat.add_sub_cancel,
    ← List.map_take]
  exact congrArg _ (List.prefix_iff_eq_take.mp <| List.takeWhile_prefix _).symm

/-- What a push drops and what it keeps of the old values are what was there, in this order. -/
theorem Mirrors.stale_append (h : Mirrors capacity window b as) (now : Instant) :
    b.stale now ++ (b.dropStale now).state.toList = b.toList := by
  rw [h.stale_eq, (h.dropStale now).toList_eq, h.toList_eq, ← List.map_append,
    List.takeWhile_append_dropWhile]

/-- A value that is gathered stands behind the others in what leaves and what stays. -/
theorem Mirrors.gather_conserves (h : Mirrors capacity window b as) (a : Arrival α) :
    (b.gather a).result.getD [] ++ (b.gather a).state.toList = b.toList ++ [a.value] := by
  have hgather := h.gather a
  have hall : b.toList ++ [a.value] = (as ++ [a]).map Arrival.value := by
    rw [h.toList_eq, List.map_append, List.map_singleton]
  split at hgather
  · obtain ⟨hempty, hbatch⟩ := hgather
    rw [hbatch, hempty.toList_eq, hall]
    exact List.append_nil _
  · obtain ⟨hmore, hnone⟩ := hgather
    rw [hnone, hmore.toList_eq, hall]
    rfl

/-- What a request brings stands behind what was there, in what leaves and what stays. -/
theorem Mirrors.serve_conserves (h : Mirrors capacity window b as) (request : Request α) :
    b.toList ++ request.pushed = b.leaving request ++ (b.serve request).state.toList := by
  have hemptied : b.clear.toList = [] := h.clear.toList_eq
  cases request with
  | push now x =>
      calc b.toList ++ [x]
        _ = b.stale now ++ ((b.dropStale now).state.toList ++ [x]) := by
            rw [← List.append_assoc, h.stale_append now]
        _ = b.stale now ++ ((b.push now x).result.getD [] ++ (b.push now x).state.toList) :=
            congrArg _ ((h.dropStale now).gather_conserves ⟨x, now⟩).symm
        _ = b.leaving (.push now x) ++ (b.push now x).state.toList :=
            (List.append_assoc ..).symm
  | flush => exact congrArg (b.toList ++ ·) hemptied.symm
  | clear => exact congrArg (b.toList ++ ·) hemptied.symm
  | snapshot => exact List.append_nil _
  | size => exact List.append_nil _

/-- A batch has as many values as fit. -/
theorem Mirrors.length_batch (h : Mirrors capacity window b as) {now : Instant} {x : α}
    {batch : List α} (hbatch : (b.push now x).result = some batch) : batch.length = capacity := by
  rw [(h.push now x).2, Recent.push] at hbatch
  split at hbatch
  · next hfull =>
    cases hbatch
    rw [List.length_map, hfull]
  · cases hbatch

/-! ## Reports -/

theorem events_gather (b : Batcher α) (a : Arrival α) :
    (b.gather a).events =
      (b.gather a).result.toList.map fun batch => .batchFlushed batch.length := by
  simp only [gather]
  split <;> rfl

theorem Mirrors.length_toList (h : Mirrors capacity window b as) : b.toList.length = b.size := by
  rw [h.toList_eq, List.length_map, h.size_eq]

/-- A push tells how many values it dropped and how many were left, unless it dropped none, and how
large the batch is, if it completes one. -/
theorem Mirrors.events_push (h : Mirrors capacity window b as) (now : Instant) (x : α) :
    (b.push now x).events =
      (if (b.stale now).length = 0 then []
        else [.staleDropped (b.stale now).length (b.dropStale now).state.toList.length]) ++
      (b.push now x).result.toList.map fun batch => .batchFlushed batch.length := by
  have hkept : (b.dropStale now).state.toList.length = (b.dropStale now).state.size :=
    (h.dropStale now).length_toList
  have hdropped : (b.stale now).length = b.size - (b.dropStale now).state.size := by
    rw [← h.length_toList, ← hkept, ← h.stale_append now, List.length_append, Nat.add_sub_cancel]
  rw [hdropped, hkept]
  exact congrArg _ (events_gather _ ⟨x, now⟩)

/-- Only a request that brings a value reports anything. -/
theorem events_serve_eq_nil (b : Batcher α) {request : Request α} (h : request.pushed = []) :
    (b.serve request).events = [] := by
  cases request with
  | push now x => exact absurd h (List.cons_ne_nil x [])
  | flush => rfl
  | clear => rfl
  | snapshot => rfl
  | size => rfl

/-! ## Runs -/

/-- A batcher that is mirrored by some list of arrivals stays so. -/
theorem exists_mirrors_forEach (h : Mirrors capacity window b as) (requests : List (Request α)) :
    ∃ bs, Mirrors capacity window (Step.forEach serve b requests).state bs :=
  Step.forEach_induction (P := fun c => ∃ bs, Mirrors capacity window c bs)
    (fun _ request ⟨_, hc⟩ => ⟨_, (hc.serve request).1⟩) ⟨as, h⟩ requests

/-- With a request that is answered and noted like this, the values of one list become those of the
other. -/
def Passes (xs : List α) (request : Request α) (noted : Answer α × List α) (ys : List α) : Prop :=
  xs ++ request.pushed = noted.2 ++ ys

/-- What is there and what a run brings is, in this order, what leaves and what is there in the
end. -/
theorem Mirrors.watch_conserves (h : Mirrors capacity window b as) (requests : List (Request α)) :
    b.toList ++ requests.flatMap Request.pushed =
      ((Step.forEach watch b requests).result.map Prod.snd).flatten ++
        (Step.forEach watch b requests).state.toList := by
  have hstep : ∀ (c : Batcher α) (xs : List α) (request : Request α),
      (c.toList = xs ∧ ∃ bs, Mirrors capacity window c bs) →
        ∃ ys, Passes xs request (c.watch request).result ys ∧
          (c.watch request).state.toList = ys ∧
            ∃ bs, Mirrors capacity window (c.watch request).state bs := by
    rintro c xs request ⟨rfl, bs, hc⟩
    exact ⟨_, hc.serve_conserves request, rfl, _, (hc.serve request).1⟩
  obtain ⟨ys, hfollows, rfl, -⟩ := Step.forEach_follows
    (R := fun c xs => c.toList = xs ∧ ∃ bs, Mirrors capacity window c bs) hstep ⟨rfl, as, h⟩
    requests
  have hall := Step.follows_conserves (fun _ _ _ _ hpasses => hpasses) hfollows
  rwa [Step.map_fst_transcript, Step.map_snd_transcript, List.flatMap_def] at hall

/-- Whatever is asked of a batcher and whatever the clock does, all that leaves it, by any of the
ways out, and what is there in the end are together all that was pushed, in the order in which it
was pushed. A batch has exactly as many values as fit, and is reported once with its size; if a push
drops anything, that is reported once with the number of values dropped and of those there when the
new one entered. No other request reports anything. -/
theorem run_hands_on_all_in_order (capacity : Nat) (hc : 0 < capacity) (window : Duration)
    (hw : 0 < window.nanos) (requests : List (Request α)) :
    ∃ fresh, create capacity window = .ok fresh ∧
      let served := Step.forEach serve fresh requests
      let watched := Step.forEach watch fresh requests
      let b := served.state
      watched.map (List.map Prod.fst) = served ∧
        (watched.result.map Prod.snd).flatten ++ b.toList = requests.flatMap Request.pushed ∧
        (∀ now x,
          let gone := b.stale now
          let kept := (b.dropStale now).state.toList
          let done := b.push now x
          gone ++ kept = b.toList ∧
            done.result.getD [] ++ done.state.toList = kept ++ [x] ∧
            (∀ batch, done.result = some batch → batch.length = capacity) ∧
            done.events =
              (if gone.length = 0 then [] else [.staleDropped gone.length kept.length]) ++
                done.result.toList.map fun batch => .batchFlushed batch.length) ∧
        ∀ request : Request α, request.pushed = [] → (b.serve request).events = [] := by
  obtain ⟨fresh, hfresh, hempty⟩ := mirrors_create (α := α) hc hw
  have hwatching := Step.forEach_noting leaving serve fresh requests
  obtain ⟨as, hlast⟩ := exists_mirrors_forEach hempty requests
  refine ⟨fresh, hfresh, hwatching, ?_, fun now x => ⟨hlast.stale_append now, ?_, ?_, ?_⟩,
    fun request => events_serve_eq_nil _⟩
  · have hall := hempty.watch_conserves requests
    rw [hempty.toList_eq, List.map_nil, List.nil_append] at hall
    rw [hall, ← Step.state_forEach_noting leaving serve fresh requests]
    rfl
  · exact (hlast.dropStale now).gather_conserves ⟨x, now⟩
  · exact fun _ => hlast.length_batch
  · exact hlast.events_push now x

/-- Room for three and a window of 100, with a clock that goes back once. The values 1 and 2 leave
stale, 3, 4 and 5 as a batch, 6 in a flush, 7 when the batcher is cleared, and 8 is still there. It
would be dropped by a push at 300. -/
theorem run_hands_on_all_in_order_every_way :
    0 < 3 ∧ 0 < (⟨100, by decide⟩ : Duration).nanos ∧
      ∃ fresh : Batcher Nat, create 3 ⟨100, by decide⟩ = .ok fresh ∧
        let watched := Step.forEach watch fresh
          [.push ⟨10⟩ 1, .push ⟨40⟩ 2, .push ⟨150⟩ 3, .push ⟨20⟩ 4, .push ⟨160⟩ 5, .push ⟨161⟩ 6,
            .flush, .push ⟨170⟩ 7, .clear, .push ⟨171⟩ 8]
        watched.result.map Prod.snd =
            [[], [], [1, 2], [], [3, 4, 5], [], [6], [], [7], []] ∧
          (watched.result.map Prod.snd).flatten ++ watched.state.toList =
            [1, 2, 3, 4, 5, 6, 7, 8] ∧
          watched.events = [.staleDropped 2 0, .batchFlushed 3] ∧
          (watched.state.push ⟨300⟩ 9).events = [.staleDropped 1 0] := by
  refine ⟨by decide, by decide, ?_⟩
  obtain ⟨fresh, hfresh, -, hall, -⟩ :=
    run_hands_on_all_in_order 3 (by decide) ⟨100, by decide⟩ (by decide)
      [.push ⟨10⟩ 1, .push ⟨40⟩ 2, .push ⟨150⟩ 3, .push ⟨20⟩ 4, .push ⟨160⟩ 5, .push ⟨161⟩ 6,
        .flush, .push ⟨170⟩ 7, .clear, .push ⟨171⟩ 8]
  rw [← Step.state_forEach_noting leaving serve fresh] at hall
  refine ⟨fresh, hfresh, ?_, hall, ?_, ?_⟩
  all_goals
    obtain rfl : ({ ring := Ring.empty 3, window := ⟨100, by decide⟩ } : Batcher Nat) = fresh :=
      Except.ok.inj hfresh
  · cbv
  · cbv
  · cbv

end Retention.Batcher
