/-
# Retention.Proofs.Batcher.Fresh -- batches of the values that are still fresh

A batcher drops a stale value only while it is the oldest one, and it looks for stale values only
when a value is pushed. While the clock does not go back this is as good as looking at all values at
any time: the values stand in the order of their instants, so the stale ones are together at the old
end, and a value that has grown stale stays so. What a push has before it is then what was pushed
since the batcher was last emptied and is not older than the window, whatever was dropped in
between.
-/
import Mathlib
import Retention.Proofs.Batcher.Recent

namespace Retention

universe u

variable {α : Type u}

/-! ## Age -/

namespace Recent

/-- At `now` the arrival is not older than the window. -/
def inWindow (window : Duration) (now : Instant) (a : Arrival α) : Bool :=
  decide (now.nanos ≤ a.time.nanos + window.nanos)

/-- The clock did not go back from one arrival to the next. -/
def InTimeOrder (as : List (Arrival α)) : Prop :=
  as.Pairwise fun earlier later => earlier.time.nanos ≤ later.time.nanos

variable {as : List (Arrival α)} {window : Duration} {now later : Instant}

theorem expired_eq_not_inWindow (window : Duration) (now : Instant) (a : Arrival α) :
    expired window now a = !inWindow window now a := by
  rw [expired, inWindow, ← decide_not, decide_eq_decide]
  omega

/-- What is stale stays so. -/
theorem inWindow_eq_false_of_expired {a : Arrival α} (hle : now.nanos ≤ later.nanos)
    (h : expired window now a = true) : inWindow window later a = false := by
  rw [expired_eq_not_inWindow, Bool.not_eq_true', inWindow, decide_eq_false_iff_not] at h
  rw [inWindow, decide_eq_false_iff_not]
  omega

/-- Nothing that is dropped as stale would be fresh later. -/
theorem filter_inWindow_dropWhile (as : List (Arrival α)) (hle : now.nanos ≤ later.nanos) :
    (as.dropWhile (expired window now)).filter (inWindow window later) =
      as.filter (inWindow window later) := by
  have hdropped : (as.takeWhile (expired window now)).filter (inWindow window later) = [] := by
    refine List.filter_eq_nil_iff.mpr fun a ha => ?_
    exact Bool.not_eq_true _ ▸ inWindow_eq_false_of_expired hle (List.mem_takeWhile_imp ha)
  conv_rhs =>
    rw [← List.takeWhile_append_dropWhile (p := expired window now) (l := as),
      List.filter_append, hdropped, List.nil_append]

/-- In the order of time, dropping at the old end drops all that is stale and nothing else. -/
theorem dropWhile_expired_eq_filter (h : InTimeOrder as) (window : Duration) (now : Instant) :
    as.dropWhile (expired window now) = as.filter (inWindow window now) := by
  induction as with
  | nil => rfl
  | cons a as ih =>
      obtain ⟨hhead, hrest⟩ := List.pairwise_cons.mp h
      rw [List.dropWhile_cons, List.filter_cons, expired_eq_not_inWindow]
      by_cases hfresh : inWindow window now a = true
      · -- All that comes after a fresh arrival is fresh.
        have hall : ∀ c ∈ as, inWindow window now c = true := by
          intro c hc
          have hle := hhead c hc
          rw [inWindow, decide_eq_true_eq] at hfresh ⊢
          omega
        rw [hfresh, List.filter_eq_self.mpr hall]
        rfl
      · rw [Bool.not_eq_true] at hfresh
        rw [hfresh]
        exact ih hrest

end Recent

/-! ## The time since a batcher was emptied -/

namespace Batcher

open Recent (inWindow InTimeOrder)

/-- The value that a request brings, if any, with the instant at which it does. -/
def Request.arrivals : Request α → List (Arrival α)
  | .push now x => [⟨x, now⟩]
  | .flush | .clear | .snapshot | .size => []

/-- After this request and answer the batcher is empty: it was flushed or cleared, or a push made it
hand out a batch. -/
def emptied : Request α × Answer α → Bool
  | (.push _ _, .batch (some _)) | (.flush, _) | (.clear, _) => true
  | _ => false

/-- All that was pushed since the batcher was last emptied. -/
def sinceEmptied (ts : List (Request α × Answer α)) : List (Arrival α) :=
  ((ts.rtakeWhile fun t => !emptied t).map Prod.fst).flatMap Request.arrivals

theorem sinceEmptied_concat_emptied (ts : List (Request α × Answer α)) {t : Request α × Answer α}
    (h : emptied t = true) : sinceEmptied (ts ++ [t]) = [] := by
  rw [sinceEmptied, List.rtakeWhile_concat_neg _ _ _ (by simp [h])]
  rfl

theorem sinceEmptied_concat (ts : List (Request α × Answer α)) {t : Request α × Answer α}
    (h : emptied t = false) : sinceEmptied (ts ++ [t]) = sinceEmptied ts ++ t.1.arrivals := by
  rw [sinceEmptied, List.rtakeWhile_concat_pos _ _ _ (by simp [h]), List.map_append,
    List.flatMap_append, List.map_singleton, List.flatMap_singleton]
  rfl

theorem sinceEmptied_suffix (ts : List (Request α × Answer α)) :
    sinceEmptied ts <:+ (ts.map Prod.fst).flatMap Request.arrivals := by
  obtain ⟨before, hbefore⟩ := List.rtakeWhile_suffix (fun t => !emptied t) ts
  refine ⟨(before.map Prod.fst).flatMap Request.arrivals, ?_⟩
  rw [sinceEmptied, ← List.flatMap_append, ← List.map_append, hbefore]

/-- After a history a batcher holds the last arrivals since it was emptied, and lacks none of them
that is fresh or will be. -/
structure Keeps (window : Duration) (ts : List (Request α × Answer α)) (as : List (Arrival α)) :
    Prop where
  suffix : as <:+ sinceEmptied ts
  fresh : ∀ now : Instant,
    (∀ a ∈ (ts.map Prod.fst).flatMap Request.arrivals, a.time.nanos ≤ now.nanos) →
      as.filter (inWindow window now) = (sinceEmptied ts).filter (inWindow window now)

variable {b : Batcher α} {ts : List (Request α × Answer α)} {as : List (Arrival α)}
  {capacity : Nat} {window : Duration}

theorem keeps_nil_of_emptied (ts : List (Request α × Answer α)) {t : Request α × Answer α}
    (h : emptied t = true) : Keeps window (ts ++ [t]) [] := by
  have hnone := sinceEmptied_concat_emptied ts h
  exact ⟨hnone ▸ List.suffix_rfl, fun now _ => by rw [hnone]⟩

/-- Without a push nothing grows stale, and nothing is forgotten unless the batcher is emptied. -/
theorem Keeps.concat (h : Keeps window ts as) {t : Request α × Answer α}
    (harrivals : t.1.arrivals = []) (hemptied : emptied t = false) :
    Keeps window (ts ++ [t]) as := by
  have hsame : sinceEmptied (ts ++ [t]) = sinceEmptied ts := by
    rw [sinceEmptied_concat ts hemptied, harrivals, List.append_nil]
  refine ⟨hsame ▸ h.suffix, fun now hnow => hsame ▸ h.fresh now fun a ha => hnow a ?_⟩
  rw [List.map_append, List.flatMap_append]
  exact List.mem_append_left _ ha

/-- A push drops what is stale at its instant, and that is not missed at any later one. -/
theorem Keeps.concat_push (h : Keeps window ts as) (now : Instant) (x : α) :
    Keeps window (ts ++ [(.push now x, .batch none)])
      (as.dropWhile (Recent.expired window now) ++ [⟨x, now⟩]) := by
  have hmore : sinceEmptied (ts ++ [(.push now x, .batch none)]) = sinceEmptied ts ++ [⟨x, now⟩] :=
    sinceEmptied_concat ts rfl
  constructor
  · obtain ⟨gone, hgone⟩ := (List.dropWhile_suffix _).trans h.suffix
    exact ⟨gone, by rw [hmore, ← List.append_assoc, hgone]⟩
  · intro later hlater
    rw [List.map_append, List.flatMap_append] at hlater
    have hle : now.nanos ≤ later.nanos :=
      hlater ⟨x, now⟩ (List.mem_append_right _ (List.mem_singleton.mpr rfl))
    have hbefore := h.fresh later fun a ha => hlater a (List.mem_append_left _ ha)
    rw [hmore, List.filter_append, List.filter_append, Recent.filter_inWindow_dropWhile as hle,
      hbefore]

theorem Keeps.serve (h : Keeps window ts as) (capacity : Nat) (request : Request α) :
    Keeps window (ts ++ [(request, (Recent.serve capacity window as request).result)])
      (Recent.serve capacity window as request).state := by
  cases request with
  | push now x =>
      rw [Recent.serve, Recent.push]
      split
      · exact keeps_nil_of_emptied ts rfl
      · exact h.concat_push now x
  | flush => exact keeps_nil_of_emptied ts rfl
  | clear => exact keeps_nil_of_emptied ts rfl
  | snapshot => exact h.concat rfl rfl
  | size => exact h.concat rfl rfl

/-- After every run a batcher keeps what it has to. -/
theorem exists_keeps_transcript (h : Mirrors capacity window b []) (requests : List (Request α)) :
    ∃ as, Mirrors capacity window (Step.forEach serve b requests).state as ∧
      Keeps window (Step.transcript serve b requests) as := by
  have hstep : ∀ (ts : List (Request α × Answer α)) (c : Batcher α) (request : Request α),
      (∃ as, Mirrors capacity window c as ∧ Keeps window ts as) →
        ∃ as, Mirrors capacity window (c.serve request).state as ∧
          Keeps window (ts ++ [(request, (c.serve request).result)]) as := by
    rintro ts c request ⟨as, hmirrors, hkeeps⟩
    obtain ⟨hnext, hresult⟩ := hmirrors.serve request
    exact ⟨_, hnext, hresult ▸ hkeeps.serve capacity request⟩
  have hempty : Keeps window ([] : List (Request α × Answer α)) [] :=
    ⟨List.suffix_rfl, fun _ _ => rfl⟩
  exact Step.transcript_induction
    (R := fun ts c => ∃ as, Mirrors capacity window c as ∧ Keeps window ts as) hstep
    ⟨[], h, hempty⟩ requests

theorem Keeps.inTimeOrder (h : Keeps window ts as)
    (hclock : InTimeOrder ((ts.map Prod.fst).flatMap Request.arrivals)) : InTimeOrder as :=
  hclock.sublist (h.suffix.trans (sinceEmptied_suffix ts)).sublist

/-- While the clock does not go back, what a push leaves when it drops the stale values, and the one
it brings, are what was pushed since the batcher was last emptied and is in the window. -/
theorem Keeps.dropWhile_expired_concat (h : Keeps window ts as) {now : Instant} {x : α}
    (hclock : InTimeOrder ((ts.map Prod.fst).flatMap Request.arrivals ++ [⟨x, now⟩])) :
    as.dropWhile (Recent.expired window now) ++ [⟨x, now⟩] =
      List.filter (inWindow window now) (sinceEmptied ts ++ [⟨x, now⟩]) := by
  obtain ⟨hordered, -, hbefore⟩ := List.pairwise_append.mp hclock
  have hnew : inWindow window now ⟨x, now⟩ = true := decide_eq_true (Nat.le_add_right ..)
  have hold : as.filter (inWindow window now) = (sinceEmptied ts).filter (inWindow window now) :=
    h.fresh now fun a ha => hbefore a ha _ (List.mem_singleton.mpr rfl)
  rw [Recent.dropWhile_expired_eq_filter (h.inTimeOrder hordered), hold, List.filter_append,
    List.filter_singleton, hnew]
  rfl

/-- As long as the clock does not go back, a push goes by what was pushed since the batcher was last
emptied, its own value included, and is not older than the window. If that is as much as fits, it is
handed out and nothing is left; if not, nothing is handed out and that is what is there. What the
push drops before its value enters is all that is stale, and nothing else. -/
theorem run_hands_out_fresh (capacity : Nat) (hc : 0 < capacity) (window : Duration)
    (hw : 0 < window.nanos) (requests : List (Request α)) (now : Instant) (x : α)
    (hclock : InTimeOrder (requests.flatMap Request.arrivals ++ [⟨x, now⟩])) :
    ∃ fresh, create capacity window = .ok fresh ∧
      let b := (Step.forEach serve fresh requests).state
      let recent := List.filter (inWindow window now)
        (sinceEmptied (Step.transcript serve fresh requests) ++ [⟨x, now⟩])
      let done := b.push now x
      (done.result = if recent.length = capacity then some (recent.map Arrival.value) else none) ∧
        (done.state.toList =
          if recent.length = capacity then [] else recent.map Arrival.value) ∧
        (b.dropStale now).state.ring.arrivals = b.ring.arrivals.filter (inWindow window now) := by
  obtain ⟨fresh, hfresh, hempty⟩ := mirrors_create (α := α) hc hw
  obtain ⟨as, hlast, hkeeps⟩ := exists_keeps_transcript hempty requests
  rw [← Step.map_fst_transcript serve fresh requests] at hclock
  have hordered := hkeeps.inTimeOrder (List.pairwise_append.mp hclock).1
  have hcleaned := hlast.dropStale now
  have hpush := hcleaned.gather ⟨x, now⟩
  rw [hkeeps.dropWhile_expired_concat hclock] at hpush
  have hstale := hcleaned.holds.arrivals_eq
  rw [Recent.dropWhile_expired_eq_filter hordered, ← hlast.holds.arrivals_eq] at hstale
  refine ⟨fresh, hfresh, ?_, ?_, hstale⟩ <;> split at hpush
  · next hfull =>
    rw [if_pos hfull]
    exact hpush.2
  · next hroom =>
    rw [if_neg hroom]
    exact hpush.2
  · next hfull =>
    rw [if_pos hfull]
    exact hpush.1.toList_eq
  · next hroom =>
    rw [if_neg hroom]
    exact hpush.1.toList_eq

/-- Room for three and a window of 100. The batch of 1, 2 and 3 empties the batcher. At 200 the
value of 90 is stale, but the one of 100 is not: it is just as old as the window. With the next
value the batch is complete. -/
theorem run_hands_out_fresh_at_the_edge :
    0 < 3 ∧ 0 < (⟨100, by decide⟩ : Duration).nanos ∧
      InTimeOrder (List.flatMap Request.arrivals [.push ⟨10⟩ 1, .push ⟨20⟩ 2, .push ⟨20⟩ 3,
        .push ⟨90⟩ 4, .push ⟨100⟩ 5, .push ⟨200⟩ 6] ++ [⟨7, ⟨200⟩⟩]) ∧
      ∃ fresh : Batcher Nat, create 3 ⟨100, by decide⟩ = .ok fresh ∧
        let ts := Step.transcript serve fresh [.push ⟨10⟩ 1, .push ⟨20⟩ 2, .push ⟨20⟩ 3,
          .push ⟨90⟩ 4, .push ⟨100⟩ 5, .push ⟨200⟩ 6]
        let b := (Step.forEach serve fresh [.push ⟨10⟩ 1, .push ⟨20⟩ 2, .push ⟨20⟩ 3,
          .push ⟨90⟩ 4, .push ⟨100⟩ 5, .push ⟨200⟩ 6]).state
        (sinceEmptied ts).map Arrival.value = [4, 5, 6] ∧ b.toList = [5, 6] ∧
          (b.push ⟨200⟩ 7).result = some [5, 6, 7] := by
  have hclock : InTimeOrder (List.flatMap Request.arrivals [.push ⟨10⟩ 1, .push ⟨20⟩ 2,
      .push ⟨20⟩ 3, .push ⟨90⟩ 4, .push ⟨100⟩ 5, .push ⟨200⟩ 6] ++ [⟨7, ⟨200⟩⟩]) := by
    simp [InTimeOrder, Request.arrivals]
  refine ⟨by decide, by decide, hclock, ?_⟩
  obtain ⟨fresh, hfresh, hresult, -⟩ :=
    run_hands_out_fresh 3 (by decide) ⟨100, by decide⟩ (by decide) _ ⟨200⟩ 7 hclock
  refine ⟨fresh, hfresh, ?_, ?_, hresult.trans ?_⟩
  all_goals
    obtain rfl : ({ ring := Ring.empty 3, window := ⟨100, by decide⟩ } : Batcher Nat) = fresh :=
      Except.ok.inj hfresh
  · cbv
  · cbv
  · cbv

end Batcher

end Retention
