/-
# Retention.Proofs.Batcher.Failures -- a step that fails has not happened

Two steps can fail: the clock cannot be moved on when the time elapsed would be too long for a
duration, and a push cannot read a clock that has gone beyond the last instant. The functions on a
batcher with its clock say what such a step leaves behind, but as plain functions they could promise
anything. So the steps are written once more as programs that make their changes one after the
other, in place, and are stopped where they fail: what was changed until then stays changed. They
do exactly what the functions say, because each of them does the one thing that can fail first.

Hence a step that fails leaves everything as it was, and if all steps that fail are left out of a
run, nobody can tell the difference. And where no reading fails, the clock may go back as well: the
batcher takes whatever instants it shows.
-/
import Retention.Batcher.Timed
import Retention.Proofs.Run

namespace Retention

/-! ## The end of time -/

/-- Durations cannot be added when their exact sum is longer than every duration. -/
theorem Duration.add?_eq_error_iff {d e : Duration} :
    (∃ err, d.add? e = .error err) ↔ ∀ m : Duration, m.nanos < d.nanos + e.nanos := by
  unfold Duration.add? Duration.ofNanos?
  by_cases hsum : d.nanos + e.nanos < Nat.pow 2 64 * nanosPerSecond
  · rw [dif_pos hsum]
    constructor
    · rintro ⟨err, herr⟩
      cases herr
    · intro hall
      exact absurd (hall ⟨_, hsum⟩) (Nat.lt_irrefl _)
  · rw [dif_neg hsum]
    constructor
    · intro _ m
      exact Nat.lt_of_lt_of_le m.inRange (Nat.le_of_not_lt hsum)
    · intro _
      exact ⟨_, rfl⟩

/-- An instant cannot be found when it would lie beyond the last one. -/
theorem Instant.add?_eq_error_iff {t : Instant} {d : Duration} :
    (∃ err, t.add? d = .error err) ↔ limit ≤ t.nanos + d.nanos := by
  unfold Instant.add?
  split
  · next hlt =>
    constructor
    · rintro ⟨err, herr⟩
      cases herr
    · intro hle
      exact absurd hlt (Nat.not_lt_of_le hle)
  · next hle =>
    constructor
    · intro _
      exact Nat.le_of_not_lt hle
    · intro _
      exact ⟨_, rfl⟩

namespace TimedBatcher

variable {α : Type}

/-! ## Requests -/

/-- What a batcher with its clock can be asked. -/
inductive Request (α : Type) where
  | advance (d : Duration)
  | push (x : α)
  | flush
  | clear

/-- What the caller gets if the request does not fail. -/
inductive Answer (α : Type) where
  | batch (values : Option (List α))
  | values (xs : List α)
  | done

/-- One request to a batcher with its clock. -/
def serve (t : TimedBatcher α) :
    Request α → Step (TimedBatcher α) (Except ClockError (Answer α))
  | .advance d => (t.advance d).map (Except.map fun _ => .done)
  | .push x => (t.push x).map (Except.map .batch)
  | .flush => { state := t.flush.2, result := .ok (.values t.flush.1) }
  | .clear => { state := t.clear, result := .ok .done }

/-- The time is too late for a request. -/
def TooLate (t : TimedBatcher α) : Request α → Prop
  | .advance d => ∀ m : Duration, m.nanos < t.clock.elapsed.nanos + d.nanos
  | .push _ => Instant.limit ≤ t.clock.origin.nanos + t.clock.elapsed.nanos
  | .flush | .clear => False

/-! ## The same in place -/

/-- A batcher with its clock in the midst of a step, and what was reported until then. -/
structure Progress (α : Type) where
  /-- The batcher with its clock. -/
  timed : TimedBatcher α
  /-- What was reported, oldest first. -/
  events : List Diagnostic

/-- A step that makes its changes one after the other. If it fails, those made until then stay. -/
abbrev Program (α ρ : Type) := EStateM ClockError (Progress α) ρ

namespace Program

def report (d : Diagnostic) : Program α Unit :=
  modify fun p => { p with events := p.events ++ [d] }

def readClock : Program α Instant := do
  ofExcept (← get).timed.clock.now

def moveClock (d : Duration) : Program α Unit := do
  let elapsed ← ofExcept ((← get).timed.clock.elapsed.add? d)
  modify fun p => { p with timed.clock.elapsed := elapsed }

def changeRing (f : Ring α → Ring α) : Program α Unit :=
  modify fun p => { p with timed.batcher.ring := f p.timed.batcher.ring }

/-- Drops the stale values and counts them. -/
def prune (now : Instant) : Program α Nat := do
  let before := (← get).timed.batcher
  changeRing (·.dropStale now before.window)
  return before.size - (← get).timed.batcher.size

def drain : Program α (List α) := do
  let values := (← get).timed.batcher.toList
  changeRing Ring.clear
  return values

def dropStale (now : Instant) : Program α Unit := do
  let dropped ← prune now
  if dropped ≠ 0 then
    report (.staleDropped dropped (← get).timed.batcher.size)

def gather (a : Arrival α) : Program α (Option (List α)) := do
  changeRing (·.insert a)
  let filled := (← get).timed.batcher
  if filled.size = filled.capacity then
    let batch ← drain
    report (.batchFlushed batch.length)
    return some batch
  return none

def push (x : α) : Program α (Option (List α)) := do
  let now ← readClock
  dropStale now
  gather ⟨x, now⟩

/-- One request, in place. -/
def serve : Request α → Program α (Answer α)
  | .advance d => do
    moveClock d
    return .done
  | .push x => do
    let batch ← push x
    return .batch batch
  | .flush => do
    let values ← drain
    return .values values
  | .clear => do
    changeRing Ring.clear
    return .done

end Program

/-- How a step ends when it is looked at from inside. -/
def ending {ρ : Type} (events : List Diagnostic) (s : Step (TimedBatcher α) (Except ClockError ρ)) :
    EStateM.Result ClockError (Progress α) ρ :=
  match s.result with
  | .ok r => .ok r ⟨s.state, events ++ s.events⟩
  | .error e => .error e ⟨s.state, events ++ s.events⟩

theorem ending_ok {ρ : Type} (events new : List Diagnostic) (t : TimedBatcher α) (r : ρ) :
    ending events { state := t, result := .ok r, events := new } = .ok r ⟨t, events ++ new⟩ := rfl

theorem ending_error {ρ : Type} (events : List Diagnostic) (t : TimedBatcher α) (e : ClockError) :
    ending (ρ := ρ) events { state := t, result := .error e } = .error e ⟨t, events⟩ := by
  rw [ending, List.append_nil]

/-! ## Steps -/

theorem advance_of_add?_error {t : TimedBatcher α} {d : Duration} {e : ClockError}
    (h : t.clock.elapsed.add? d = .error e) : t.advance d = { state := t, result := .error e } := by
  rw [advance, AdjustableClock.advance, h]
  rfl

theorem advance_of_add?_ok {t : TimedBatcher α} {d sum : Duration}
    (h : t.clock.elapsed.add? d = .ok sum) :
    t.advance d = { state := { t with clock.elapsed := sum }, result := .ok () } := by
  rw [advance, AdjustableClock.advance, h]
  rfl

theorem push_of_now_error {t : TimedBatcher α} {e : ClockError} (h : t.clock.now = .error e)
    (x : α) : t.push x = { state := t, result := .error e } := by
  rw [push, h]

theorem push_of_now_ok {t : TimedBatcher α} {now : Instant} (h : t.clock.now = .ok now) (x : α) :
    t.push x =
      { state := { t with batcher := (t.batcher.push now x).state }
        result := .ok (t.batcher.push now x).result
        events := (t.batcher.push now x).events } := by
  rw [push, h]

namespace Program

theorem run_report (d : Diagnostic) (p : Progress α) :
    (report d).run p = .ok () { p with events := p.events ++ [d] } := rfl

theorem run_ofExcept_ok {ρ : Type} (r : ρ) (p : Progress α) :
    (ofExcept (.ok r : Except ClockError ρ) : Program α ρ).run p = .ok r p := rfl

theorem run_ofExcept_error {ρ : Type} (e : ClockError) (p : Progress α) :
    (ofExcept (.error e : Except ClockError ρ) : Program α ρ).run p = .error e p := rfl

theorem run_changeRing (f : Ring α → Ring α) (p : Progress α) :
    (changeRing f).run p = .ok () { p with timed.batcher.ring := f p.timed.batcher.ring } := rfl

theorem run_prune (now : Instant) (t : TimedBatcher α) (events : List Diagnostic) :
    (prune now).run ⟨t, events⟩ =
      .ok (t.batcher.size - (t.batcher.dropStale now).state.size)
        ⟨{ t with batcher := (t.batcher.dropStale now).state }, events⟩ := rfl

theorem run_moveClock (d : Duration) (t : TimedBatcher α) (events : List Diagnostic) :
    (moveClock d).run ⟨t, events⟩ = ending events (t.advance d) := by
  cases hsum : t.clock.elapsed.add? d with
  | ok elapsed =>
      rw [advance_of_add?_ok hsum, ending_ok, List.append_nil]
      simp [moveClock, hsum, run_ofExcept_ok]
  | error e =>
      rw [advance_of_add?_error hsum, ending_error]
      simp [moveClock, hsum, run_ofExcept_error]

theorem run_dropStale (now : Instant) (t : TimedBatcher α) (events : List Diagnostic) :
    (dropStale now).run ⟨t, events⟩ =
      .ok () ⟨{ t with batcher := (t.batcher.dropStale now).state },
        events ++ (t.batcher.dropStale now).events⟩ := by
  let left := (t.batcher.dropStale now).state
  by_cases hnone : t.batcher.size - left.size = 0
  · have hevents : (t.batcher.dropStale now).events = [] := if_pos hnone
    simp [dropStale, run_prune, left, hnone, hevents]
  · have hevents : (t.batcher.dropStale now).events =
        [.staleDropped (t.batcher.size - left.size) left.size] := if_neg hnone
    simp [dropStale, run_prune, left, hnone, hevents, run_report]

theorem run_gather (a : Arrival α) (t : TimedBatcher α) (events : List Diagnostic) :
    (gather a).run ⟨t, events⟩ =
      .ok (t.batcher.gather a).result
        ⟨{ t with batcher := (t.batcher.gather a).state },
          events ++ (t.batcher.gather a).events⟩ := by
  let filled : Batcher α := { t.batcher with ring := t.batcher.ring.insert a }
  by_cases hfull : filled.size = filled.capacity
  · have hgather : t.batcher.gather a =
        { state := filled.clear
          result := some filled.toList
          events := [.batchFlushed filled.toList.length] } := if_pos hfull
    rw [hgather, gather, EStateM.run_bind, run_changeRing]
    show (if filled.size = filled.capacity then _ else _ : Program α _).run _ = _
    rw [if_pos hfull]
    rfl
  · have hgather : t.batcher.gather a = { state := filled, result := none } := if_neg hfull
    rw [hgather, gather, EStateM.run_bind, run_changeRing, List.append_nil]
    show (if filled.size = filled.capacity then _ else _ : Program α _).run _ = _
    rw [if_neg hfull]
    rfl

/-- Before the clock is read nothing is changed, and after that nothing fails. -/
theorem run_push (x : α) (t : TimedBatcher α) (events : List Diagnostic) :
    (push x).run ⟨t, events⟩ = ending events (t.push x) := by
  cases hnow : t.clock.now with
  | ok now =>
      rw [push_of_now_ok hnow, ending_ok]
      simp [push, readClock, hnow, run_ofExcept_ok, run_dropStale, run_gather, Batcher.push]
  | error e =>
      rw [push_of_now_error hnow, ending_error]
      simp [push, readClock, hnow, run_ofExcept_error]

/-- Handing out another reading of the result changes nothing else. -/
theorem run_return {ρ π : Type} {program : Program α ρ} {p : Progress α} {events : List Diagnostic}
    {s : Step (TimedBatcher α) (Except ClockError ρ)} (h : program.run p = ending events s)
    (f : ρ → π) :
    (program >>= fun r => pure (f r)).run p = ending events (s.map (Except.map f)) := by
  obtain ⟨t, result, new⟩ := s
  rw [EStateM.run_bind, h]
  cases result <;> rfl

/-- In place every request does what the functions say, and it ends where they say. -/
theorem run_serve (request : Request α) (t : TimedBatcher α) (events : List Diagnostic) :
    (serve request).run ⟨t, events⟩ = ending events (t.serve request) := by
  cases request with
  | advance d => exact run_return (run_moveClock d t events) fun _ => Answer.done
  | push x => exact run_return (run_push x t events) Answer.batch
  | flush =>
      rw [TimedBatcher.serve, ending_ok, List.append_nil]
      rfl
  | clear =>
      rw [TimedBatcher.serve, ending_ok, List.append_nil]
      rfl

end Program

/-! ## Failures -/

/-- A request for which it is too late fails and leaves the batcher and the clock as they were, and
reports nothing; any other is answered. -/
theorem serve_cases (t : TimedBatcher α) (request : Request α) :
    (t.TooLate request ∧ ∃ e, t.serve request = { state := t, result := .error e }) ∨
      (¬ t.TooLate request ∧ ∃ r, (t.serve request).result = .ok r) := by
  cases request with
  | advance d =>
      cases hsum : t.clock.elapsed.add? d with
      | ok sum =>
          refine .inr ⟨fun hlate => ?_, .done, ?_⟩
          · obtain ⟨e, he⟩ := Duration.add?_eq_error_iff.mpr hlate
            rw [hsum] at he
            cases he
          · rw [serve, advance_of_add?_ok hsum]
            rfl
      | error e =>
          refine .inl ⟨Duration.add?_eq_error_iff.mp ⟨e, hsum⟩, e, ?_⟩
          rw [serve, advance_of_add?_error hsum]
          rfl
  | push x =>
      cases hnow : t.clock.now with
      | ok now =>
          refine .inr ⟨fun hlate => ?_, .batch (t.batcher.push now x).result, ?_⟩
          · obtain ⟨e, he⟩ := Instant.add?_eq_error_iff.mpr hlate
            rw [AdjustableClock.now, he] at hnow
            cases hnow
          · rw [serve, push_of_now_ok hnow]
            rfl
      | error e =>
          refine .inl ⟨Instant.add?_eq_error_iff.mp ⟨e, hnow⟩, e, ?_⟩
          rw [serve, push_of_now_error hnow]
          rfl
  | flush => exact .inr ⟨id, _, rfl⟩
  | clear => exact .inr ⟨id, _, rfl⟩

theorem serve_fails_iff (t : TimedBatcher α) (request : Request α) :
    (∃ e, (t.serve request).result = .error e) ↔ t.TooLate request := by
  rcases t.serve_cases request with ⟨hlate, e, hfails⟩ | ⟨hinTime, r, hanswer⟩
  · rw [hfails]
    exact iff_of_true ⟨e, rfl⟩ hlate
  · rw [hanswer]
    refine iff_of_false ?_ hinTime
    rintro ⟨e, he⟩
    cases he

theorem serve_of_error {t : TimedBatcher α} {request : Request α} {e : ClockError}
    (h : (t.serve request).result = .error e) :
    (t.serve request).state = t ∧ (t.serve request).events = [] := by
  rcases t.serve_cases request with ⟨-, e, hfails⟩ | ⟨-, r, hanswer⟩
  · rw [hfails]
    exact ⟨rfl, rfl⟩
  · rw [hanswer] at h
    cases h

/-- In place, too, nothing has changed when a request fails. -/
theorem Program.run_serve_error {request : Request α} {p q : Progress α} {e : ClockError}
    (h : (Program.serve request).run p = .error e q) : q = p := by
  obtain ⟨t, events⟩ := p
  rw [Program.run_serve, ending] at h
  split at h
  · cases h
  · next hresult =>
    obtain ⟨hstate, hevents⟩ := serve_of_error hresult
    cases h
    rw [hstate, hevents, List.append_nil]

/-- Let a batcher with its clock be in any state. A request fails just when it is too late for it:
to move the clock on by so much, or to read it; a flush and a clearing never fail. A request that
fails leaves the batcher, with the values, their instants and their number, and the clock as they
were, and reports nothing. This is so even if the changes are made one after the other in place,
and nothing is taken back. So over any run, the requests that do not fail get the same answers,
raise the same reports and lead to the same state as if the others had not been made. -/
theorem run_as_if_failures_were_not_made (t : TimedBatcher α) (requests : List (Request α)) :
    (∀ request, (∃ e, (t.serve request).result = .error e) ↔ t.TooLate request) ∧
      (∀ request e, (t.serve request).result = .error e →
        (t.serve request).state = t ∧ (t.serve request).events = []) ∧
      (∀ request events, (Program.serve request).run ⟨t, events⟩ =
        ending events (t.serve request)) ∧
      (∀ request events e p, (Program.serve request).run ⟨t, events⟩ = .error e p →
        p = ⟨t, events⟩) ∧
      Step.forEach serve t (Step.succeeding serve t requests) =
        (Step.forEach serve t requests).map (List.filter Except.isOk) := by
  refine ⟨t.serve_fails_iff, fun _ _ => serve_of_error, fun request => ?_, ?_, ?_⟩
  · exact Program.run_serve request t
  · exact fun _ _ _ _ => Program.run_serve_error
  · exact Step.forEach_succeeding (fun _ _ _ => serve_of_error) t requests

/-- The clock has moved as far as a duration goes. It can neither be moved on nor read, so the value
that has been stale for long is still there to be flushed. -/
example :
    let late : TimedBatcher Nat :=
      { batcher := { ring := (Ring.empty 3).insert ⟨1, ⟨0⟩⟩, window := ⟨100, by decide⟩ }
        clock := { elapsed := ⟨Nat.pow 2 64 * nanosPerSecond - 1, by decide⟩ } }
    (Step.forEach serve late [.advance ⟨1, by decide⟩, .push 2, .flush]).result =
      [.error .durationTooLong, .error .instantTooLate, .ok (.values [1])] := by
  rfl

/-! ## Clocks that go back -/

/-- Pushes a value when the clock shows a time after its origin. -/
def pushAt (t : TimedBatcher α) (r : Duration × α) :
    Step (TimedBatcher α) (Except ClockError (Option (List α))) :=
  (t.setTime r.1).push r.2

/-- Whatever times the clock shows at the pushes, earlier ones after later ones too, as long as it can
be read the batcher does what it does at these instants. -/
theorem run_at_any_times (t : TimedBatcher α) (pushes : List (Duration × α))
    (hread : ∀ r ∈ pushes, t.clock.origin.nanos + r.1.nanos < Instant.limit) :
    let timed := Step.forEach pushAt t pushes
    let plain := Step.forEach
      (fun b (r : Duration × α) => b.push ⟨t.clock.origin.nanos + r.1.nanos⟩ r.2) t.batcher pushes
    timed.state.batcher = plain.state ∧ timed.result = plain.result.map Except.ok ∧
      timed.events = plain.events := by
  induction pushes generalizing t with
  | nil => exact ⟨rfl, rfl, rfl⟩
  | cons r rest ih =>
      have hnow : (t.setTime r.1).clock.now = .ok ⟨t.clock.origin.nanos + r.1.nanos⟩ :=
        if_pos (hread r List.mem_cons_self)
      have hpush : t.pushAt r = _ := push_of_now_ok hnow r.2
      -- The step changes how far the clock has moved, but not from where.
      have horigin : (t.pushAt r).state.clock.origin = t.clock.origin := by
        rw [hpush]
        rfl
      obtain ⟨hstate, hresult, hevents⟩ := ih (t.pushAt r).state fun s hs =>
        horigin ▸ hread s (List.mem_cons_of_mem r hs)
      rw [horigin, hpush] at hstate hresult hevents
      rw [Step.forEach_cons, Step.forEach_cons, hpush]
      exact ⟨hstate, congrArg (Except.ok _ :: ·) hresult, congrArg (_ ++ ·) hevents⟩

end TimedBatcher

end Retention
