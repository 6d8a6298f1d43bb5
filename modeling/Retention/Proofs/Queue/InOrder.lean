/-
# Retention.Proofs.Queue.InOrder -- what enters a queue leaves it in the same order

Seen from outside a queue is a line of items with the oldest in front. `Effect` says what a request
does to the line and what is handed back for it. An item that is offered lines up behind the others,
and if it finds as many there as the capacity allows, the first of the line leaves, the newcomer
being the first when there is no room at all. So every request keeps this law: the line before it
and the items offered to it are the items that it hands back and the line after it. Over a run the
law adds up, and nothing is lost, doubled or reordered.
-/
import Mathlib.Data.List.Rotate
import Retention.Queue
import Retention.Proofs.Chain.Reading
import Retention.Proofs.Run
import Retention.Proofs.Visitor

namespace Retention.Queue

universe u v

variable {α : Type u} {capacity : Nat} {q : Queue α} {xs ys : List α} {x : α}

/-! ## Requests -/

/-- What a queue can be asked. -/
inductive Request (α : Type u) where
  | enqueue (item : Item α)
  | push (x : α)
  | dequeue

/-- What the caller gets. -/
inductive Answer (α : Type u) where
  | item (i : Option (Item α))
  | value (x : Option α)

/-- The values offered to the queue by a request, at most one. -/
def Request.offered : Request α → List α
  | .enqueue item => [item.value]
  | .push x => [x]
  | .dequeue => []

/-- The values handed back by an answer, at most one. -/
def Answer.handedBack : Answer α → List α
  | .item i => i.toList.map Item.value
  | .value x => x.toList

/-- One request to a queue. -/
def serve (q : Queue α) : Request α → Step (Queue α) (Answer α)
  | .enqueue item => (q.enqueue item).map .item
  | .push x => (q.push x).map .value
  | .dequeue =>
    match q.dequeue? with
    | some (oldest, rest) => { state := rest, result := .item (some oldest) }
    | none => { state := q, result := .item none }

/-! ## The line -/

/-- What a request does to a line, the oldest in front, and what it is answered. -/
inductive Effect (capacity : Nat) : List α → Request α → Answer α → List α → Prop
  | enters {xs : List α} {request : Request α} {answer : Answer α} {x : α}
      (hoffer : request.offered = [x]) (hroom : xs.length < capacity)
      (hback : answer.handedBack = []) : Effect capacity xs request answer (xs ++ [x])
  | displaces {xs ys : List α} {request : Request α} {answer : Answer α} {x oldest : α}
      (hoffer : request.offered = [x]) (hfull : capacity ≤ xs.length)
      (hline : xs ++ [x] = oldest :: ys) (hback : answer.handedBack = [oldest]) :
      Effect capacity xs request answer ys
  | leaves (x : α) (xs : List α) : Effect capacity (x :: xs) .dequeue (.item (some ⟨x⟩)) xs
  | stays_empty : Effect capacity [] .dequeue (.item none) []

/-- The diagnostics of a request: a full queue with some room reports that it drops its oldest item
for a new one. -/
def overflow (capacity : Nat) (request : Request α) (answer : Answer α) : List Diagnostic :=
  if 0 < capacity ∧ request.offered ≠ [] ∧ answer.handedBack ≠ [] then [.queueOverflowed capacity]
  else []

section
variable {request : Request α} {answer : Answer α}

/-- No request loses, doubles or reorders an item. -/
theorem Effect.conserves (h : Effect capacity xs request answer ys) :
    xs ++ request.offered = answer.handedBack ++ ys := by
  cases h with
  | enters hoffer _ hback => rw [hoffer, hback, List.nil_append]
  | displaces hoffer _ hline hback => rw [hoffer, hback, hline, List.singleton_append]
  | leaves => rw [Request.offered, List.append_nil]; rfl
  | stays_empty => rfl

/-- Something is handed back for an offer exactly if the line is full. -/
theorem Effect.handsBack_iff (h : Effect capacity xs request answer ys)
    (hoffer : request.offered ≠ []) : answer.handedBack ≠ [] ↔ capacity ≤ xs.length := by
  cases h with
  | enters _ hroom hback => simp [hback, hroom]
  | displaces _ hfull _ hback => simp [hback, hfull]
  | leaves => exact absurd rfl hoffer
  | stays_empty => exact absurd rfl hoffer

/-- Without any room, what is offered is what is handed back. -/
theorem Effect.handedBack_of_no_room (h : Effect 0 ([] : List α) request answer ys)
    (hoffer : request.offered ≠ []) : answer.handedBack = request.offered := by
  cases h with
  | enters _ hroom => exact absurd hroom (Nat.not_lt_zero _)
  | displaces hoffer _ hline hback =>
      rw [List.nil_append] at hline
      rw [hoffer, hback, (List.cons.inj hline).1]
  | stays_empty => exact absurd rfl hoffer

/-- Nothing is handed back for the wish to take an item exactly if there is none. -/
theorem Effect.dequeue_iff (h : Effect capacity xs .dequeue answer ys) :
    answer.handedBack = [] ↔ xs = [] := by
  cases h with
  | enters hoffer => exact absurd hoffer (by simp [Request.offered])
  | displaces hoffer => exact absurd hoffer (by simp [Request.offered])
  | leaves => simp [Answer.handedBack]
  | stays_empty => simp [Answer.handedBack]

/-- Over a run the line at its beginning and all items offered are all items handed back and the
line at its end. -/
theorem conserves_of_follows {ts : List (Request α × Answer α)}
    (h : Step.Follows (Effect capacity) xs ts ys) :
    xs ++ (ts.map Prod.fst).flatMap Request.offered =
      (ts.map Prod.snd).flatMap Answer.handedBack ++ ys :=
  Step.follows_conserves (fun _ _ _ _ hfirst => hfirst.conserves) h

end

/-! ## Reading -/

/-- A queue of this capacity holds these items, the oldest in front. -/
structure Holds (capacity : Nat) (q : Queue α) (xs : List α) : Prop where
  linked : ∃ es, q.chain.Linked es ∧ es.map Prod.snd = xs.reverse
  capacity_eq : q.capacity = capacity
  length_le : xs.length ≤ capacity

/-- A queue of this capacity shows these items, the oldest in front, and finds itself in order. A
visitor is shown the newest first: one that collects them gets them all, and any other sees them as
far as the one that it declines. -/
structure Shows (capacity : Nat) (q : Queue α) (xs : List α) : Prop where
  toListRev_eq : q.toListRev = xs
  toList_eq : q.toList = xs.reverse
  collected : q.visit collecting [] = xs.reverse
  seen : ∀ {σ : Type v} (visitor : σ → α → σ × Bool) (memory : σ),
    UntilDeclined visitor memory xs.reverse (q.visit visitor memory)
      (q.visit (recording visitor) (memory, []))
  oldest?_eq : q.oldest? = xs.head?
  newest?_eq : q.newest? = xs.getLast?
  size_eq : q.size = xs.length
  capacity_eq : q.capacity = capacity
  size_le : q.size ≤ capacity
  audit_eq_ok : q.audit = .ok ()

theorem Holds.size_eq (h : Holds capacity q xs) : q.size = xs.length := by
  obtain ⟨⟨es, hlinked, hes⟩, -, -⟩ := h
  rw [← List.length_reverse, ← hes, List.length_map]
  exact hlinked.length_eq

theorem Holds.toList_eq (h : Holds capacity q xs) : q.toList = xs.reverse := by
  obtain ⟨⟨es, hlinked, hes⟩, -, -⟩ := h
  exact hlinked.toList_eq.trans hes

theorem Holds.toListRev_eq (h : Holds capacity q xs) : q.toListRev = xs := by
  have hlist := h.toList_eq
  obtain ⟨⟨es, hlinked, -⟩, -, -⟩ := h
  exact (hlinked.toListRev_eq.trans (congrArg _ hlist)).trans xs.reverse_reverse

theorem Holds.shows (h : Holds capacity q xs) : Shows.{u, v} capacity q xs := by
  have hsize := h.size_eq
  have hlist := h.toList_eq
  have hrev := h.toListRev_eq
  obtain ⟨⟨es, hlinked, hes⟩, rfl, hlength⟩ := h
  have hle : q.size ≤ q.capacity := hsize ▸ hlength
  refine ⟨hrev, hlist, ?_, ?_, ?_, ?_, hsize, rfl, hle, ?_⟩
  · rw [visit, hlist, visit_collecting, List.nil_append]
  · intro σ visitor memory
    rw [visit, visit, hlist]
    exact untilDeclined_visit visitor memory xs.reverse
  · rw [oldest?, hlinked.back?_eq, ← List.getLast?_map, hes, List.getLast?_reverse]
  · rw [newest?, hlinked.front?_eq, ← List.head?_map, hes, List.head?_reverse]
  · rw [audit, hlinked.audit_eq_ok]
    exact if_neg (Nat.not_lt.mpr hle)

theorem holds_create (capacity : Nat) : Holds capacity (create capacity : Queue α) [] where
  linked := ⟨[], Chain.linked_empty, rfl⟩
  capacity_eq := rfl
  length_le := Nat.zero_le capacity

/-! ## Entering and leaving -/

theorem Holds.enter (h : Holds capacity q xs) (hroom : xs.length < capacity) (item : Item α) :
    Holds capacity (q.enter item) (xs ++ [item.value]) := by
  obtain ⟨⟨es, hlinked, hes⟩, hcapacity, -⟩ := h
  obtain ⟨-, hnext⟩ := hlinked.pushFront item.value
  refine ⟨⟨_, hnext, ?_⟩, hcapacity, ?_⟩
  · rw [List.map_cons, hes, List.reverse_append]
    rfl
  · rw [List.length_append]
    exact hroom

theorem Holds.dequeue?_nil (h : Holds capacity q []) : q.dequeue? = none := by
  obtain ⟨⟨es, hlinked, hes⟩, -, -⟩ := h
  obtain rfl := List.map_eq_nil_iff.mp hes
  rw [dequeue?, hlinked.popBack?_nil]
  rfl

theorem Holds.dequeue?_cons (h : Holds capacity q (x :: xs)) :
    ∃ p, q.dequeue? = some (⟨x⟩, p) ∧ Holds capacity p xs := by
  obtain ⟨⟨es, hlinked, hes⟩, hcapacity, hlength⟩ := h
  rw [List.reverse_cons] at hes
  -- The first of the line is the element at the back of the chain.
  obtain ⟨fs, gs, rfl, hfs, hgs⟩ := List.map_eq_append_iff.mp hes
  obtain ⟨e, rfl, rfl⟩ := List.map_eq_singleton_iff.mp hgs
  obtain ⟨chain, hpop, hnext⟩ := hlinked.popBack?_concat
  refine ⟨{ q with chain }, ?_, ⟨fs, hnext, hfs⟩, hcapacity, Nat.le_of_succ_le hlength⟩
  rw [dequeue?, hpop]
  rfl

theorem Holds.isFull_iff (h : Holds capacity q xs) :
    q.isFull = true ↔ capacity ≤ xs.length := by
  rw [isFull, Occupancy.isFull_iff, ← h.capacity_eq, ← h.size_eq]
  rfl

/-- An item that finds room lines up behind the others. -/
theorem Holds.enqueue_of_room (h : Holds capacity q xs) (hroom : xs.length < capacity)
    (item : Item α) :
    q.enqueue item = { state := q.enter item, result := none } := by
  have hsome : q.capacity ≠ 0 := by
    rw [h.capacity_eq]
    exact Nat.ne_of_gt (Nat.zero_lt_of_lt hroom)
  have hnotFull : ¬ q.isFull = true := fun hfull =>
    Nat.not_le.mpr hroom (h.isFull_iff.mp hfull)
  rw [enqueue, if_neg hsome, if_neg hnotFull]

/-- For an item that finds none, the first of the line leaves, and that is reported, unless the
item is the first itself. -/
theorem Holds.enqueue_of_full (h : Holds capacity q xs) (hfull : capacity ≤ xs.length)
    (item : Item α) :
    ∃ oldest ys p, xs ++ [item.value] = oldest :: ys ∧ Holds capacity p ys ∧
      q.enqueue item =
        { state := p
          result := some ⟨oldest⟩
          events := if 0 < capacity then [.queueOverflowed capacity] else [] } := by
  have hcapacity := h.capacity_eq
  cases xs with
  | nil =>
      have hzero : capacity = 0 := Nat.eq_zero_of_le_zero hfull
      subst hzero
      refine ⟨item.value, [], q, rfl, h, ?_⟩
      rw [enqueue, if_pos hcapacity]
      rfl
  | cons x xs =>
      have hlength := h.length_le
      rw [List.length_cons] at hlength
      have hpos : 0 < capacity := Nat.zero_lt_of_lt hlength
      obtain ⟨p, hdequeue, hp⟩ := h.dequeue?_cons
      refine ⟨x, xs ++ [item.value], p.enter item, rfl, hp.enter hlength item, ?_⟩
      rw [enqueue, if_neg (hcapacity.trans_ne (Nat.ne_of_gt hpos)), if_pos (h.isFull_iff.mpr hfull),
        hdequeue, hcapacity, if_pos hpos]

/-! ## Steps and runs -/

/-- An offer has its effect, however it is made, and reports an overflow as it should. -/
theorem Holds.offer (h : Holds capacity q xs) {request : Request α} {item : Item α}
    (hoffer : request.offered = [item.value]) (form : Option (Item α) → Answer α)
    (hform : ∀ out, (form out).handedBack = out.toList.map Item.value) :
    let done := (q.enqueue item).map form
    (∃ ys, Effect capacity xs request done.result ys ∧ Holds capacity done.state ys) ∧
      done.events = overflow capacity request done.result := by
  by_cases hfull : capacity ≤ xs.length
  · obtain ⟨oldest, ys, p, hline, hp, henqueue⟩ := h.enqueue_of_full hfull item
    have hback : (form (some ⟨oldest⟩)).handedBack = [oldest] := hform _
    rw [henqueue]
    refine ⟨⟨ys, .displaces hoffer hfull hline hback, hp⟩, ?_⟩
    simp [Step.map, overflow, hoffer, hback]
  · have hroom := Nat.lt_of_not_le hfull
    have hback : (form none).handedBack = [] := hform _
    rw [h.enqueue_of_room hroom item]
    refine ⟨⟨_, .enters hoffer hroom hback, h.enter hroom item⟩, ?_⟩
    simp [Step.map, overflow, hback]

/-- Every request has its effect on the line, and reports an overflow as it should. -/
theorem Holds.serve (h : Holds capacity q xs) (request : Request α) :
    (∃ ys, Effect capacity xs request (q.serve request).result ys ∧
        Holds capacity (q.serve request).state ys) ∧
      (q.serve request).events = overflow capacity request (q.serve request).result := by
  cases request with
  | enqueue item => exact h.offer rfl .item fun out => rfl
  | push x =>
      have hoffer : (Request.push x).offered = [Item.value ⟨x⟩] := rfl
      refine h.offer hoffer (fun out => .value (out.map Item.value)) fun out => ?_
      cases out <;> rfl
  | dequeue =>
      have hquiet : ∀ answer, overflow capacity (Request.dequeue : Request α) answer = [] := by
        intro answer
        simp [overflow, Request.offered]
      rw [hquiet]
      cases xs with
      | nil =>
          rw [Queue.serve, h.dequeue?_nil]
          exact ⟨⟨[], .stays_empty, h⟩, rfl⟩
      | cons x xs =>
          obtain ⟨p, hdequeue, hp⟩ := h.dequeue?_cons
          rw [Queue.serve, hdequeue]
          exact ⟨⟨xs, .leaves x xs, hp⟩, rfl⟩

/-- After any run the queue holds the line that it shows, and the requests had their effects on the
lines up to this one. -/
theorem follows_run (capacity : Nat) (requests : List (Request α)) :
    let q := (Step.forEach serve (create capacity) requests).state
    Step.Follows (Effect capacity) [] (Step.transcript serve (create capacity) requests)
        q.toListRev ∧
      Holds capacity q q.toListRev := by
  obtain ⟨xs, hfollows, hholds⟩ :=
    Step.forEach_follows (fun _ _ request h => (h.serve request).1)
      (holds_create (α := α) capacity) requests
  obtain rfl := hholds.toListRev_eq
  exact ⟨hfollows, hholds⟩

/-- A queue of any capacity, none included, hands items back in the order in which they were
offered: after any run from a queue without items, fresh or just cleared, the items handed back so
far and those still in the line, the oldest in front, are all items offered so far. The line is what
the queue shows, and it is never longer than the capacity. Any further request has its effect on the
line, and reports an overflow exactly if an item has to leave for another one. For an offer an item
is handed back exactly if the line is full, the very item offered if there is no room at all; a wish
to take an item fails exactly if there is none. -/
theorem run_hands_back_in_order (capacity : Nat) (requests : List (Request α)) :
    let served := Step.forEach serve (create capacity) requests
    let q := served.state
    served.result.flatMap Answer.handedBack ++ q.toListRev = requests.flatMap Request.offered ∧
      Shows.{u, v} capacity q q.toListRev ∧
      (∀ request,
        let done := q.serve request
        Effect capacity q.toListRev request done.result done.state.toListRev ∧
          done.events = overflow capacity request done.result ∧
          (request.offered ≠ [] →
            (done.result.handedBack ≠ [] ↔ capacity ≤ q.size) ∧
              (capacity = 0 → done.result.handedBack = request.offered))) ∧
      ((q.serve .dequeue).result.handedBack = [] ↔ q.size = 0) ∧
      ∀ used : Queue α, used.capacity = capacity → used.clear = create capacity := by
  obtain ⟨hfollows, hholds⟩ := follows_run capacity requests
  have hsize := hholds.size_eq
  refine ⟨?_, hholds.shows, fun request => ?_, ?_, ?_⟩
  · have hlaw := conserves_of_follows hfollows
    rw [Step.map_fst_transcript, Step.map_snd_transcript, List.nil_append] at hlaw
    exact hlaw.symm
  · obtain ⟨⟨ys, heffect, hnext⟩, hevents⟩ := hholds.serve request
    obtain rfl := hnext.toListRev_eq
    refine ⟨heffect, hevents, fun hoffer => ⟨?_, fun hzero => ?_⟩⟩
    · rw [hsize]
      exact heffect.handsBack_iff hoffer
    · subst hzero
      rw [List.eq_nil_of_length_eq_zero (Nat.eq_zero_of_le_zero hholds.length_le)] at heffect
      exact heffect.handedBack_of_no_room hoffer
  · obtain ⟨⟨ys, heffect, -⟩, -⟩ := hholds.serve .dequeue
    rw [heffect.dequeue_iff, hsize, List.length_eq_zero_iff]
  · rintro used rfl
    rfl

/-! ## Going round -/

/-- An item that leaves makes room for itself, so if it enters again at once the line turns, and
nothing is handed back or reported for it. -/
theorem Holds.requeue (h : Holds capacity q xs) :
    q.requeue.result = none ∧ q.requeue.events = [] ∧
      Holds capacity q.requeue.state (xs.rotate 1) := by
  cases xs with
  | nil =>
      rw [Queue.requeue, h.dequeue?_nil]
      exact ⟨rfl, rfl, h⟩
  | cons x xs =>
      have hroom : xs.length < capacity := h.length_le
      obtain ⟨p, hdequeue, hp⟩ := h.dequeue?_cons
      rw [Queue.requeue, hdequeue, List.rotate_cons_succ, List.rotate_zero]
      show (p.enqueue ⟨x⟩).result = none ∧ (p.enqueue ⟨x⟩).events = [] ∧
        Holds capacity (p.enqueue ⟨x⟩).state (xs ++ [x])
      rw [hp.enqueue_of_room hroom]
      exact ⟨rfl, rfl, hp.enter hroom ⟨x⟩⟩

theorem Holds.requeue_iterate (h : Holds capacity q xs) (n : Nat) :
    Holds capacity ((fun q => q.requeue.state)^[n] q) (xs.rotate n) := by
  induction n generalizing q xs with
  | zero => rwa [List.rotate_zero]
  | succ n ih =>
      obtain ⟨-, -, hnext⟩ := h.requeue
      have hlast := ih hnext
      rwa [List.rotate_rotate, Nat.add_comm] at hlast

/-- After any run, letting the oldest item leave and enter again turns the line by one place; as
often as there are items, and the line is what it was. -/
theorem run_then_requeue_turns_line (capacity : Nat) (requests : List (Request α)) :
    let q := (Step.forEach serve (create capacity) requests).state
    let turned (n : Nat) := (fun q : Queue α => q.requeue.state)^[n] q
    (∀ n, (turned n).toListRev = q.toListRev.rotate n ∧ (turned n).requeue.result = none) ∧
      (turned q.size).toListRev = q.toListRev := by
  intro q turned
  obtain ⟨-, hholds⟩ := follows_run capacity requests
  have hsize := hholds.size_eq
  have hturned (n : Nat) : Holds capacity (turned n) (q.toListRev.rotate n) :=
    hholds.requeue_iterate n
  refine ⟨fun n => ⟨(hturned n).toListRev_eq, (hturned n).requeue.1⟩, ?_⟩
  rw [(hturned q.size).toListRev_eq, hsize, List.rotate_length]

end Retention.Queue
