/-
# Retention.Proofs.Visited -- a visitor sees everything up to the element that it declines

A visit follows the links of a chain, one after the other, while the visitor wants to go on, and
nothing bounds its steps. `Toured` follows it in this way. Both directions come to an end in every
chain that a queue or a cache can get into, also when keys change inside the cache, because the
links run through the entries once each way. So what a visitor is shown is what it sees of the list:
the shortest beginning that ends with a refusal, or all.
-/
import Mathlib
import Retention.Proofs.Footprint
import Retention.Proofs.Visitor

namespace Retention

universe u v w

/-! ## Following the links -/

namespace Chain

variable {α : Type u} {σ : Type v} {c : Chain α} {es : List (Slot × α)}

/-- A visit that stands at a slot, with this in the visitor's memory, ends with `last` in it. -/
inductive Toured (c : Chain α) (onward : Node α → Option Slot) (visitor : σ → α → σ × Bool) :
    σ → Option Slot → σ → Prop
  | ended (memory : σ) : Toured c onward visitor memory none memory
  | lost {memory : σ} {s : Slot} (hs : c.arena.get? s = none) :
      Toured c onward visitor memory (some s) memory
  | declined {memory : σ} {s : Slot} {node : Node α} (hs : c.arena.get? s = some node)
      (hno : (visitor memory node.value).2 = false) :
      Toured c onward visitor memory (some s) (visitor memory node.value).1
  | onward {memory last : σ} {s : Slot} {node : Node α} (hs : c.arena.get? s = some node)
      (hyes : (visitor memory node.value).2 = true)
      (hrest : Toured c onward visitor (visitor memory node.value).1 (onward node) last) :
      Toured c onward visitor memory (some s) last

theorem Toured.unique {onward : Node α → Option Slot} {visitor : σ → α → σ × Bool}
    {memory last last' : σ} {here : Option Slot} (h : Toured c onward visitor memory here last)
    (h' : Toured c onward visitor memory here last') : last = last' := by
  induction h with
  | ended =>
      cases h' with
      | ended => rfl
  | lost hs =>
      cases h' with
      | lost => rfl
      | declined hs' => cases hs.symm.trans hs'
      | onward hs' => cases hs.symm.trans hs'
  | declined hs hno =>
      cases h' with
      | lost hs' => cases hs.symm.trans hs'
      | declined hs' =>
          cases hs.symm.trans hs'
          rfl
      | onward hs' hyes =>
          cases hs.symm.trans hs'
          cases hno.symm.trans hyes
  | onward hs hyes _ ih =>
      cases h' with
      | lost hs' => cases hs.symm.trans hs'
      | declined hs' hno =>
          cases hs.symm.trans hs'
          cases hno.symm.trans hyes
      | onward hs' _ hrest =>
          cases hs.symm.trans hs'
          exact ih hrest

/-- A walk that ended before its steps were used up shows a visitor the same as the links do. -/
theorem toured_of_length_lt {onward : Node α → Option Slot} {n : Nat} {here : Option Slot}
    (hlt : (c.walk onward n here).length < n) (visitor : σ → α → σ × Bool) (memory : σ) :
    Toured c onward visitor memory here
      (visit visitor memory ((c.walk onward n here).map Prod.snd)) := by
  induction n generalizing here memory with
  | zero => exact absurd hlt (Nat.not_lt_zero _)
  | succ n ih =>
      cases here with
      | none =>
          rw [walk_none]
          exact .ended memory
      | some s =>
          cases hs : c.arena.get? s with
          | none =>
              rw [walk, hs]
              exact .lost hs
          | some node =>
              rw [walk_some onward n hs] at hlt ⊢
              rw [List.map_cons, visit_cons]
              cases hyes : (visitor memory node.value).2 with
              | false => exact .declined hs hyes
              | true => exact .onward hs hyes (ih (Nat.lt_of_succ_lt_succ hlt) _)

theorem toured_iff_of_length_lt {onward : Node α → Option Slot} {n : Nat} {here : Option Slot}
    (hlt : (c.walk onward n here).length < n) (visitor : σ → α → σ × Bool) (memory last : σ) :
    Toured c onward visitor memory here last ↔
      last = visit visitor memory ((c.walk onward n here).map Prod.snd) := by
  constructor
  · intro h
    exact h.unique (toured_of_length_lt hlt visitor memory)
  · rintro rfl
    exact toured_of_length_lt hlt visitor memory

/-- From the front a visit shows the elements as they are listed. -/
theorem Linked.toured_next_iff (h : c.Linked es) (visitor : σ → α → σ × Bool) (memory last : σ) :
    Toured c Node.next visitor memory c.head last ↔ last = visit visitor memory c.toList := by
  have hwalk := h.walk_next (Nat.le_succ es.length)
  rw [h.toList_eq, ← congrArg (List.map Prod.snd) hwalk]
  apply toured_iff_of_length_lt
  rw [hwalk]
  exact Nat.lt_succ_self es.length

/-- From the back it shows them the other way round. -/
theorem Linked.toured_prev_iff (h : c.Linked es) (visitor : σ → α → σ × Bool) (memory last : σ) :
    Toured c Node.prev visitor memory c.tail last ↔
      last = visit visitor memory c.toList.reverse := by
  have hwalk := h.walk_prev (Nat.le_succ es.length)
  rw [h.toList_eq, ← List.map_reverse, ← congrArg (List.map Prod.snd) hwalk]
  apply toured_iff_of_length_lt
  rw [hwalk, List.length_reverse]
  exact Nat.lt_succ_self es.length

/-- Visits of a chain from the front and from the back: what the visitor has in memory at the end of
each, and what it has if it kept a record. They show it what they should, and following the links
comes to the same end and to no other. -/
structure ShownBothWays (c : Chain α) (visitor : σ → α → σ × Bool) (memory : σ) (forth back : σ)
    (notedForth notedBack : σ × List α) : Prop where
  from_front : UntilDeclined visitor memory c.toList forth notedForth
  from_back : UntilDeclined visitor memory c.toList.reverse back notedBack
  next_iff : ∀ last, Toured c Node.next visitor memory c.head last ↔ last = forth
  prev_iff : ∀ last, Toured c Node.prev visitor memory c.tail last ↔ last = back

theorem Linked.shownBothWays (h : c.Linked es) (visitor : σ → α → σ × Bool) (memory : σ) :
    ShownBothWays c visitor memory (visit visitor memory c.toList)
      (visit visitor memory c.toListRev) (visit (recording visitor) (memory, []) c.toList)
      (visit (recording visitor) (memory, []) c.toListRev) := by
  rw [h.toListRev_eq]
  exact ⟨untilDeclined_visit visitor memory _, untilDeclined_visit visitor memory _,
    h.toured_next_iff visitor memory, h.toured_prev_iff visitor memory⟩

/-- Each element is listed once: there are as many as the chain has, and each has its own slot. -/
theorem Linked.listed_once (h : c.Linked es) :
    (slots c.entries).Nodup ∧ c.toList = c.entries.map Prod.snd ∧ c.toList.length = c.size := by
  obtain rfl := h.entries_eq
  refine ⟨h.owns.nodup, rfl, ?_⟩
  rw [toList, List.length_map, h.length_eq]

end Chain

/-! ## The result -/

/-- After any run, a visit of a queue or of a cache with room for a value shows the values from
newest to oldest, or from most to least recent, or the other way round: the shortest beginning of
that list whose last value the visitor declines, and the whole list if it declines none. The visitor
may go by all that it has been shown, and keys may have changed while their values were in the
cache. Following the links from node to node, a visit comes to the same end. So a visitor that stops
after `k` values has seen the first `k` from either side, or all if there are fewer, each value once
because each is listed once. -/
theorem run_visits_until_declined {κ : Type u} [BEq κ] [Hashable κ] {α : Type v} {σ : Type w} :
    (∀ (capacity : Nat) (actions : List (Queue.Action α)),
      let q := (Step.forEach Queue.act (Queue.create capacity) actions).state
      ((Chain.slots q.chain.entries).Nodup ∧ q.toList = q.chain.entries.map Prod.snd ∧
          q.toList.length = q.size) ∧
        ∀ (visitor : σ → α → σ × Bool) (memory : σ),
          q.chain.ShownBothWays visitor memory (q.visit visitor memory) (q.visitRev visitor memory)
            (q.visit (recording visitor) (memory, []))
            (q.visitRev (recording visitor) (memory, []))) ∧
      ∀ capacity, 0 < capacity → ∀ requests : List ((α → κ) × Cache.Request κ α),
        ∃ fresh : Cache κ α, Cache.create capacity = .ok fresh ∧
          let c := (Step.forEach Cache.serveAt fresh requests).state
          ((Chain.slots c.chain.entries).Nodup ∧ c.toList = c.chain.entries.map Prod.snd ∧
              c.toList.length = c.size) ∧
            ∀ (visitor : σ → α → σ × Bool) (memory : σ),
              c.chain.ShownBothWays visitor memory (c.visit visitor memory)
                (c.visitRev visitor memory) (c.visit (recording visitor) (memory, []))
                (c.visitRev (recording visitor) (memory, [])) := by
  constructor
  · intro capacity actions q
    have hthrifty : Queue.Thrifty capacity q :=
      Step.forEach_induction (fun _ action h => h.act action) (Queue.thrifty_create capacity)
        actions
    obtain ⟨xs, ⟨es, hlinked, -⟩, -, -⟩ := hthrifty.holds
    exact ⟨hlinked.listed_once, hlinked.shownBothWays⟩
  · intro capacity hc requests
    refine ⟨{ capacity }, if_neg (Nat.ne_of_gt hc), ?_⟩
    have horderly := Cache.orderly_forEach_serveAt hc requests
    exact ⟨horderly.linked.listed_once, horderly.linked.shownBothWays⟩

/-- Values 6, 5 and 4 in a queue that was cleared once. A visitor that adds them up and declines the
one that makes 10 sees 6 and 5 from the front; from the back it declines the last. One that stops
after two sees two. In the cache value 4 has come into the slot of another one under a key that it
had only then. -/
theorem run_visits_until_declined_sums :
    let below (limit sum x : Nat) : Nat × Bool := (sum + x, sum + x < limit)
    let counting (count _x : Nat) : Nat × Bool := (count + 1, count + 1 < 2)
    let actions : List (Queue.Action Nat) := [.request (.push 1), .request (.push 2), .clear,
      .request (.push 3), .request (.push 4), .request (.push 5), .request (.push 6)]
    let q := (Step.forEach Queue.act (Queue.create 3) actions).state
    (q.toList = [6, 5, 4] ∧ q.visit (recording (below 10)) (0, []) = (11, [6, 5]) ∧
        Sees (below 10) 0 q.toList [6, 5] ∧
        q.visitRev (recording (below 10)) (0, []) = (15, [4, 5, 6]) ∧
        (∀ last, q.chain.Toured Node.prev (below 10) 0 q.chain.tail last ↔ last = 15) ∧
        StopsAfter 2 counting 0 ∧
        (q.visitRev (recording counting) (0, [])).2 = [4, 5]) ∧
      0 < 2 ∧ ∃ fresh : Cache Nat Nat, Cache.create 2 = .ok fresh ∧
        let requests : List ((Nat → Nat) × Cache.Request Nat Nat) :=
          [(id, .addAll [1, 2]), (fun v => if v = 1 then 9 else v, .evict), (id, .add 3),
            (fun v => if v = 4 then 1 else v, .add 4), (id, .add 5)]
        let c := (Step.forEach Cache.serveAt fresh requests).state
        c.toList = [5, 4] ∧ c.visit (recording (below 5)) (0, []) = (5, [5]) ∧
          Sees (below 5) 0 c.toList (c.visit (recording (below 5)) (0, [])).2 ∧
          c.visitRev (recording (below 5)) (0, []) = (9, [4, 5]) := by
  intro below counting actions q
  obtain ⟨hqueue, hcache⟩ := @run_visits_until_declined Nat _ _ Nat Nat
  obtain ⟨-, hshown⟩ := hqueue 3 actions
  obtain ⟨hforth, -, -, hprev⟩ := hshown (below 10) 0
  obtain ⟨-, hback, -, -⟩ := hshown counting 0
  obtain ⟨fresh, hfresh, -, hcached⟩ := hcache 2 (by decide)
    [(id, .addAll [1, 2]), (fun v => if v = 1 then 9 else v, .evict), (id, .add 3),
      (fun v => if v = 4 then 1 else v, .add 4), (id, .add 5)]
  obtain ⟨hfront, -, -, -⟩ := hcached (below 5) 0
  obtain rfl : ({ capacity := 2 } : Cache Nat Nat) = fresh := Except.ok.inj hfresh
  have hstops : StopsAfter 2 counting 0 := by
    intro before x
    have hcount : remembered counting 0 before = before.length := by
      simp [remembered, counting]
    rw [hcount]
  have hvisit : q.visit (recording (below 10)) (0, []) = (11, [6, 5]) := by decide +kernel
  have hseen := hforth.sees
  rw [hvisit] at hseen
  refine ⟨⟨?_, hvisit, hseen, ?_, hprev, hstops, ?_⟩, by decide, _, hfresh, ?_⟩
  · decide +kernel
  · decide +kernel
  · rw [(hback.first 2 (by decide) hstops).1]
    decide +kernel
  · refine ⟨?_, ?_, hfront.sees, ?_⟩
    · cbv
    · cbv
    · cbv

end Retention
