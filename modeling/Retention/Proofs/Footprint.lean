/-
# Retention.Proofs.Footprint -- how many slots a run takes

An arena never gives a slot back to the memory, so the number of its slots says how much it takes.
That number is a high-water mark: the greatest number of values that were in the arena at one time,
since it was created or last cleared. For a removal always leaves its slot on the free list, and an
insertion takes one from there as long as there is one.

A chain puts a node into its arena when an element is pushed and takes it out when the element is
removed; links are rewritten in place. So its slots are bounded by what the collection built on it
admits at one time. A full queue lets its oldest item go before the new one enters. A cache evicts
afterwards and has one value too many for a moment, whatever its index says.
-/
import Mathlib
import Retention.Proofs.Arena.Ledger
import Retention.Proofs.Cache.Changing
import Retention.Proofs.Queue.InOrder

namespace Retention

universe u v w x

/-! ## Arenas -/

namespace Arena

variable {α : Type u} {a : Arena α}

/-- The arena after a run of operations. -/
def run (ops : List (Op α)) : Arena α := (Step.forEach perform empty ops).state

/-- The numbers of values that the arena had during a run, since its creation or the last
clearing. -/
def levels (ops : List (Op α)) : Set Nat :=
  {n | ∃ before after, before ++ after = ops ∧ Op.clear ∉ after ∧ n = (run before).live}

theorem run_concat (ops : List (Op α)) (op : Op α) :
    run (ops ++ [op]) = ((run ops).perform op).state :=
  Step.state_forEach_concat perform empty ops op

theorem sound_run (ops : List (Op α)) : (run ops).Sound :=
  Step.forEach_induction (fun _ op h => h.perform op) sound_empty ops

theorem levels_nil : levels ([] : List (Op α)) = {0} := by
  ext n
  constructor
  · rintro ⟨before, after, happend, -, rfl⟩
    obtain ⟨rfl, -⟩ := List.append_eq_nil_iff.mp happend
    rfl
  · rintro rfl
    exact ⟨[], [], rfl, List.not_mem_nil, rfl⟩

/-- After one more operation the present number counts, and the earlier ones still do unless the
operation is a clearing. -/
theorem mem_levels_concat {ops : List (Op α)} {op : Op α} {n : Nat} :
    n ∈ levels (ops ++ [op]) ↔
      n = (run (ops ++ [op])).live ∨ op ≠ .clear ∧ n ∈ levels ops := by
  constructor
  · rintro ⟨before, after, happend, hafter, rfl⟩
    -- Either nothing comes after the moment looked at, or the operation itself comes last.
    rcases List.eq_nil_or_concat' after with rfl | ⟨after, last, rfl⟩
    · rw [List.append_nil] at happend
      rw [happend]
      exact Or.inl rfl
    · rw [← List.append_assoc] at happend
      obtain ⟨hearlier, hlast⟩ := List.append_inj' happend rfl
      obtain rfl := List.singleton_injective hlast
      rw [List.mem_append, List.mem_singleton, not_or] at hafter
      exact Or.inr ⟨Ne.symm hafter.2, before, after, hearlier, hafter.1, rfl⟩
  · rintro (rfl | ⟨hop, before, after, rfl, hafter, rfl⟩)
    · exact ⟨ops ++ [op], [], List.append_nil _, List.not_mem_nil, rfl⟩
    · refine ⟨before, after ++ [op], (List.append_assoc ..).symm, ?_, rfl⟩
      rw [List.mem_append, List.mem_singleton, not_or]
      exact ⟨hafter, Ne.symm hop⟩

/-- A removal keeps the slots, and it adds no value. -/
theorem perform_remove_le (a : Arena α) (s : Slot) :
    (a.perform (.remove s)).state.slots.size = a.slots.size ∧
      (a.perform (.remove s)).state.live ≤ a.live := by
  cases hs : a.get? s with
  | none =>
      rw [perform_remove_of_get?_eq_none hs]
      exact ⟨rfl, Nat.le_refl a.live⟩
  | some x =>
      rw [perform, remove?, hs]
      exact ⟨Array.size_setIfInBounds, Nat.sub_le a.live 1⟩

/-- An operation makes the arena as large as it has to be, and no smaller than it was. -/
theorem Sound.size_perform (h : a.Sound) {op : Op α} (hop : op ≠ .clear) :
    (a.perform op).state.slots.size = max (a.perform op).state.live a.slots.size := by
  have hsize := h.size_eq
  cases op with
  | insert x =>
      show (a.insert x).2.slots.size = max (a.insert x).2.live a.slots.size
      rw [h.size_insert, live_insert, Nat.max_comm]
  | remove s =>
      obtain ⟨hslots, hlive⟩ := perform_remove_le a s
      omega
  | write s f =>
      show (a.slots.modify s.index _).size = max a.live a.slots.size
      rw [Array.size_modify]
      omega
  | clear => exact absurd rfl hop

/-- The number of slots is the high-water mark of the number of values. -/
theorem isGreatest_levels (ops : List (Op α)) : IsGreatest (levels ops) (run ops).slots.size := by
  -- The last operation decides whether the earlier numbers still count.
  induction ops using List.reverseRecOn with
  | nil =>
      rw [levels_nil]
      exact isGreatest_singleton
  | append_singleton ops op ih =>
      by_cases hop : op = .clear
      · subst hop
        have hlevels : levels (ops ++ [Op.clear]) = {0} := by
          ext n
          rw [mem_levels_concat, run_concat]
          simp [perform, clear, empty]
        rw [hlevels, run_concat]
        exact isGreatest_singleton
      · have hlevels : levels (ops ++ [op]) =
            Insert.insert (run (ops ++ [op])).live (levels ops) := by
          ext n
          rw [mem_levels_concat, and_iff_right hop, Set.mem_insert_iff]
        have hsize := (sound_run ops).size_perform hop
        rw [← run_concat] at hsize
        rw [hlevels, hsize]
        exact ih.insert _

theorem live_perform_le (a : Arena α) (op : Op α) : (a.perform op).state.live ≤ a.live + 1 := by
  cases op with
  | insert x => exact Nat.le_of_eq (live_insert a x)
  | remove s => exact Nat.le_succ_of_le (perform_remove_le a s).2
  | write s f => exact Nat.le_succ a.live
  | clear => exact Nat.zero_le _

/-- As long as a slot is free, no operation makes the arena larger. -/
theorem Sound.size_perform_le (h : a.Sound) (hfree : a.free ≠ []) (op : Op α) :
    (a.perform op).state.slots.size ≤ a.slots.size := by
  by_cases hop : op = .clear
  · subst hop
    exact Nat.zero_le _
  · have hsize := h.size_eq
    have hlive := live_perform_le a op
    have hpos : 0 < a.free.length := List.length_pos_iff.mpr hfree
    rw [h.size_perform hop]
    omega

end Arena

/-! ## Chains -/

namespace Chain

variable {α : Type u} {c d : Chain α} {es : List (Slot × α)} {s : Slot} {x : α} {bound : Nat}

/-- The number of slots of the arena, with those that it keeps to use them again. -/
def slotCount (c : Chain α) : Nat := c.arena.slots.size

/-- All slots that the chain has lie below a bound, those of its elements and the free ones. -/
structure Within (bound : Nat) (c : Chain α) : Prop where
  slotCount_le : c.slotCount ≤ bound
  index_lt : ∀ s, c.contains s = true → s.index < bound
  free_lt : ∀ i ∈ c.arena.free, i < bound

theorem Linked.within (h : c.Linked es) (hle : c.slotCount ≤ bound) : Within bound c where
  slotCount_le := hle
  index_lt s hs := by
    obtain ⟨node, hnode⟩ := Arena.contains_iff.mp hs
    obtain ⟨hb, -⟩ := Arena.getElem?_of_get? hnode
    exact hb.trans_le hle
  free_lt i hi := (h.safe.arena.free_lt_size i hi).trans_le hle

/-- A pushed element takes a new slot only if every slot has an element. -/
theorem Linked.slotCount_pushFront (h : c.Linked es) (x : α) :
    (c.pushFront x).2.slotCount = max c.slotCount (c.size + 1) :=
  (sameSlots_linkFront _).slots_size_eq.trans (h.owns.sound.size_insert _)

theorem slotCount_remove? (h : c.remove? s = some (x, d)) : d.slotCount = c.slotCount := by
  simp only [remove?, bind, Option.bind_eq_some_iff] at h
  obtain ⟨unlinked, hunlink, ⟨node, arena⟩, hremove, hd⟩ := h
  obtain ⟨-, rfl⟩ := Prod.mk.inj (Option.some.inj hd)
  exact (Arena.free_remove? hremove).2.trans (sameSlots_unlink? hunlink).slots_size_eq

theorem slotCount_popBack? (h : c.popBack? = some (x, d)) : d.slotCount = c.slotCount := by
  obtain ⟨s, -, hs⟩ := Option.bind_eq_some_iff.mp h
  exact slotCount_remove? hs

theorem slotCount_set? (h : c.set? s x = some d) : d.slotCount = c.slotCount := by
  unfold set? at h
  split at h
  · obtain rfl := Option.some.inj h
    exact Array.size_modify
  · exact absurd h (by simp)

theorem slotCount_moveToFront? (h : c.moveToFront? s = some d) : d.slotCount = c.slotCount := by
  unfold moveToFront? at h
  split at h
  · split at h
    · obtain rfl := Option.some.inj h
      rfl
    · obtain ⟨unlinked, hunlink, rfl⟩ := Option.map_eq_some_iff.mp h
      exact ((sameSlots_unlink? hunlink).trans (sameSlots_linkFront s)).slots_size_eq
  · exact absurd h (by simp)

end Chain

/-! ## Queues -/

namespace Queue

variable {α : Type u} {capacity : Nat} {q p : Queue α} {xs : List α}

/-- What can happen to a queue: a request, or everything leaves at once. -/
inductive Action (α : Type u) where
  | request (r : Request α)
  | clear

/-- One action on a queue. -/
def act (q : Queue α) : Action α → Step (Queue α) (Answer α)
  | .request r => q.serve r
  | .clear => { state := q.clear, result := .item none }

theorem slotCount_dequeue? {item : Item α} (h : q.dequeue? = some (item, p)) :
    p.chain.slotCount = q.chain.slotCount := by
  obtain ⟨⟨x, chain⟩, hpop, hp⟩ := Option.map_eq_some_iff.mp h
  obtain ⟨-, rfl⟩ := Prod.mk.inj hp
  exact Chain.slotCount_popBack? hpop

theorem Holds.slotCount_enter (h : Holds capacity q xs) (item : Item α) :
    (q.enter item).chain.slotCount = max q.chain.slotCount (xs.length + 1) := by
  rw [← h.size_eq]
  obtain ⟨⟨es, hlinked, -⟩, -, -⟩ := h
  exact hlinked.slotCount_pushFront item.value

/-- An item that enters finds a slot below the capacity, for if the queue was full the oldest item
has left its slot before. -/
theorem Holds.slotCount_enqueue (h : Holds capacity q xs) (hle : q.chain.slotCount ≤ capacity)
    (item : Item α) : (q.enqueue item).state.chain.slotCount ≤ capacity := by
  by_cases hfull : capacity ≤ xs.length
  · cases xs with
    | nil =>
        -- Full without an item: there is no room at all, and the newcomer goes straight back.
        have hzero : q.capacity = 0 := h.capacity_eq.trans (Nat.eq_zero_of_le_zero hfull)
        rw [enqueue, if_pos hzero]
        exact hle
    | cons x xs =>
        have hlength := h.length_le
        rw [List.length_cons] at hlength
        have hpos : q.capacity ≠ 0 := by
          rw [h.capacity_eq]
          omega
        obtain ⟨p, hdequeue, hp⟩ := h.dequeue?_cons
        rw [enqueue, if_neg hpos, if_pos (h.isFull_iff.mpr hfull), hdequeue]
        show (p.enter item).chain.slotCount ≤ capacity
        rw [hp.slotCount_enter, slotCount_dequeue? hdequeue]
        exact Nat.max_le.mpr ⟨hle, hlength⟩
  · have hroom := Nat.lt_of_not_le hfull
    rw [h.enqueue_of_room hroom]
    show (q.enter item).chain.slotCount ≤ capacity
    rw [h.slotCount_enter]
    exact Nat.max_le.mpr ⟨hle, hroom⟩

/-- A queue in good order whose slots lie below its capacity. -/
structure Thrifty (capacity : Nat) (q : Queue α) : Prop where
  holds : ∃ xs, Holds capacity q xs
  slotCount_le : q.chain.slotCount ≤ capacity

theorem thrifty_create (capacity : Nat) : Thrifty capacity (create capacity : Queue α) where
  holds := ⟨[], holds_create capacity⟩
  slotCount_le := Nat.zero_le capacity

theorem Thrifty.act (h : Thrifty capacity q) (action : Action α) :
    Thrifty capacity (q.act action).state := by
  obtain ⟨⟨xs, hholds⟩, hle⟩ := h
  cases action with
  | request r =>
      obtain ⟨⟨ys, -, hnext⟩, -⟩ := hholds.serve r
      refine ⟨⟨ys, hnext⟩, ?_⟩
      cases r with
      | enqueue item => exact hholds.slotCount_enqueue hle item
      | push x => exact hholds.slotCount_enqueue hle ⟨x⟩
      | dequeue =>
          show (q.serve .dequeue).state.chain.slotCount ≤ capacity
          cases hdequeue : q.dequeue? with
          | none =>
              rw [serve, hdequeue]
              exact hle
          | some taken =>
              rw [serve, hdequeue]
              exact (slotCount_dequeue? hdequeue).trans_le hle
  | clear =>
      obtain rfl := hholds.capacity_eq
      exact thrifty_create q.capacity

theorem Thrifty.within (h : Thrifty capacity q) : q.chain.Within capacity := by
  obtain ⟨⟨xs, ⟨es, hlinked, -⟩, -, -⟩, hle⟩ := h
  exact hlinked.within hle

end Queue

/-! ## Caches -/

namespace Cache

variable {κ : Type u} {α : Type v} [BEq κ] [Hashable κ] {capacity : Nat} {c : Cache κ α}

theorem slotCount_evict (keyOf : α → κ) (c : Cache κ α) :
    (c.evict keyOf).state.chain.slotCount = c.chain.slotCount := by
  unfold evict
  split
  · rfl
  · next hpop => exact Chain.slotCount_popBack? hpop

theorem slotCount_renew (c : Cache κ α) (s : Slot) (x : α) :
    (c.renew s x).chain.slotCount = c.chain.slotCount := by
  unfold renew
  split
  · next chain hchain =>
    obtain ⟨written, hset, hmove⟩ := Option.bind_eq_some_iff.mp hchain
    exact (Chain.slotCount_moveToFront? hmove).trans (Chain.slotCount_set? hset)
  · rfl

/-- A value that enters needs at most one slot more than the cache has room for, whether or not
another value is evicted afterwards. -/
theorem Orderly.slotCount_performAt (h : Orderly capacity c)
    (hle : c.chain.slotCount ≤ capacity + 1) (m : (α → κ) × Move α) :
    (c.performAt m).state.chain.slotCount ≤ capacity + 1 := by
  obtain ⟨keyOf, move⟩ := m
  cases move with
  | add x =>
      have hentered : (c.enter keyOf x).chain.slotCount ≤ capacity + 1 := by
        have hsize := h.size_eq.trans_le h.length_le
        refine (h.linked.slotCount_pushFront x).trans_le (Nat.max_le.mpr ⟨hle, ?_⟩)
        exact Nat.succ_le_succ hsize
      show (c.add keyOf x).state.chain.slotCount ≤ capacity + 1
      cases hk : c.index[keyOf x]? with
      | some s =>
          rw [add_of_known hk]
          exact (slotCount_renew c s x).trans_le hle
      | none =>
          rw [add_of_unknown hk]
          split
          · exact (slotCount_evict keyOf _).trans_le hentered
          · exact hentered
  | evict => exact (slotCount_evict keyOf c).trans_le hle
  | clear => exact Nat.zero_le _

end Cache

/-! ## Runs -/

/-- However long the run, no slot is wasted. The slots of an arena, with and without a value, are as
many as the values that it had at one time since it was created or last cleared, so it does not grow
while a slot is free. The slots of a queue, which may be without any room, lie below its capacity.
Those of a cache lie below its capacity and one more, whatever the keys of values become while they
are inside. -/
theorem run_wastes_no_slots {κ : Type u} [BEq κ] [Hashable κ] {α : Type v} {β : Type w}
    {γ : Type x} :
    (∀ ops : List (Arena.Op β),
      let a := Arena.run ops
      IsGreatest (Arena.levels ops) a.slots.size ∧
        a.live = a.slots.countP Option.isSome ∧ a.slots.size = a.live + a.free.length ∧
        (a.free ≠ [] → ∀ op, (a.perform op).state.slots.size ≤ a.slots.size)) ∧
      (∀ (capacity : Nat) (actions : List (Queue.Action γ)),
        (Step.forEach Queue.act (Queue.create capacity) actions).state.chain.Within capacity) ∧
      ∀ capacity, 0 < capacity → ∀ requests : List ((α → κ) × Cache.Request κ α),
        ∃ fresh : Cache κ α, Cache.create capacity = .ok fresh ∧
          (Step.forEach Cache.serveAt fresh requests).state.chain.Within (capacity + 1) := by
  refine ⟨?_, ?_, ?_⟩
  · intro ops a
    have hsound : a.Sound := Arena.sound_run ops
    exact ⟨Arena.isGreatest_levels ops, hsound.live_eq, hsound.size_eq, hsound.size_perform_le⟩
  · intro capacity actions
    apply Queue.Thrifty.within
    apply Step.forEach_induction (P := Queue.Thrifty capacity)
    · intro q action h
      exact h.act action
    · exact Queue.thrifty_create capacity
  · intro capacity hc requests
    refine ⟨{ capacity }, if_neg (Nat.ne_of_gt hc), ?_⟩
    obtain ⟨hstate, -, -⟩ := Cache.forEach_serveAt ({ capacity } : Cache κ α) requests
    have hstep : ∀ (c : Cache κ α) m,
        Cache.Orderly capacity c ∧ c.chain.slotCount ≤ capacity + 1 →
        Cache.Orderly capacity (c.performAt m).state ∧
          (c.performAt m).state.chain.slotCount ≤ capacity + 1 := by
      rintro c m ⟨h, hle⟩
      exact ⟨(h.performAt hc m).2, h.slotCount_performAt hle m⟩
    have hfresh : Cache.Orderly capacity ({ capacity } : Cache κ α) := Cache.orderly_empty capacity
    obtain ⟨h, hle⟩ := Step.forEach_induction hstep ⟨hfresh, Nat.zero_le _⟩
      (requests.flatMap Cache.movesAt)
    rw [hstate]
    exact h.linked.within hle

/-- Three values and a clearing; then never more than two at one time, in two slots. A queue with
room for two uses its two slots for nine items. A cache with room for two takes a third slot for
value 3 and uses slot 0 again for value 4, under a key that values do not have later; value 5 comes
under that key and is written over value 4. -/
theorem run_wastes_no_slots_churn :
    let ops : List (Arena.Op Nat) := [.insert 1, .insert 2, .insert 3, .clear, .insert 4,
      .insert 5, .remove ⟨0⟩, .insert 6, .remove ⟨1⟩]
    let actions : List (Queue.Action Nat) := (List.range 9).map fun i => .request (.push i)
    let requests : List ((Nat → Nat) × Cache.Request Nat Nat) :=
      [(id, .addAll [1, 2, 3]), (fun v => v + 10, .add 4), (id, .evict), (fun _ => 14, .add 5)]
    let a := Arena.run ops
    let q := (Step.forEach Queue.act (Queue.create 2) actions).state
    (IsGreatest (Arena.levels ops) 2 ∧ a.live = 1 ∧ a.free = [1]) ∧
      (q.chain.Within 2 ∧ q.chain.slotCount = 2 ∧ q.toList = [8, 7]) ∧
      0 < 2 ∧ ∃ fresh : Cache Nat Nat, Cache.create 2 = .ok fresh ∧
        let c := (Step.forEach Cache.serveAt fresh requests).state
        c.chain.Within 3 ∧ c.chain.slotCount = 3 ∧ c.chain.entries = [(⟨0⟩, 5)] := by
  obtain ⟨harena, hqueue, hcache⟩ := @run_wastes_no_slots Nat _ _ Nat Nat Nat
  obtain ⟨fresh, hfresh, hwithin⟩ := hcache 2 (by decide)
    [(id, .addAll [1, 2, 3]), (fun v => v + 10, .add 4), (id, .evict), (fun _ => 14, .add 5)]
  intro ops actions requests a q
  refine ⟨⟨(harena ops).1, rfl, rfl⟩, ⟨hqueue 2 actions, ?_, ?_⟩, by decide, fresh, hfresh, ?_⟩
  · decide +kernel
  · decide +kernel
  · obtain rfl : ({ capacity := 2 } : Cache Nat Nat) = fresh := Except.ok.inj hfresh
    refine ⟨hwithin, ?_, ?_⟩
    · cbv
    · cbv

end Retention
