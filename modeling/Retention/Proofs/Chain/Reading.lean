/-
# Retention.Proofs.Chain.Reading -- what a chain in good order shows

A walk along a stretch of entries meets these entries and nothing else, in either direction. So all
ways of reading a linked chain agree on its entries: the walks, which end by themselves however many
steps they are given, the two ends, the look-up of a slot, the number of elements, and the audit.
-/
import Retention.Chain.Audit
import Retention.Chain.Walk
import Retention.Proofs.Chain.Linked
import Mathlib.Data.List.Induction

namespace Retention.Chain

universe u

variable {α : Type u} {c : Chain α} {es : List (Slot × α)}

/-! ## Walks -/

@[simp] theorem walk_none (c : Chain α) (onward : Node α → Option Slot) (n : Nat) :
    c.walk onward n none = [] := by
  cases n <;> rfl

theorem walk_some {s : Slot} {node : Node α} (onward : Node α → Option Slot) (n : Nat)
    (hs : c.arena.get? s = some node) :
    c.walk onward (n + 1) (some s) = (s, node.value) :: c.walk onward n (onward node) := by
  rw [walk, hs]

/-- A walk towards the back meets the entries in order. -/
theorem walk_next {before : Option Slot} (h : Segment c.arena none before es) (n : Nat) :
    c.walk Node.next n (firstSlot none es) = es.take n := by
  induction es generalizing before n with
  | nil => rw [firstSlot, walk_none, List.take_nil]
  | cons e es ih =>
      obtain ⟨s, x⟩ := e
      cases n with
      | zero => rfl
      | succ n =>
          rw [firstSlot, walk_some Node.next n h.1, List.take_succ_cons]
          exact congrArg _ (ih h.2 n)

/-- A walk towards the front meets the entries in reverse order. -/
theorem walk_prev {after : Option Slot} (h : Segment c.arena after none es) (n : Nat) :
    c.walk Node.prev n (lastSlot none es) = es.reverse.take n := by
  -- The walk starts at the last entry, so the induction takes entries off at that end.
  induction es using List.reverseRecOn generalizing after n with
  | nil => rw [lastSlot, walk_none, List.reverse_nil, List.take_nil]
  | append_singleton es e ih =>
      obtain ⟨s, x⟩ := e
      obtain ⟨hes, hs, -⟩ := segment_append.mp h
      rw [lastSlot_append, List.reverse_append]
      cases n with
      | zero => rfl
      | succ n =>
          show c.walk Node.prev (n + 1) (some s) = _
          rw [walk_some Node.prev n hs, List.reverse_singleton, List.singleton_append,
            List.take_succ_cons]
          exact congrArg _ (ih hes n)

theorem Strung.walk_next (h : Strung c es) {n : Nat} (hn : es.length ≤ n) :
    c.walk Node.next n c.head = es := by
  rw [h.1.head_eq, Chain.walk_next h.1.segment, List.take_of_length_le hn]

theorem Strung.walk_prev (h : Strung c es) {n : Nat} (hn : es.length ≤ n) :
    c.walk Node.prev n c.tail = es.reverse := by
  rw [h.2.tail_eq, Chain.walk_prev h.2.segment, List.take_of_length_le]
  rwa [List.length_reverse]

theorem Linked.length_eq (h : Linked c es) : c.size = es.length := by
  rw [h.owns.size_eq, slots, List.length_map]

theorem Linked.walk_next (h : Linked c es) {n : Nat} (hn : es.length ≤ n) :
    c.walk Node.next n c.head = es :=
  h.strung.walk_next hn

theorem Linked.walk_prev (h : Linked c es) {n : Nat} (hn : es.length ≤ n) :
    c.walk Node.prev n c.tail = es.reverse :=
  h.strung.walk_prev hn

theorem Linked.entries_eq (h : Linked c es) : c.entries = es :=
  h.walk_next (Nat.le_of_eq h.length_eq.symm)

theorem Linked.toList_eq (h : Linked c es) : c.toList = es.map Prod.snd := by
  rw [toList, h.entries_eq]

theorem Linked.toListRev_eq (h : Linked c es) : c.toListRev = c.toList.reverse := by
  rw [toListRev, h.walk_prev (Nat.le_of_eq h.length_eq.symm), h.toList_eq, List.map_reverse]

/-! ## Single entries -/

/-- If the entries have all occupied slots, what is read from a slot is its entry. -/
theorem Strung.get?_eq_some_iff (h : Strung c es)
    (hheld : ∀ t, c.contains t = true ↔ t ∈ slots es) {s : Slot} {x : α} :
    c.get? s = some x ↔ (s, x) ∈ es := by
  constructor
  · intro hx
    have hs : s ∈ slots es := (hheld s).mp <| by
      obtain ⟨node, hnode, -⟩ := Option.map_eq_some_iff.mp hx
      exact Arena.contains_iff.mpr ⟨node, hnode⟩
    obtain ⟨y, fs, gs, rfl⟩ := exists_of_mem_slots hs
    rw [h.get?] at hx
    rw [Option.some.inj hx]
    exact List.mem_append_right fs List.mem_cons_self
  · intro hmem
    obtain ⟨fs, gs, rfl⟩ := List.append_of_mem hmem
    exact h.get?

theorem Linked.get?_eq_some_iff (h : Linked c es) {s : Slot} {x : α} :
    c.get? s = some x ↔ (s, x) ∈ es :=
  h.strung.get?_eq_some_iff h.owns.contains_iff

theorem firstSlot_none (es : List (Slot × α)) : firstSlot none es = es.head?.map Prod.fst := by
  cases es <;> rfl

theorem lastSlot_none (es : List (Slot × α)) : lastSlot none es = es.getLast?.map Prod.fst := by
  rcases List.eq_nil_or_concat' es with rfl | ⟨es, e, rfl⟩
  · rfl
  · rw [lastSlot_append, List.getLast?_concat]
    rfl

theorem Strung.head_eq (h : Strung c es) : c.head = es.head?.map Prod.fst :=
  h.1.head_eq.trans (firstSlot_none es)

theorem Strung.tail_eq (h : Strung c es) : c.tail = es.getLast?.map Prod.fst :=
  h.2.tail_eq.trans (lastSlot_none es)

theorem Linked.head_eq (h : Linked c es) : c.head = es.head?.map Prod.fst :=
  h.strung.head_eq

theorem Linked.tail_eq (h : Linked c es) : c.tail = es.getLast?.map Prod.fst :=
  h.strung.tail_eq

theorem Linked.front?_eq (h : Linked c es) : c.front? = es.head?.map Prod.snd := by
  rw [front?, h.head_eq]
  cases es with
  | nil => rfl
  | cons e es => exact h.get?_eq_some_iff.mpr List.mem_cons_self

theorem Linked.back?_eq (h : Linked c es) : c.back? = es.getLast?.map Prod.snd := by
  rw [back?, h.tail_eq]
  rcases List.eq_nil_or_concat' es with rfl | ⟨es, e, rfl⟩
  · rfl
  · rw [List.getLast?_concat]
    exact h.get?_eq_some_iff.mpr (by simp)

/-! ## The audit -/

/-- The audit of a stretch that ends at the tail finds nothing wrong. -/
theorem auditFrom_eq_ok {before : Option Slot} (h : Segment c.arena none before es)
    (htail : c.tail = lastSlot before es) :
    c.auditFrom es.length before (firstSlot none es) = .ok () := by
  induction es generalizing before with
  | nil => simp [auditFrom, firstSlot, htail, lastSlot]
  | cons e es ih =>
      obtain ⟨s, x⟩ := e
      rw [firstSlot, auditFrom, h.1]
      exact (if_neg (not_not.mpr rfl)).trans (ih h.2 htail)

theorem Strung.audit_eq_ok (h : Strung c es) (hsize : c.size = es.length) :
    c.audit = .ok () := by
  have hwalk := auditFrom_eq_ok h.2.segment h.2.tail_eq
  rw [← hsize, ← h.1.head_eq] at hwalk
  cases es with
  | nil =>
      have hlive : c.arena.live = 0 := hsize
      simp [audit, h.head_eq, h.tail_eq, isEmpty, Arena.isEmpty, hlive]
  | cons e es =>
      -- Both ends are named now, and what is left to the audit is the walk.
      have hhead : c.head = some e.1 := h.head_eq
      have htail : c.tail = some (es.getLast?.getD e).1 := by
        rw [h.tail_eq, List.getLast?_cons]
        rfl
      rw [hhead] at hwalk
      rw [audit, hhead, htail]
      exact hwalk

theorem Linked.audit_eq_ok (h : Linked c es) : c.audit = .ok () :=
  h.strung.audit_eq_ok h.length_eq

end Retention.Chain
