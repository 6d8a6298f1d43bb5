/-
# Retention.Proofs.Chain.Audited -- the audit finds every fault in the links

The audit looks at one direction only: it walks from the front, compares the link back of every node
with the node it came from, and counts. That is enough. A node met twice would have been reached
from two nodes but points back to one, so its predecessor was met twice too, and so on back to the
front, whose link back names nothing. So no node is met twice; and as many distinct nodes as there
are elements are all of them.

`GoodOrder` says in terms of single links what good order is. Nothing is assumed of the links, nor
of the list of free slots; the elements are counted, and that is all. `Walked` follows the walk look
by look and knows no bound, so that the audit comes to an end on any links is part of the result.
-/
import Retention.Proofs.Chain.Reading

namespace Retention.Chain

universe u

variable {α : Type u} {c : Chain α} {es : List (Slot × α)} {ss : List Slot}

/-! ## Good order -/

/-- The slots, in this order, are those of all the elements: each occurs once, the two ends name
the first and the last, and every node names the slots before and behind it. -/
structure GoodOrder (c : Chain α) (ss : List Slot) : Prop where
  nodup : ss.Nodup
  contains_iff : ∀ s, c.contains s = true ↔ s ∈ ss
  head_eq : c.head = ss.head?
  tail_eq : c.tail = ss.getLast?
  links : ∀ before s after, ss = before ++ s :: after →
    ∃ x, c.arena.get? s = some ⟨x, before.getLast?, after.head?⟩

theorem firstSlot_eq_head? (es : List (Slot × α)) : firstSlot none es = (slots es).head? := by
  rw [firstSlot_none, slots, List.head?_map]

theorem lastSlot_eq_getLast? (es : List (Slot × α)) : lastSlot none es = (slots es).getLast? := by
  rw [lastSlot_none, slots, List.getLast?_map]

/-- Links that run through the entries in both directions are in good order. -/
theorem Strung.goodOrder (h : Strung c es) (hd : (slots es).Nodup)
    (hheld : ∀ s, c.contains s = true ↔ s ∈ slots es) : GoodOrder c (slots es) where
  nodup := hd
  contains_iff := hheld
  head_eq := h.1.head_eq.trans (firstSlot_eq_head? es)
  tail_eq := h.2.tail_eq.trans (lastSlot_eq_getLast? es)
  links := by
    intro before s after hsplit
    obtain ⟨fs, gs, rfl, rfl, hgs⟩ := List.map_eq_append_iff.mp hsplit
    obtain ⟨⟨t, x⟩, gs, rfl, rfl, rfl⟩ := List.map_eq_cons_iff.mp hgs
    obtain ⟨-, hx, -⟩ := strung_append_cons.mp h
    rw [lastSlot_eq_getLast?, firstSlot_eq_head?] at hx
    exact ⟨x, hx⟩

/-- In good order the slots from any place on are a stretch of entries. -/
theorem GoodOrder.exists_segment (h : GoodOrder c ss) {before after : List Slot}
    (hsplit : ss = before ++ after) :
    ∃ es, slots es = after ∧ Segment c.arena none before.getLast? es := by
  induction after generalizing before with
  | nil => exact ⟨[], rfl, trivial⟩
  | cons s after ih =>
      obtain ⟨x, hx⟩ := h.links before s after hsplit
      have hnext : ss = before ++ [s] ++ after := by
        rw [hsplit, List.append_assoc, List.singleton_append]
      obtain ⟨es, rfl, hes⟩ := ih hnext
      rw [List.getLast?_concat] at hes
      refine ⟨(s, x) :: es, rfl, ?_, hes⟩
      rw [hx, firstSlot_eq_head?]

theorem GoodOrder.exists_strung (h : GoodOrder c ss) : ∃ es, slots es = ss ∧ Strung c es := by
  obtain ⟨es, rfl, hes⟩ := h.exists_segment (List.nil_append ss).symm
  refine ⟨es, rfl, ⟨hes, ?_⟩, ⟨hes, ?_⟩⟩
  · rw [h.head_eq, firstSlot_eq_head?]
  · rw [h.tail_eq, lastSlot_eq_getLast?]

/-! ## No node is met twice -/

/-- The last slot of a stretch that is not empty is one of its slots. -/
theorem exists_lastSlot_cons (before : Option Slot) (e : Slot × α) (es : List (Slot × α)) :
    ∃ t ∈ slots (e :: es), lastSlot before (e :: es) = some t := by
  induction es generalizing before e with
  | nil => exact ⟨e.1, List.mem_cons_self, rfl⟩
  | cons f es ih =>
      obtain ⟨t, ht, hlast⟩ := ih (some e.1) f
      exact ⟨t, List.mem_cons_of_mem e.1 ht, hlast⟩

/-- A walk that starts where nothing comes before meets no node twice: the node met twice first
would have one predecessor and be reached from two. -/
theorem Segment.nodup {a : Arena (Node α)} {after : Option Slot} (h : Segment a after none es) :
    (slots es).Nodup := by
  -- The induction takes nodes off at the end, so what is left was walked from the front.
  induction es using List.reverseRecOn generalizing after with
  | nil => exact List.nodup_nil
  | append_singleton es e ih =>
      obtain ⟨s, x⟩ := e
      obtain ⟨hes, hlast, -⟩ := segment_append.mp h
      have hnodup := ih hes
      suffices hs : s ∉ slots es by
        have hconcat : (slots es ++ [s]).Nodup := by
          rw [← List.concat_eq_append]
          exact hnodup.concat hs
        rwa [slots_append]
      intro hs
      obtain ⟨y, fs, gs, rfl⟩ := exists_of_mem_slots hs
      obtain ⟨-, hfirst, -⟩ := segment_append.mp hes
      -- The node points back to what came before it at both places.
      have hback : lastSlot none fs = lastSlot none (fs ++ (s, y) :: gs) :=
        congrArg Node.prev (Option.some.inj (hfirst.symm.trans hlast))
      obtain ⟨t, ht, hgs⟩ := exists_lastSlot_cons (lastSlot none fs) (s, y) gs
      rw [lastSlot_append, hgs, lastSlot_eq_getLast?] at hback
      -- So a slot before the first place occurs behind it, where it cannot be.
      rw [slots_append] at hnodup
      exact List.disjoint_of_nodup_append hnodup (List.mem_of_getLast? hback) ht

/-! ## The walk of the audit, look by look -/

/-- A walk that has met `count` nodes, came from `last` and stands at `here` ends with this outcome.
There are as many looks as it takes. -/
inductive Walked (c : Chain α) :
    Nat → Option Slot → Option Slot → Except Violation Unit → Prop
  | stray {count : Nat} {last : Option Slot} (htail : last ≠ c.tail) :
      Walked c count last none (.error .strayTail)
  | unreached {count : Nat} {last : Option Slot} (htail : last = c.tail)
      (hcount : count ≠ c.size) :
      Walked c count last none (.error (.nodesUnreached count c.size))
  | arrived {count : Nat} {last : Option Slot} (htail : last = c.tail) (hcount : count = c.size) :
      Walked c count last none (.ok ())
  | dangling {count : Nat} {last : Option Slot} {s : Slot} (hs : c.arena.get? s = none) :
      Walked c count last (some s) (.error (.danglingLink s.index))
  | stale {count : Nat} {last : Option Slot} {s : Slot} {node : Node α}
      (hs : c.arena.get? s = some node) (hprev : node.prev ≠ last) :
      Walked c count last (some s) (.error (.stalePrevious s.index))
  | circle {count : Nat} {last : Option Slot} {s : Slot} {node : Node α}
      (hs : c.arena.get? s = some node) (hprev : node.prev = last) (hcount : c.size < count + 1) :
      Walked c count last (some s) (.error .cycle)
  | onward {count : Nat} {last : Option Slot} {s : Slot} {node : Node α}
      {outcome : Except Violation Unit} (hs : c.arena.get? s = some node)
      (hprev : node.prev = last) (hcount : count + 1 ≤ c.size)
      (hrest : Walked c (count + 1) (some s) node.next outcome) :
      Walked c count last (some s) outcome

/-- An audit ends with this outcome. Both ends must be named before there is a walk. -/
inductive Audited (c : Chain α) : Except Violation Unit → Prop
  | disagree (hends : c.head = none ∨ c.tail = none)
      (hsome : c.head ≠ none ∨ c.tail ≠ none ∨ c.isEmpty = false) :
      Audited c (.error .endsDisagree)
  | empty (hhead : c.head = none) (htail : c.tail = none) (hempty : c.isEmpty = true) :
      Audited c (.ok ())
  | walked {outcome : Except Violation Unit} (hhead : c.head ≠ none) (htail : c.tail ≠ none)
      (hwalk : Walked c 0 none c.head outcome) : Audited c outcome

/-- From every place the walk comes to an end, and with the outcome that is computed. -/
theorem walked_auditFrom {count left : Nat} (hleft : count + left = c.size)
    (last here : Option Slot) : Walked c count last here (c.auditFrom left last here) := by
  -- The nodes still to be met become fewer with every look, whatever the links say.
  fun_induction c.auditFrom left last here generalizing count with
  | case1 left last htail => exact .stray htail
  | case2 left last htail hne =>
      have hcount : count = c.size - left := by omega
      rw [← hcount]
      exact .unreached (not_not.mp htail) (by omega)
  | case3 left last htail hzero => exact .arrived (not_not.mp htail) (by omega)
  | case4 left last s hs => exact .dangling hs
  | case5 left last s node hs hprev => exact .stale hs hprev
  | case6 last s node hs hprev => exact .circle hs (not_not.mp hprev) (by omega)
  | case7 last s node hs hprev left ih =>
      exact .onward hs (not_not.mp hprev) (by omega) (ih (by omega))

/-- No other outcome is possible. -/
theorem Walked.auditFrom_eq {count left : Nat} {last here : Option Slot}
    {outcome : Except Violation Unit} (h : Walked c count last here outcome)
    (hleft : count + left = c.size) : c.auditFrom left last here = outcome := by
  induction h generalizing left with
  | stray htail => rw [auditFrom, if_pos htail]
  | unreached htail hcount =>
      have hmissing : left ≠ 0 := by omega
      have hmet : c.size - left = _ := Nat.sub_eq_of_eq_add hleft.symm
      rw [auditFrom, if_neg (not_not.mpr htail), if_pos hmissing, hmet]
  | arrived htail hcount =>
      have hnone : left = 0 := by omega
      rw [auditFrom, if_neg (not_not.mpr htail), if_neg (not_not.mpr hnone)]
  | dangling hs => rw [auditFrom, hs]
  | stale hs hprev =>
      rw [auditFrom, hs]
      exact if_pos hprev
  | circle hs hprev hcount =>
      obtain rfl : left = 0 := by omega
      rw [auditFrom, hs]
      exact if_neg (not_not.mpr hprev)
  | onward hs hprev hcount hrest ih =>
      obtain ⟨left, rfl⟩ : ∃ n, left = n + 1 := ⟨left - 1, by omega⟩
      rw [auditFrom, hs]
      exact (if_neg (not_not.mpr hprev)).trans (ih (by omega))

theorem audited_audit (c : Chain α) : Audited c c.audit := by
  cases hhead : c.head with
  | none =>
      cases htail : c.tail with
      | none =>
          -- Without ends there is nothing to walk along, and the audit looks at the number only.
          rw [audit, hhead, htail]
          by_cases hempty : c.isEmpty = true
          · rw [if_pos hempty]
            exact .empty hhead htail hempty
          · rw [if_neg hempty]
            exact .disagree (.inl hhead) (.inr (.inr (Bool.eq_false_iff.mpr hempty)))
      | some t =>
          have hsome : c.tail ≠ none := by simp [htail]
          rw [audit, hhead, htail]
          exact .disagree (.inl hhead) (.inr (.inl hsome))
  | some s =>
      have hsome : c.head ≠ none := by simp [hhead]
      cases htail : c.tail with
      | none =>
          rw [audit, hhead, htail]
          exact .disagree (.inr htail) (.inl hsome)
      | some t =>
          rw [audit, hhead, htail]
          refine .walked hsome (by simp [htail]) ?_
          rw [hhead]
          exact walked_auditFrom (Nat.zero_add _) none (some s)

/-- On any links the audit ends, and with one outcome, which is the one computed. -/
theorem audited_iff (c : Chain α) (outcome : Except Violation Unit) :
    Audited c outcome ↔ c.audit = outcome := by
  constructor
  · intro h
    cases h with
    | disagree hends hsome =>
        unfold audit
        cases hhead : c.head <;> cases htail : c.tail <;> simp_all
    | empty hhead htail hempty => rw [audit, hhead, htail, if_pos hempty]
    | walked hhead htail hwalk =>
        obtain ⟨s, hs⟩ := Option.ne_none_iff_exists'.mp hhead
        obtain ⟨t, ht⟩ := Option.ne_none_iff_exists'.mp htail
        rw [hs] at hwalk
        rw [audit, hs, ht]
        exact hwalk.auditFrom_eq (Nat.zero_add _)
  · rintro rfl
    exact audited_audit c

/-! ## What an audit without complaint has seen -/

/-- A walk that ends well has gone along a stretch of as many entries as were still to be met, up to
the tail. -/
theorem Walked.exists_segment {count : Nat} {last here : Option Slot}
    {outcome : Except Violation Unit} (h : Walked c count last here outcome)
    (hok : outcome = .ok ()) :
    ∃ es, count + es.length = c.size ∧ here = firstSlot none es ∧
      Segment c.arena none last es ∧ c.tail = lastSlot last es := by
  induction h with
  | arrived htail hcount => exact ⟨[], hcount, rfl, trivial, htail.symm⟩
  | @onward count last s node outcome hs hprev hcount hrest ih =>
      obtain ⟨es, hlength, hnext, hes, htail⟩ := ih hok
      refine ⟨(s, node.value) :: es, ?_, rfl, ⟨?_, hes⟩, htail⟩
      · rw [List.length_cons]
        omega
      · rw [hs, ← hnext, ← hprev]
  | _ => cases hok

/-- The audit finds nothing wrong just when the links run through some entries in both directions,
as many as there are elements. -/
theorem audit_eq_ok_iff : c.audit = .ok () ↔ ∃ es, Strung c es ∧ c.size = es.length := by
  constructor
  · intro h
    cases (audited_iff c (.ok ())).mpr h with
    | empty hhead htail hempty =>
        exact ⟨[], ⟨⟨trivial, hhead⟩, ⟨trivial, htail⟩⟩, beq_iff_eq.mp hempty⟩
    | walked hhead htail hwalk =>
        obtain ⟨es, hlength, hfirst, hes, hlast⟩ := hwalk.exists_segment rfl
        rw [Nat.zero_add] at hlength
        exact ⟨es, ⟨⟨hes, hfirst⟩, ⟨hes, hlast⟩⟩, hlength.symm⟩
  · rintro ⟨es, hes, hsize⟩
    exact hes.audit_eq_ok hsize

/-- If the elements are counted, the entries of an audited chain have all occupied slots. -/
theorem Strung.contains_iff (h : Strung c es) (hcount : c.arena.Counted)
    (hsize : c.size = es.length) (s : Slot) : c.contains s = true ↔ s ∈ slots es := by
  apply hcount.contains_iff h.1.segment.nodup
  · intro t ht
    obtain ⟨x, fs, gs, rfl⟩ := exists_of_mem_slots ht
    obtain ⟨-, hx, -⟩ := strung_append_cons.mp h
    exact Arena.contains_iff.mpr ⟨_, hx⟩
  · rw [slots, List.length_map]
    exact hsize.symm

/-! ## The result -/

/-- Let the elements be counted, and let the links be any whatever. The audit comes to an end, with
one outcome. It finds nothing wrong just when there is an order of the slots that is good order.
Then the walk from the front meets every element once, however many steps it may make, and the
walk from the back meets them in the reverse order. -/
theorem audit_decides_good_order (c : Chain α) (hcount : c.arena.Counted) :
    (∀ outcome, Audited c outcome ↔ c.audit = outcome) ∧
      (c.audit = .ok () ↔ ∃ ss, GoodOrder c ss) ∧
      (c.audit = .ok () →
        (slots c.entries).Nodup ∧ (∀ s x, c.get? s = some x ↔ (s, x) ∈ c.entries) ∧
          ∀ n, c.size ≤ n → c.walk Node.next n c.head = c.entries ∧
            c.walk Node.prev n c.tail = c.entries.reverse) := by
  refine ⟨c.audited_iff, ⟨fun h => ?_, ?_⟩, fun h => ?_⟩
  · obtain ⟨es, hes, hsize⟩ := audit_eq_ok_iff.mp h
    exact ⟨_, hes.goodOrder hes.1.segment.nodup (hes.contains_iff hcount hsize)⟩
  · rintro ⟨ss, hgood⟩
    obtain ⟨es, rfl, hes⟩ := hgood.exists_strung
    have hsize := hcount.length_eq hgood.nodup hgood.contains_iff
    rw [slots, List.length_map] at hsize
    exact hes.audit_eq_ok hsize.symm
  · obtain ⟨es, hes, hsize⟩ := audit_eq_ok_iff.mp h
    have hentries : c.entries = es := hes.walk_next (Nat.le_of_eq hsize.symm)
    rw [hentries]
    refine ⟨hes.1.segment.nodup, fun s x => ?_, fun n hn => ?_⟩
    · exact hes.get?_eq_some_iff (hes.contains_iff hcount hsize)
    · rw [hsize] at hn
      exact ⟨hes.walk_next hn, hes.walk_prev hn⟩

/-- Three nodes are counted, and the walk from the front meets one of them: the other two name each
other in a circle. -/
def island : Chain Nat where
  arena := { slots := #[some ⟨5, none, none⟩, some ⟨6, some ⟨2⟩, some ⟨2⟩⟩,
      some ⟨7, some ⟨1⟩, some ⟨1⟩⟩], live := 3 }
  head := some ⟨0⟩
  tail := some ⟨0⟩

/-- The nodes name each other in good order. The slot between them is empty, but not on the list of
free ones. -/
def unlisted : Chain Nat where
  arena := { slots := #[some ⟨6, some ⟨2⟩, none⟩, none, some ⟨5, none, some ⟨0⟩⟩], live := 2 }
  head := some ⟨2⟩
  tail := some ⟨0⟩

/-- No order of the slots of the first chain is good order; there is one for the second. -/
theorem audit_island_and_unlisted :
    (island.arena.Counted ∧ island.audit = .error (.nodesUnreached 1 3) ∧
        ¬ ∃ ss, GoodOrder island ss) ∧
      unlisted.arena.Counted ∧ ∃ ss, GoodOrder unlisted ss := by
  have hisland : island.arena.Counted := by decide
  have hunlisted : unlisted.arena.Counted := by decide
  have hbad : island.audit = .error (.nodesUnreached 1 3) := by rfl
  have hgood : unlisted.audit = .ok () := by rfl
  obtain ⟨-, hnever, -⟩ := audit_decides_good_order island hisland
  obtain ⟨-, hsome, -⟩ := audit_decides_good_order unlisted hunlisted
  refine ⟨⟨hisland, hbad, fun horder => ?_⟩, hunlisted, hsome.mp hgood⟩
  have hok := hnever.mpr horder
  rw [hbad] at hok
  cases hok

end Retention.Chain
