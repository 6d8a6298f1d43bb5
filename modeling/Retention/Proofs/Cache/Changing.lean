/-
# Retention.Proofs.Cache.Changing -- what a cache keeps when keys change inside

The key of a value may change while the value is in the cache. Nobody tells the index, which goes on
knowing the key under which the value entered: it may lead to a slot that is empty or was used
again, two values may have one key, and the key forgotten when a value leaves may be that of
another. So here nothing at all is assumed of the index. What a cache keeps nevertheless is its
chain, its capacity and the order of its values; and what an addition does is one of four things,
decided by what the index says of the key.

Keys change between requests, so every request comes with the keys that the values have at that
time. Several additions between which keys change are several requests.
-/
import Mathlib
import Retention.Proofs.Arena.Ledger
import Retention.Proofs.Cache.Register
import Retention.Proofs.Chain.Sequence

namespace Retention

universe u v

/-! ## Chains that cannot fail -/

namespace Chain

variable {α : Type v} {c : Chain α} {es : List (Slot × α)}

/-- Whatever is put into the chain or taken out of it, its arena looks at none but its own slots and
never counts below zero. A node is unlinked before it is taken out. -/
structure Safe (c : Chain α) : Prop where
  arena : c.arena.Safe
  unlinked : ∀ s d, c.unlink? s = some d → d.arena.Safe

theorem Linked.safe (h : c.Linked es) : c.Safe where
  arena := h.owns.sound.safe
  unlinked _ _ hd := ((sameSlots_unlink? hd).sound h.owns.sound).safe

end Chain

namespace Cache

open Chain (slots)

variable {κ : Type u} {α : Type v} [BEq κ] [Hashable κ] {capacity : Nat} {c : Cache κ α}

/-! ## Requests with the keys of their time -/

/-- One request to a cache, at a time when the values have these keys. -/
def serveAt (c : Cache κ α) (r : (α → κ) × Request κ α) : Step (Cache κ α) (Response α) :=
  c.serve r.1 r.2

/-- One move of a cache, at a time when the values have these keys. -/
def performAt (c : Cache κ α) (m : (α → κ) × Move α) : Step (Cache κ α) (Option α) :=
  c.perform m.1 m.2

/-- The moves that serve a request, at the time of the request. -/
def movesAt (r : (α → κ) × Request κ α) : List ((α → κ) × Move α) :=
  r.2.moves.map (r.1, ·)

/-- A run of requests does what all their moves do. -/
theorem forEach_serveAt (c : Cache κ α) (requests : List ((α → κ) × Request κ α)) :
    let served := Step.forEach serveAt c requests
    let moved := Step.forEach performAt c (requests.flatMap movesAt)
    served.state = moved.state ∧
      served.result.flatMap Response.evicted = moved.result.flatMap Option.toList ∧
      served.events = moved.events := by
  refine Step.forEach_flatMap ?_ c requests
  intro c r
  rw [movesAt, Step.forEach_map]
  exact serve_eq_moves r.1 c r.2

/-! ## Moves -/

/-- What a move does to the entries of a cache, and which value it evicts. A value whose key the
index does not know enters in front, and if there is no room the entry at the back leaves. A value
whose key the index knows is written over the entry in the slot that the index names, whatever that
entry is, and moves it to the front; if there is none, the value is lost and nothing changes. -/
inductive Outcome : Cache κ α → (α → κ) × Move α → Option α → Cache κ α → Prop
  | enters {c d : Cache κ α} {keyOf : α → κ} {s : Slot} {x : α}
      (hnew : c.index[keyOf x]? = none) (hroom : c.size < c.capacity)
      (hs : s ∉ slots c.chain.entries) (hnext : d.chain.entries = (s, x) :: c.chain.entries) :
      Outcome c (keyOf, .add x) none d
  | displaces {c d : Cache κ α} {keyOf : α → κ} {s t : Slot} {x y : α} {es : List (Slot × α)}
      (hnew : c.index[keyOf x]? = none) (hfull : c.size = c.capacity)
      (hback : c.chain.entries = es ++ [(t, y)]) (hs : s ∉ slots c.chain.entries)
      (hnext : d.chain.entries = (s, x) :: es) : Outcome c (keyOf, .add x) (some y) d
  | overwrites {c d : Cache κ α} {keyOf : α → κ} {s : Slot} {x y : α} {es fs : List (Slot × α)}
      (hknown : c.index[keyOf x]? = some s) (hlive : c.chain.entries = es ++ (s, y) :: fs)
      (hnext : d.chain.entries = (s, x) :: (es ++ fs)) : Outcome c (keyOf, .add x) none d
  | loses {c : Cache κ α} {keyOf : α → κ} {s : Slot} {x : α}
      (hknown : c.index[keyOf x]? = some s) (hs : s ∉ slots c.chain.entries) :
      Outcome c (keyOf, .add x) none c
  | evicts {c d : Cache κ α} {keyOf : α → κ} {t : Slot} {y : α}
      (hback : c.chain.entries = d.chain.entries ++ [(t, y)]) :
      Outcome c (keyOf, .evict) (some y) d
  | finds_none {c : Cache κ α} {keyOf : α → κ} (hnone : c.chain.entries = []) :
      Outcome c (keyOf, .evict) none c
  | clears {c d : Cache κ α} {keyOf : α → κ} (hnone : d.chain.entries = []) :
      Outcome c (keyOf, .clear) none d

/-- The chain is in good order and not too long. Of the index nothing is said. -/
structure Orderly (capacity : Nat) (c : Cache κ α) : Prop where
  linked : c.chain.Linked c.chain.entries
  capacity_eq : c.capacity = capacity
  length_le : c.chain.entries.length ≤ capacity

theorem orderly_of_linked {es : List (Slot × α)} (h : c.chain.Linked es)
    (hcapacity : c.capacity = capacity) (hle : es.length ≤ capacity) : Orderly capacity c := by
  obtain rfl := h.entries_eq
  exact ⟨h, hcapacity, hle⟩

theorem orderly_empty (capacity : Nat) : Orderly capacity ({ capacity } : Cache κ α) :=
  orderly_of_linked Chain.linked_empty rfl (Nat.zero_le capacity)

theorem Orderly.size_eq (h : Orderly capacity c) : c.size = c.chain.entries.length :=
  h.linked.length_eq

theorem Orderly.size_le (h : Orderly capacity c) : c.size ≤ capacity :=
  h.size_eq.trans_le h.length_le

theorem Orderly.evict (h : Orderly capacity c) (keyOf : α → κ) :
    Outcome c (keyOf, .evict) (c.evict keyOf).result (c.evict keyOf).state ∧
      Orderly capacity (c.evict keyOf).state := by
  rcases List.eq_nil_or_concat' c.chain.entries with hnil | ⟨es, ⟨t, y⟩, hback⟩
  · rw [evict_of_linked_nil (hnil ▸ h.linked) keyOf]
    exact ⟨.finds_none hnil, h⟩
  · obtain ⟨chain, hnext, hevict⟩ := evict_of_linked_concat (hback ▸ h.linked) keyOf
    have hle := h.length_le
    rw [hback, List.length_append] at hle
    rw [hevict]
    refine ⟨.evicts (t := t) ?_, orderly_of_linked hnext h.capacity_eq (Nat.le_of_succ_le hle)⟩
    show c.chain.entries = chain.entries ++ [(t, y)]
    rw [hback, hnext.entries_eq]

/-- A value under a key that the index knows takes the place of an entry or is lost. -/
theorem Orderly.renew (h : Orderly capacity c) {keyOf : α → κ} {s : Slot} {x : α}
    (hknown : c.index[keyOf x]? = some s) :
    Outcome c (keyOf, .add x) none (c.renew s x) ∧ Orderly capacity (c.renew s x) := by
  by_cases hs : s ∈ slots c.chain.entries
  · obtain ⟨y, es, fs, hlive⟩ := Chain.exists_of_mem_slots hs
    obtain ⟨chain, hnext, hrenew⟩ := renew_of_linked (hlive ▸ h.linked) x
    have hle := h.length_le
    rw [hlive, List.perm_middle.length_eq] at hle
    rw [hrenew]
    exact ⟨.overwrites hknown hlive hnext.entries_eq, orderly_of_linked hnext h.capacity_eq hle⟩
  · rw [renew_of_absent (h.linked.contains_eq_false hs)]
    exact ⟨.loses hknown hs, h⟩

/-- A value under a key that the index does not know enters, and one too many leaves at the back. -/
theorem Orderly.enter (hc : 0 < capacity) (h : Orderly capacity c) {keyOf : α → κ} {x : α}
    (hnew : c.index[keyOf x]? = none) :
    Outcome c (keyOf, .add x) (c.add keyOf x).result (c.add keyOf x).state ∧
      Orderly capacity (c.add keyOf x).state := by
  obtain ⟨hs, hentered⟩ := h.linked.pushFront x
  have hsize : c.size = c.chain.entries.length := h.size_eq
  have hgrown : (c.enter keyOf x).size = c.chain.entries.length + 1 := hentered.length_eq
  have hcapacity := h.capacity_eq
  have hle := h.length_le
  have hadd := add_of_unknown hnew
  by_cases hfull : c.capacity < (c.enter keyOf x).size
  · -- There is room for at least one, so the entry at the back was there before.
    have hsome : c.chain.entries ≠ [] := by
      intro hnil
      rw [hnil, List.length_nil] at hgrown
      omega
    obtain ⟨es, ⟨t, y⟩, hback⟩ := (List.eq_nil_or_concat' c.chain.entries).resolve_left hsome
    have hline : (c.enter keyOf x).chain.Linked
        (((c.chain.pushFront x).1, x) :: es ++ [(t, y)]) := by
      rw [List.cons_append, ← hback]
      exact hentered
    obtain ⟨chain, hnext, hevict⟩ := evict_of_linked_concat hline keyOf
    rw [hadd, if_pos hfull, hevict]
    refine ⟨.displaces hnew ?_ hback hs hnext.entries_eq, orderly_of_linked hnext hcapacity ?_⟩
    · omega
    · rw [hback, List.length_append] at hle
      exact hle
  · rw [hadd, if_neg hfull]
    refine ⟨.enters hnew ?_ hs hentered.entries_eq, orderly_of_linked hentered hcapacity ?_⟩
    · omega
    · rw [List.length_cons]
      omega

theorem Orderly.performAt (hc : 0 < capacity) (h : Orderly capacity c) (m : (α → κ) × Move α) :
    Outcome c m (c.performAt m).result (c.performAt m).state ∧
      Orderly capacity (c.performAt m).state := by
  obtain ⟨keyOf, move⟩ := m
  cases move with
  | add x =>
      cases hk : c.index[keyOf x]? with
      | none => exact h.enter hc hk
      | some s =>
          have hadd : c.performAt (keyOf, .add x) = { state := c.renew s x, result := none } :=
            add_of_known hk
          rw [hadd]
          exact h.renew hk
  | evict => exact h.evict keyOf
  | clear =>
      have hcleared : (c.clear).chain.Linked [] := .clear c.chain
      exact ⟨.clears hcleared.entries_eq,
        orderly_of_linked hcleared h.capacity_eq (Nat.zero_le capacity)⟩

/-- Whatever the keys were at the time of each move, the chain is in good order afterwards. -/
theorem orderly_forEach_performAt (hc : 0 < capacity) (moves : List ((α → κ) × Move α)) :
    Orderly capacity (Step.forEach performAt ({ capacity } : Cache κ α) moves).state :=
  Step.forEach_induction (fun _ m h => (h.performAt hc m).2) (orderly_empty capacity) moves

theorem orderly_forEach_serveAt (hc : 0 < capacity) (requests : List ((α → κ) × Request κ α)) :
    Orderly capacity (Step.forEach serveAt ({ capacity } : Cache κ α) requests).state := by
  obtain ⟨hstate, -, -⟩ := forEach_serveAt ({ capacity } : Cache κ α) requests
  rw [hstate]
  exact orderly_forEach_performAt hc _

/-! ## Reading -/

/-- Evicting takes the value at the back, if there is one, and says whether there was one. -/
theorem Orderly.result_serve_evict (h : Orderly capacity c) (keyOf : α → κ) :
    (c.serve keyOf .evict).result =
      { answer := .flag (c.size != 0), evicted := c.chain.back?.toList } := by
  have hlinked := h.linked
  rw [serve, Step.map, size, hlinked.length_eq, hlinked.back?_eq]
  rcases List.eq_nil_or_concat' c.chain.entries with hnil | ⟨es, e, hback⟩
  · rw [evict_of_linked_nil (hnil ▸ hlinked) keyOf, hnil]
    rfl
  · obtain ⟨chain, -, hevict⟩ := evict_of_linked_concat (hback ▸ hlinked) keyOf
    rw [hevict, hback, List.getLast?_concat]
    simp

/-- What the audit of a cache may find wrong: the index knows too few keys or too many, or the key
of an entry is not known, or it leads to another slot. -/
inductive Misfit (keyOf : α → κ) (c : Cache κ α) : Violation → Prop
  | count (hne : c.index.size ≠ c.size) : Misfit keyOf c (.indexSize c.index.size c.size)
  | unknown {e : Slot × α} (he : e ∈ c.chain.entries) (hk : c.index[keyOf e.2]? = none) :
      Misfit keyOf c .keyNotIndexed
  | astray {e : Slot × α} {s : Slot} (he : e ∈ c.chain.entries)
      (hk : c.index[keyOf e.2]? = some s) (hne : s ≠ e.1) : Misfit keyOf c .keyMisplaced

theorem misfit_of_misindexed? {keyOf : α → κ} {e : Slot × α} {v : Violation}
    (he : e ∈ c.chain.entries) (hv : c.misindexed? keyOf e = some v) : Misfit keyOf c v := by
  unfold misindexed? at hv
  cases hk : c.index[keyOf e.2]? with
  | none =>
      rw [hk] at hv
      obtain rfl := Option.some.inj hv
      exact .unknown he hk
  | some s =>
      rw [hk] at hv
      by_cases hs : s = e.1
      · exact absurd hv (by simp [hs])
      · obtain rfl : Violation.keyMisplaced = v := by simpa [hs] using hv
        exact .astray he hk hs

/-- The audit may find the index unfit for the entries, but nothing wrong with the entries. -/
theorem Orderly.misfit_of_audit (h : Orderly capacity c) {keyOf : α → κ} {v : Violation}
    (hv : c.audit keyOf = .error v) : Misfit keyOf c v := by
  have hlimit : ¬ c.capacity < c.size := by
    rw [h.capacity_eq]
    exact Nat.not_lt.mpr h.size_le
  rw [audit, h.linked.audit_eq_ok] at hv
  change (if c.index.size ≠ c.size then _ else _) = _ at hv
  rw [if_neg hlimit] at hv
  by_cases hsize : c.index.size = c.size
  · rw [if_neg (not_not.mpr hsize)] at hv
    cases hfault : c.chain.entries.findSome? (c.misindexed? keyOf) with
    | none =>
        rw [hfault] at hv
        exact absurd hv (by simp)
    | some w =>
        rw [hfault] at hv
        obtain rfl := Except.error.inj hv
        obtain ⟨e, he, hw⟩ := List.exists_of_findSome?_eq_some hfault
        exact misfit_of_misindexed? he hw
  · rw [if_pos hsize] at hv
    obtain rfl := Except.error.inj hv
    exact .count hsize

/-! ## Runs -/

/-- Whatever the keys of values become while they are inside, a cache with room for a value goes on
serving requests. Each move of a run has its outcome on the cache that it meets, whose capacity is
the one given, and so has any move that may come next. The chain shows its entries, in both
directions, and finds itself in order; there are never too many; and its arena cannot fail, not even
between the entry of a value and the eviction it causes. Evicting takes the value at the back, and
fails exactly if there is none. All that an audit may find wrong is that the index does not fit. -/
theorem run_survives_changing_keys {capacity : Nat} (hc : 0 < capacity)
    (requests : List ((α → κ) × Request κ α)) :
    ∃ fresh : Cache κ α, create capacity = .ok fresh ∧
      let served := Step.forEach serveAt fresh requests
      let c := served.state
      let moves := requests.flatMap movesAt
      let moved := Step.forEach performAt fresh moves
      (c = moved.state ∧
          served.result.flatMap Response.evicted = moved.result.flatMap Option.toList) ∧
        (∀ before m after, moves = before ++ m :: after →
          let met := (Step.forEach performAt fresh before).state
          met.capacity = capacity ∧ met.size ≤ capacity ∧
            Outcome met m (met.performAt m).result (met.performAt m).state) ∧
        (∀ m, Outcome c m (c.performAt m).result (c.performAt m).state) ∧
        Chain.Shows c.chain c.chain.entries ∧
        c.capacity = capacity ∧ c.size ≤ capacity ∧
        (c.chain.Safe ∧ ∀ keyOf x, (c.enter keyOf x).chain.Safe) ∧
        (∀ keyOf, (c.serve keyOf .evict).result =
          { answer := .flag (c.size != 0), evicted := c.chain.back?.toList }) ∧
        ∀ keyOf v, c.audit keyOf = .error v → Misfit keyOf c v := by
  refine ⟨{ capacity }, if_neg (Nat.ne_of_gt hc), ?_⟩
  intro served c moves moved
  obtain ⟨hstate, hevicted, -⟩ := forEach_serveAt ({ capacity } : Cache κ α) requests
  have h : Orderly capacity c := orderly_forEach_serveAt hc requests
  refine ⟨⟨hstate, hevicted⟩, ?_, fun m => (h.performAt hc m).1, h.linked.shows, h.capacity_eq,
    h.size_le, ⟨h.linked.safe, ?_⟩, fun keyOf => h.result_serve_evict keyOf,
    fun keyOf v => h.misfit_of_audit⟩
  · intro before m after _ met
    have hmet : Orderly capacity met := orderly_forEach_performAt hc before
    exact ⟨hmet.capacity_eq, hmet.size_le, (hmet.performAt hc m).1⟩
  · intro keyOf x
    exact (h.linked.pushFront x).2.safe

/-- Room for two. Value 1 is evicted under another key than it entered with, so the index still
leads from key 1 to its slot. While the slot is empty, value 1 is lost on the way in; when value 3
has got it, value 4 comes under key 1 and is written over value 3. Then value 2 leaves for value 5.
When value 4 has its own key again, key 1 still leads to it, and its own key leads nowhere. It would
be the next to leave. -/
theorem run_survives_changing_keys_stale :
    0 < 2 ∧ ∃ fresh : Cache Nat Nat, create 2 = .ok fresh ∧
      let requests : List ((Nat → Nat) × Request Nat Nat) :=
        [(id, .addAll [1, 2]), (fun v => if v = 1 then 9 else v, .evict), (id, .add 1),
          (id, .add 3), (fun v => if v = 4 then 1 else v, .add 4), (id, .add 5)]
      let served := Step.forEach serveAt fresh requests
      let c := served.state
      let met := (Step.forEach performAt fresh
        [(id, .add 1), (id, .add 2), (fun v => if v = 1 then 9 else v, .evict)]).state
      served.result.flatMap Response.evicted = [1, 2] ∧
        (met.toList = [2] ∧ (met.performAt (id, .add 1)).state.toList = [2] ∧
          Outcome met (id, .add 1) none (met.performAt (id, .add 1)).state) ∧
        Outcome c (id, .add 6) (some 4) (c.performAt (id, .add 6)).state ∧
        c.chain.entries = [(⟨2⟩, 5), (⟨0⟩, 4)] ∧ c.size ≤ 2 ∧ c.chain.audit = .ok () ∧
        c.toListRev = c.toList.reverse ∧ c.peek? 1 = some 4 ∧ c.peek? 4 = none ∧
        ∀ v, c.audit id = .error v → Misfit id c v := by
  obtain ⟨fresh, hfresh, -, hmoves, hnext, hshows, -, hsize, -, -, hfit⟩ :=
    run_survives_changing_keys (show 0 < 2 by decide)
      [(id, .addAll [1, 2]), (fun v => if v = 1 then 9 else v, .evict), (id, .add 1),
        (id, .add 3), (fun v => if v = 4 then 1 else v, .add 4), (id, .add 5)]
  obtain ⟨-, -, hlost⟩ := hmoves
    [(id, .add 1), (id, .add 2), (fun v => if v = 1 then 9 else v, .evict)] (id, .add 1)
    [(id, .add 3), (fun v => if v = 4 then 1 else v, .add 4), (id, .add 5)] rfl
  obtain rfl : ({ capacity := 2 } : Cache Nat Nat) = fresh := Except.ok.inj hfresh
  have hleaves := hnext (id, .add 6)
  refine ⟨by decide, _, hfresh, ?_, ⟨?_, ?_, ?_⟩, ?_, ?_, hsize, hshows.audit_eq_ok,
    hshows.toListRev_eq, ?_, ?_, hfit id⟩
  · cbv
  · cbv
  · cbv
  · convert hlost using 1
    cbv
  · convert hleaves using 1
    cbv
  · cbv
  · cbv
  · cbv

end Cache

end Retention
