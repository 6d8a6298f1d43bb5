/-
# Retention.Proofs.Cache.Exact -- the index of a cache and its entries correspond one to one

Slots are used again, so a key that stayed in the index after its value had left would sooner or
later lead to a value of another key. `Exact` rules this out. It is read off the cache alone: its
entries are those met on the walk from the front, the arena holds these and no other, and the index
leads from the key of each to its own slot and knows nothing else. A value of a new key enters
before the oldest one leaves, so for a moment there may be one entry too many; that moment lies
inside one addition, and between requests the capacity is kept and the audit finds nothing wrong.
-/
import Mathlib
import Retention.Proofs.Cache.Recency

namespace Retention.Cache

universe u v

variable {κ : Type u} {α : Type v} [BEq κ] [Hashable κ] {keyOf : α → κ} {c : Cache κ α}
  {es : List (Slot × α)}

/-! ## The correspondence -/

/-- The entries of the cache have distinct keys and distinct slots, and are all that its arena
holds. The index leads from the key of each entry to the slot of that entry; and wherever it leads
there is such an entry, for one key only. -/
structure Exact (keyOf : α → κ) (c : Cache κ α) : Prop where
  keys_distinct : c.chain.entries.Pairwise fun e f => (keyOf e.2 == keyOf f.2) = false
  slots_distinct : (c.chain.entries.map Prod.fst).Nodup
  get?_iff : ∀ s x, c.chain.get? s = some x ↔ (s, x) ∈ c.chain.entries
  index_key : ∀ e ∈ c.chain.entries, c.index[keyOf e.2]? = some e.1
  exists_of_index : ∀ k s, c.index[k]? = some s → ∃ x, (s, x) ∈ c.chain.entries ∧ keyOf x == k
  index_injective : ∀ (k l : κ) s, c.index[k]? = some s → c.index[l]? = some s → k == l
  index_size : c.index.size = c.chain.entries.length

variable [EquivBEq κ]

/-- Two keys that lead to one slot are the key of the value in that slot, and so they are equal. -/
theorem Indexed.index_injective (h : Indexed keyOf c es) {k l : κ} {s : Slot}
    (hk : c.index[k]? = some s) (hl : c.index[l]? = some s) : k == l := by
  obtain ⟨x, hx, hxk⟩ := (h.index_iff k s).mp hk
  obtain ⟨y, hy, hyl⟩ := (h.index_iff l s).mp hl
  have hsame : some x = some y :=
    (h.linked.get?_eq_some_iff.mpr hx).symm.trans (h.linked.get?_eq_some_iff.mpr hy)
  obtain rfl := Option.some.inj hsame
  exact BEq.trans (BEq.symm hxk) hyl

theorem Indexed.exact (h : Indexed keyOf c es) : Exact keyOf c := by
  obtain rfl : c.chain.entries = es := h.linked.entries_eq
  refine ⟨h.distinct, h.linked.owns.nodup, ?_, ?_, ?_, ?_, h.index_size⟩
  · intro s x
    exact h.linked.get?_eq_some_iff
  · intro e he
    exact h.index_key he
  · intro k s hk
    exact (h.index_iff k s).mp hk
  · intro k l s hk hl
    exact h.index_injective hk hl

/-! ## The audit -/

/-- A cache whose index fits its entries, and that has room for them, finds itself in order. -/
theorem Indexed.audit_eq_ok (h : Indexed keyOf c es) (hroom : es.length ≤ c.capacity) :
    c.audit keyOf = .ok () := by
  have hsize : c.size = es.length := h.linked.length_eq
  refine audit_eq_ok_iff.mpr ⟨h.linked.audit_eq_ok, h.index_size.trans hsize.symm, ?_, ?_⟩
  · rw [hsize]
    exact hroom
  · intro e he
    rw [h.linked.entries_eq] at he
    exact h.index_key he

/-! ## Runs -/

variable [LawfulHashable κ]

/-- After every run of requests to a cache with room for a value, its index and its entries
correspond one to one, there are not too many of them, and the audit finds nothing wrong. -/
theorem run_keeps_index_exact (keyOf : α → κ) {capacity : Nat} (hc : 0 < capacity)
    (requests : List (Request κ α)) :
    ∃ fresh, create capacity = .ok fresh ∧
      let c := (Step.forEach (serve keyOf) fresh requests).state
      Exact keyOf c ∧ c.size ≤ capacity ∧ c.audit keyOf = .ok () := by
  refine ⟨{ capacity }, if_neg (Nat.ne_of_gt hc), ?_⟩
  have hfresh : ∃ xs, Mirrors keyOf capacity ({ capacity } : Cache κ α) xs :=
    ⟨[], ⟨[], indexed_empty capacity, rfl⟩, rfl, Nat.zero_le capacity⟩
  -- Some list is mirrored throughout, and which one it is does not matter here.
  have hstep : ∀ (c : Cache κ α) request, (∃ xs, Mirrors keyOf capacity c xs) →
      ∃ ys, Mirrors keyOf capacity (c.serve keyOf request).state ys := by
    rintro c request ⟨xs, h⟩
    exact ⟨_, (h.serve request).1⟩
  obtain ⟨xs, ⟨es, hindexed, rfl⟩, hcapacity, hlength⟩ :=
    Step.forEach_induction hstep hfresh requests
  rw [List.length_map] at hlength
  refine ⟨hindexed.exact, ?_, hindexed.audit_eq_ok ?_⟩
  · rw [size, hindexed.linked.length_eq]
    exact hlength
  · rw [hcapacity]
    exact hlength

/-- Room for two: key 2 leaves slot 1 when key 3 arrives, because key 1 was renewed, and key 4
gets the same slot when key 1 leaves. -/
theorem run_keeps_index_exact_reused :
    0 < 2 ∧ ∃ fresh : Cache Nat (Nat × Nat), create 2 = .ok fresh ∧
      let c := (Step.forEach (serve Prod.fst) fresh
        [.addAll [(1, 10), (2, 20), (1, 11)], .add (3, 30), .add (4, 40)]).state
      Exact Prod.fst c ∧ c.size ≤ 2 ∧ c.audit Prod.fst = .ok () ∧
        c.chain.entries = [(⟨1⟩, (4, 40)), (⟨2⟩, (3, 30))] ∧
        c.index[4]? = some ⟨1⟩ ∧ c.index[2]? = none := by
  obtain ⟨fresh, hfresh, hexact, hsize, haudit⟩ :=
    run_keeps_index_exact (Prod.fst : Nat × Nat → Nat) (show 0 < 2 by decide)
      [.addAll [(1, 10), (2, 20), (1, 11)], .add (3, 30), .add (4, 40)]
  refine ⟨by decide, fresh, hfresh, hexact, hsize, haudit, ?_⟩
  obtain rfl : ({ capacity := 2 } : Cache Nat (Nat × Nat)) = fresh := Except.ok.inj hfresh
  refine ⟨?_, ?_, ?_⟩
  · cbv
  · cbv
  · cbv

end Retention.Cache
