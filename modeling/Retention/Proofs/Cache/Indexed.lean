/-
# Retention.Proofs.Cache.Indexed -- a cache whose index fits its chain

While keys stay what they are, index and chain of a cache hold the same entries: the index leads
from the key of each entry to the slot of that very entry, and knows no other key. `Indexed` states
this together with the entries, and each way of changing the cache keeps it: an entry written over
and moved to the front, an entry put in front, and the entry at the back taken out. It says nothing
about the capacity, because a new entry enters before the oldest one leaves.
-/
import Retention.Cache.Audit
import Retention.Proofs.Chain.Reading

namespace Retention.Cache

universe u v

variable {κ : Type u} {α : Type v} [BEq κ]

/-! ## Keys among entries -/

/-- Some entry has the key and lies in the slot. -/
def Leads (keyOf : α → κ) (es : List (Slot × α)) (k : κ) (s : Slot) : Prop :=
  ∃ x, (s, x) ∈ es ∧ keyOf x == k

variable {keyOf : α → κ} {es fs : List (Slot × α)} {s t : Slot} {x y : α} {k : κ}

theorem leads_cons :
    Leads keyOf ((s, x) :: es) k t ↔ t = s ∧ keyOf x == k ∨ Leads keyOf es k t := by
  constructor
  · rintro ⟨y, hy, hk⟩
    rcases List.mem_cons.mp hy with hy | hy
    · obtain ⟨rfl, rfl⟩ := Prod.mk.inj hy
      exact Or.inl ⟨rfl, hk⟩
    · exact Or.inr ⟨y, hy, hk⟩
  · rintro (⟨rfl, hk⟩ | ⟨y, hy, hk⟩)
    · exact ⟨x, List.mem_cons_self, hk⟩
    · exact ⟨y, List.mem_cons_of_mem _ hy, hk⟩

theorem leads_perm (h : es.Perm fs) : Leads keyOf es k t ↔ Leads keyOf fs k t :=
  exists_congr fun _ => and_congr_left fun _ => h.mem_iff

/-- A key that differs from those of all entries leads nowhere, nor does one equal to it. -/
theorem not_leads [EquivBEq κ] (hne : ∀ e ∈ es, (keyOf e.2 == keyOf x) = false)
    (hk : keyOf x == k) : ¬ Leads keyOf es k t := by
  rintro ⟨y, hy, hyk⟩
  have hyx := hne (t, y) hy
  rw [BEq.congr_left hyk, BEq.comm, hk] at hyx
  exact Bool.true_eq_false.mp hyx

/-! ## What moves do to the chain -/

variable [Hashable κ] {c : Cache κ α}

/-- A value under a key that the index knows goes to the slot that the key leads to. -/
theorem add_of_known (hknown : c.index[keyOf x]? = some s) :
    c.add keyOf x = { state := c.renew s x, result := none } := by
  rw [add, hknown]

/-- A value under any other key enters, and the one at the back leaves if that is one too many. -/
theorem add_of_unknown (hnew : c.index[keyOf x]? = none) :
    c.add keyOf x =
      if c.capacity < (c.enter keyOf x).size then (c.enter keyOf x).evict keyOf
      else { state := c.enter keyOf x, result := none } := by
  rw [add, hnew]
  rfl

theorem evict_of_linked_nil (h : c.chain.Linked []) (keyOf : α → κ) :
    c.evict keyOf = { state := c, result := none } := by
  rw [Cache.evict, h.popBack?_nil]

/-- The entry at the back is evicted, whatever its key is now. -/
theorem evict_of_linked_concat (h : c.chain.Linked (es ++ [(s, x)])) (keyOf : α → κ) :
    ∃ chain : Chain α, chain.Linked es ∧ c.evict keyOf =
      { state := { c with chain, index := c.index.erase (keyOf x) }
        result := some x
        events := [.entryEvicted es.length c.capacity] } := by
  obtain ⟨chain, hpop, hlinked⟩ := h.popBack?_concat
  refine ⟨chain, hlinked, ?_⟩
  rw [Cache.evict, hpop, ← hlinked.length_eq]

/-- The entry in the slot takes the value and moves to the front. -/
theorem renew_of_linked (h : c.chain.Linked (es ++ (s, y) :: fs)) (x : α) :
    ∃ chain : Chain α, chain.Linked ((s, x) :: (es ++ fs)) ∧ c.renew s x = { c with chain } := by
  obtain ⟨chain, hset, hlinked⟩ := h.set? x
  obtain ⟨chain, hmove, hlinked⟩ := hlinked.moveToFront?
  refine ⟨chain, hlinked, ?_⟩
  rw [Cache.renew, hset, Option.bind_some, hmove]

/-- A slot without a value stays as it is, and so does the cache. -/
theorem renew_of_absent (hs : c.chain.contains s = false) (x : α) : c.renew s x = c := by
  rw [Cache.renew, Chain.set?_eq_none hs, Option.bind_none]

/-! ## What the audit looks at -/

theorem misindexed?_eq_none_iff {e : Slot × α} :
    c.misindexed? keyOf e = none ↔ c.index[keyOf e.2]? = some e.1 := by
  unfold misindexed?
  cases c.index[keyOf e.2]? with
  | none => simp
  | some s => simp

theorem audit_eq_ok_iff : c.audit keyOf = .ok () ↔
    c.chain.audit = .ok () ∧ c.index.size = c.size ∧ c.size ≤ c.capacity ∧
      ∀ e ∈ c.chain.entries, c.index[keyOf e.2]? = some e.1 := by
  have hfaultless : c.chain.entries.findSome? (c.misindexed? keyOf) = none ↔
      ∀ e ∈ c.chain.entries, c.index[keyOf e.2]? = some e.1 := by
    rw [List.findSome?_eq_none_iff]
    exact forall₂_congr fun e _ => misindexed?_eq_none_iff
  rw [← hfaultless]
  unfold audit
  cases c.chain.audit with
  | error v => simp [bind, Except.bind]
  | ok _ =>
      show (if c.index.size ≠ c.size then _ else _) = _ ↔ _
      by_cases hsize : c.index.size = c.size
      · by_cases hroom : c.size ≤ c.capacity
        · rw [if_neg (not_not.mpr hsize), if_neg (Nat.not_lt.mpr hroom)]
          cases c.chain.entries.findSome? (c.misindexed? keyOf) with
          | none => simp [hsize, hroom]
          | some v => simp
        · rw [if_neg (not_not.mpr hsize), if_pos (Nat.lt_of_not_le hroom)]
          simp [hroom]
      · rw [if_pos hsize]
        simp [hsize]

/-! ## The invariant -/

/-- The entries of the cache, with distinct keys, and an index that leads from the key of each to
its slot and knows no other key. -/
structure Indexed (keyOf : α → κ) (c : Cache κ α) (es : List (Slot × α)) : Prop where
  linked : c.chain.Linked es
  distinct : es.Pairwise fun e f => (keyOf e.2 == keyOf f.2) = false
  index_iff : ∀ k s, c.index[k]? = some s ↔ Leads keyOf es k s
  index_size : c.index.size = es.length

theorem indexed_empty (capacity : Nat) : Indexed keyOf ({ capacity } : Cache κ α) [] where
  linked := Chain.linked_empty
  distinct := .nil
  index_iff k s := by simp [Leads]
  index_size := Std.HashMap.size_empty

theorem Indexed.clear (c : Cache κ α) : Indexed keyOf c.clear [] := indexed_empty c.capacity

/-- A key that the index does not know is the key of no entry. -/
theorem Indexed.ne_of_index_eq_none (h : Indexed keyOf c es) (hk : c.index[k]? = none)
    {e : Slot × α} (he : e ∈ es) : (keyOf e.2 == k) = false := by
  rw [Bool.eq_false_iff]
  intro hek
  rw [(h.index_iff k e.1).mpr ⟨e.2, he, hek⟩] at hk
  exact Option.some_ne_none e.1 hk

/-- A key that the index knows cuts the entries at one that has it. -/
theorem Indexed.exists_of_index (h : Indexed keyOf c es) (hk : c.index[k]? = some s) :
    ∃ x fs gs, es = fs ++ (s, x) :: gs ∧ keyOf x == k := by
  obtain ⟨x, hmem, hx⟩ := (h.index_iff k s).mp hk
  obtain ⟨fs, gs, rfl⟩ := List.append_of_mem hmem
  exact ⟨x, fs, gs, rfl, hx⟩

/-- The key of an entry leads to the slot of that very entry. -/
theorem Indexed.index_key [EquivBEq κ] (h : Indexed keyOf c es) {e : Slot × α} (he : e ∈ es) :
    c.index[keyOf e.2]? = some e.1 :=
  (h.index_iff (keyOf e.2) e.1).mpr ⟨e.2, he, BEq.refl _⟩

/-! ## Operations -/

variable [EquivBEq κ]

/-- The entry with the key of a new value takes the value and moves to the front. -/
theorem Indexed.renew (h : Indexed keyOf c (es ++ (s, y) :: fs)) (hk : keyOf y == keyOf x) :
    Indexed keyOf (c.renew s x) ((s, x) :: (es ++ fs)) ∧
      (c.renew s x).capacity = c.capacity := by
  obtain ⟨chain, hlinked, hrenew⟩ := renew_of_linked h.linked x
  rw [hrenew]
  refine ⟨⟨hlinked, ?_, ?_, ?_⟩, rfl⟩
  · -- The new value has the key of the old one, so it differs from the others as that one did.
    have hpair := h.distinct.perm List.perm_middle BEq.symm_false
    obtain ⟨hy, hrest⟩ := List.pairwise_cons.mp hpair
    exact List.pairwise_cons.mpr ⟨fun e he => BEq.congr_left hk ▸ hy e he, hrest⟩
  · intro k t
    have hiff := (h.index_iff k t).trans (leads_perm List.perm_middle)
    rw [leads_cons, BEq.congr_left hk] at hiff
    rwa [leads_cons]
  · show c.index.size = _
    rw [h.index_size, List.length_append, List.length_cons, List.length_cons, List.length_append]
    omega

variable [LawfulHashable κ]

/-- The entry at the back leaves, and the index forgets its key and no other. -/
theorem Indexed.evict_concat (h : Indexed keyOf c (es ++ [(s, x)])) :
    ∃ d, c.evict keyOf =
        { state := d, result := some x, events := [.entryEvicted es.length c.capacity] } ∧
      Indexed keyOf d es ∧ d.capacity = c.capacity := by
  obtain ⟨chain, hlinked, hevict⟩ := evict_of_linked_concat h.linked keyOf
  obtain ⟨hdistinct, -, hne⟩ := List.pairwise_append.mp h.distinct
  refine ⟨{ c with chain, index := c.index.erase (keyOf x) }, hevict,
    ⟨hlinked, hdistinct, ?_, ?_⟩, rfl⟩
  · intro k t
    have hiff := (h.index_iff k t).trans (leads_perm (List.perm_append_singleton _ _))
    show (c.index.erase (keyOf x))[k]? = some t ↔ _
    rw [Std.HashMap.getElem?_erase]
    by_cases hk : keyOf x == k
    · -- No entry that stays has the key that is forgotten.
      have hout : ¬ Leads keyOf es k t :=
        not_leads (fun e he => hne e he (s, x) List.mem_cons_self) hk
      rw [if_pos hk]
      exact ⟨fun hnone => absurd hnone.symm (Option.some_ne_none t), fun hin => absurd hin hout⟩
    · rw [if_neg hk, hiff, leads_cons]
      exact or_iff_right fun hx => hk hx.2
  · have hmem : keyOf x ∈ c.index := by
      have hknown : c.index[keyOf x]? = some s := h.index_key (e := (s, x)) (by simp)
      rw [Std.HashMap.mem_iff_isSome_getElem?, hknown]
      rfl
    have hsize : c.index.size = es.length + 1 := by
      rw [h.index_size, List.length_append]
      rfl
    show (c.index.erase (keyOf x)).size = es.length
    rw [Std.HashMap.size_erase, if_pos hmem]
    omega

/-- A value whose key the index does not know enters at the front. -/
theorem Indexed.enter (h : Indexed keyOf c es) (hk : c.index[keyOf x]? = none) :
    ∃ s, Indexed keyOf (c.enter keyOf x) ((s, x) :: es) := by
  obtain ⟨-, hlinked⟩ := h.linked.pushFront x
  have hne : ∀ e ∈ es, (keyOf e.2 == keyOf x) = false := fun e he => h.ne_of_index_eq_none hk he
  refine ⟨(c.chain.pushFront x).1, hlinked, ?_, ?_, ?_⟩
  · exact List.pairwise_cons.mpr ⟨fun e he => BEq.symm_false (hne e he), h.distinct⟩
  · intro k t
    show (c.index.insert (keyOf x) (c.chain.pushFront x).1)[k]? = some t ↔ _
    rw [Std.HashMap.getElem?_insert, leads_cons]
    by_cases hxk : keyOf x == k
    · rw [if_pos hxk, or_iff_left (not_leads hne hxk), Option.some.injEq]
      exact ⟨fun hs => ⟨hs.symm, hxk⟩, fun hs => hs.1.symm⟩
    · rw [if_neg hxk, h.index_iff]
      exact (or_iff_right fun hs => hxk hs.2).symm
  · have hnotMem : keyOf x ∉ c.index := by
      rw [Std.HashMap.mem_iff_isSome_getElem?, hk]
      exact Bool.false_ne_true
    show (c.index.insert (keyOf x) (c.chain.pushFront x).1).size = es.length + 1
    rw [Std.HashMap.size_insert, if_neg hnotMem, h.index_size]

end Retention.Cache
