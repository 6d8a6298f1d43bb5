/-
# Retention.Proofs.Cache.Audited -- the audit of a cache finds every fault in its index

The audit never goes through the index. It compares two numbers and looks each value up under the
key that it has now, and it would meet no entry that was left behind, nor one that leads to an empty
slot. It need not. If each key leads to the slot of its own value, then distinct slots make the keys
distinct; and if the index knows no more keys than there are values, these are all that it knows.

So the index may be any whatever, and the keys may have changed since their values entered. Only the
chain is taken to be in good order, and nothing is said about its free slots.
-/
import Mathlib
import Retention.Proofs.Cache.Indexed
import Retention.Proofs.Chain.Audited
import Retention.Proofs.Distinct

namespace Retention

universe u v

/-! ## What a chain in good order shows -/

namespace Chain

variable {α : Type v} {c : Chain α} {ss : List Slot}

/-- The walk from the front meets as many entries as there are elements, in distinct slots, and what
is read from a slot is its entry. -/
structure Met (c : Chain α) : Prop where
  strung : Strung c c.entries
  size_eq : c.size = c.entries.length
  nodup : (slots c.entries).Nodup
  get?_iff : ∀ s x, c.get? s = some x ↔ (s, x) ∈ c.entries

theorem GoodOrder.met (h : GoodOrder c ss) (hcount : c.arena.Counted) : Met c := by
  obtain ⟨es, rfl, hes⟩ := h.exists_strung
  have hsize : c.size = es.length := by
    have hlength := hcount.length_eq h.nodup h.contains_iff
    rw [slots, List.length_map] at hlength
    exact hlength.symm
  obtain rfl : c.entries = es := hes.walk_next (Nat.le_of_eq hsize.symm)
  refine ⟨hes, hsize, h.nodup, ?_⟩
  intro s x
  exact hes.get?_eq_some_iff h.contains_iff

end Chain

namespace Cache

variable {κ : Type u} {α : Type v} [BEq κ] [Hashable κ] {keyOf : α → κ} {c : Cache κ α}
  {ss : List Slot}

/-! ## The index as a map -/

/-- The index is the map from the key of each value to the slot of that value: it leads from a key
to a slot just when the value in the slot has the key. -/
def MapsKeys (keyOf : α → κ) (c : Cache κ α) : Prop :=
  ∀ k s, c.index[k]? = some s ↔ ∃ x, c.chain.get? s = some x ∧ keyOf x == k

theorem MapsKeys.peek?_eq_some_iff (h : MapsKeys keyOf c) (hmet : c.chain.Met) {k : κ} {x : α} :
    c.peek? k = some x ↔ x ∈ c.toList ∧ keyOf x == k := by
  have hlisted : x ∈ c.toList ↔ ∃ s, (s, x) ∈ c.chain.entries := by
    simp [toList, Chain.toList]
  rw [peek?, Option.bind_eq_some_iff, hlisted]
  constructor
  · rintro ⟨s, hk, hx⟩
    obtain ⟨y, hy, hyk⟩ := (h k s).mp hk
    obtain rfl := Option.some.inj (hx.symm.trans hy)
    exact ⟨⟨s, (hmet.get?_iff s x).mp hx⟩, hyk⟩
  · rintro ⟨⟨s, hs⟩, hxk⟩
    have hx := (hmet.get?_iff s x).mpr hs
    exact ⟨s, (h k s).mpr ⟨x, hx, hxk⟩, hx⟩

theorem MapsKeys.index_key [EquivBEq κ] (h : MapsKeys keyOf c) (hmet : c.chain.Met)
    {e : Slot × α} (he : e ∈ c.chain.entries) : c.index[keyOf e.2]? = some e.1 :=
  (h (keyOf e.2) e.1).mpr ⟨e.2, (hmet.get?_iff e.1 e.2).mpr he, BEq.refl _⟩

variable [EquivBEq κ] [LawfulHashable κ] {es : List (Slot × α)}

/-- Keys that lead to distinct slots are distinct. -/
theorem keys_distinct_of_lookup (hd : (es.map Prod.fst).Nodup)
    (hkey : ∀ e ∈ es, c.index[keyOf e.2]? = some e.1) :
    (es.map fun e => keyOf e.2).Pairwise fun k l => (k == l) = false := by
  rw [List.pairwise_map]
  refine (List.pairwise_map.mp hd).imp_of_mem ?_
  intro e f he hf hne
  rw [Bool.eq_false_iff]
  intro hkeys
  have hsame : c.index[keyOf e.2]? = c.index[keyOf f.2]? := Std.HashMap.getElem?_congr hkeys
  rw [hkey e he, hkey f hf] at hsame
  exact hne (Option.some.inj hsame)

/-- A key that the index knows is listed among its keys, if not as the same then as an equal one. -/
theorem exists_key_of_lookup {k : κ} {s : Slot} (hk : c.index[k]? = some s) :
    ∃ l ∈ c.index.keys, l == k := by
  have hknown : c.index.keys.contains k = true := by
    rw [Std.HashMap.contains_keys, Std.HashMap.contains_eq_isSome_getElem?, hk]
    rfl
  obtain ⟨l, hl, hkl⟩ := List.contains_iff_exists_mem_beq.mp hknown
  exact ⟨l, hl, BEq.symm hkl⟩

/-- An index that is this map knows as many keys as there are values: neither has one to spare. -/
theorem MapsKeys.index_size (h : MapsKeys keyOf c) (hmet : c.chain.Met) :
    c.index.size = c.size := by
  have hkey : ∀ e ∈ c.chain.entries, c.index[keyOf e.2]? = some e.1 := fun e he =>
    h.index_key hmet he
  have hsame : c.index.keys.length = (c.chain.entries.map fun e => keyOf e.2).length := by
    apply length_eq_of_distinct Std.HashMap.distinct_keys (keys_distinct_of_lookup hmet.nodup hkey)
    · intro k hk
      have hknown := Std.HashMap.mem_iff_isSome_getElem?.mp (Std.HashMap.mem_of_mem_keys hk)
      obtain ⟨s, hs⟩ := Option.isSome_iff_exists.mp hknown
      obtain ⟨x, hx, hxk⟩ := (h k s).mp hs
      exact ⟨keyOf x, List.mem_map.mpr ⟨(s, x), (hmet.get?_iff s x).mp hx, rfl⟩, hxk⟩
    · intro k hk
      obtain ⟨e, he, rfl⟩ := List.mem_map.mp hk
      exact exists_key_of_lookup (hkey e he)
  rw [Std.HashMap.length_keys, List.length_map] at hsame
  rw [hsame]
  exact hmet.size_eq.symm

/-- If the key of each value leads to its slot, and the index knows no more keys than there are
values, then wherever a key leads there is a value that has it. -/
theorem mapsKeys_of_lookup (hmet : c.chain.Met) (hsize : c.index.size = c.size)
    (hkey : ∀ e ∈ c.chain.entries, c.index[keyOf e.2]? = some e.1) : MapsKeys keyOf c := by
  intro k s
  constructor
  · intro hk
    obtain ⟨l, hl, hlk⟩ := exists_key_of_lookup hk
    have hfew : c.index.keys.length ≤ (c.chain.entries.map fun e => keyOf e.2).length := by
      rw [Std.HashMap.length_keys, List.length_map, hsize]
      exact Nat.le_of_eq hmet.size_eq
    -- As many distinct keys of values are known as there are known keys, so this is one of them.
    obtain ⟨m, hm, hml⟩ := exists_beq_of_distinct (keys_distinct_of_lookup hmet.nodup hkey)
      (fun m hm => by
        obtain ⟨e, he, rfl⟩ := List.mem_map.mp hm
        exact exists_key_of_lookup (hkey e he)) hfew hl
    obtain ⟨e, he, rfl⟩ := List.mem_map.mp hm
    have hek : keyOf e.2 == k := BEq.trans hml hlk
    rw [← Std.HashMap.getElem?_congr hek, hkey e he] at hk
    obtain rfl := Option.some.inj hk
    exact ⟨e.2, (hmet.get?_iff e.1 e.2).mpr he, hek⟩
  · rintro ⟨x, hx, hxk⟩
    rw [← Std.HashMap.getElem?_congr hxk]
    exact hkey (s, x) ((hmet.get?_iff s x).mp hx)

theorem audit_eq_ok_iff_mapsKeys (hmet : c.chain.Met) :
    c.audit keyOf = .ok () ↔ c.size ≤ c.capacity ∧ MapsKeys keyOf c := by
  rw [audit_eq_ok_iff]
  constructor
  · rintro ⟨-, hsize, hroom, hkey⟩
    exact ⟨hroom, mapsKeys_of_lookup hmet hsize hkey⟩
  · rintro ⟨hroom, h⟩
    refine ⟨hmet.strung.audit_eq_ok hmet.size_eq, h.index_size hmet, hroom, ?_⟩
    intro e he
    exact h.index_key hmet he

/-! ## What such an index answers -/

theorem MapsKeys.contains_iff (h : MapsKeys keyOf c) {k : κ} :
    c.contains k = true ↔ ∃ x, c.peek? k = some x := by
  rw [contains, Std.HashMap.contains_eq_isSome_getElem?, Option.isSome_iff_exists]
  constructor
  · rintro ⟨s, hk⟩
    obtain ⟨x, hx, -⟩ := (h k s).mp hk
    exact ⟨x, by rw [peek?, hk]; exact hx⟩
  · rintro ⟨x, hx⟩
    obtain ⟨s, hk, -⟩ := Option.bind_eq_some_iff.mp hx
    exact ⟨s, hk⟩

theorem MapsKeys.keys_distinct (h : MapsKeys keyOf c) (hmet : c.chain.Met) :
    c.toList.Pairwise fun x y => (keyOf x == keyOf y) = false := by
  have hdistinct := keys_distinct_of_lookup hmet.nodup fun e he => h.index_key hmet he
  rw [toList, Chain.toList]
  exact List.pairwise_map.mpr (List.pairwise_map.mp hdistinct)

/-! ## The result -/

/-- Let the chain be in good order and its elements counted, and let the index be any whatever and
the keys be any whatever. The audit finds nothing wrong just when there are not too many values and
the index is the map from the key of each to its slot. Then no two values have one key, wherever the
index leads there is a value with that key, and to know a key, to show a value for it and to hold
one that has it are the same, and the value shown is the one that has it. -/
theorem audit_decides_index (keyOf : α → κ) (c : Cache κ α) (hcount : c.chain.arena.Counted)
    (hgood : c.chain.GoodOrder ss) :
    (c.audit keyOf = .ok () ↔ c.size ≤ c.capacity ∧ MapsKeys keyOf c) ∧
      (c.audit keyOf = .ok () →
        (c.toList.Pairwise fun x y => (keyOf x == keyOf y) = false) ∧
          (∀ k s, c.index[k]? = some s → ∃ x, (s, x) ∈ c.chain.entries ∧ keyOf x == k) ∧
          ∀ k, (c.contains k = true ↔ ∃ x, c.peek? k = some x) ∧
            (c.contains k = true ↔ ∃ x ∈ c.toList, keyOf x == k) ∧
            ∀ x, c.peek? k = some x ↔ x ∈ c.toList ∧ keyOf x == k) := by
  have hmet := hgood.met hcount
  refine ⟨audit_eq_ok_iff_mapsKeys hmet, fun hok => ?_⟩
  obtain ⟨-, h⟩ := (audit_eq_ok_iff_mapsKeys hmet).mp hok
  refine ⟨h.keys_distinct hmet, ?_, fun k => ⟨h.contains_iff, ?_, fun x => ?_⟩⟩
  · intro k s hk
    obtain ⟨x, hx, hxk⟩ := (h k s).mp hk
    exact ⟨x, (hmet.get?_iff s x).mp hx, hxk⟩
  · rw [h.contains_iff]
    exact exists_congr fun x => h.peek?_eq_some_iff hmet
  · exact h.peek?_eq_some_iff hmet

/-- Two values whose keys changed after they had entered: the index knows keys 7 and 8. -/
def renamed : Cache Nat Nat where
  chain := {
    arena := { slots := #[some ⟨1, some ⟨1⟩, none⟩, some ⟨2, none, some ⟨0⟩⟩], live := 2 }
    head := some ⟨1⟩
    tail := some ⟨0⟩ }
  index := ((∅ : Std.HashMap Nat Slot).insert 7 ⟨0⟩).insert 8 ⟨1⟩
  capacity := 2

/-- When the values have these keys again, the index fits. When both have key 7, it knows as many
keys as there are values and knows the key of each, but it is not the map from key to slot. -/
theorem audit_decides_index_renamed :
    renamed.chain.arena.Counted ∧ (∃ ss, renamed.chain.GoodOrder ss) ∧
      renamed.audit (fun v => v + 6) = .ok () ∧ MapsKeys (fun v => v + 6) renamed ∧
      renamed.contains 7 = true ∧ renamed.peek? 7 = some 1 ∧ renamed.contains 1 = false ∧
      renamed.audit (fun _ => 7) = .error .keyMisplaced ∧ ¬ MapsKeys (fun _ => 7) renamed := by
  have hcount : renamed.chain.arena.Counted := by decide
  have hchain : renamed.chain.audit = .ok () := by rfl
  have hkeys : renamed.index.size = renamed.size := by
    simp [renamed, Std.HashMap.size_insert]
    rfl
  have hok : renamed.audit (fun v => v + 6) = .ok () := by
    refine audit_eq_ok_iff.mpr ⟨hchain, hkeys, by decide, ?_⟩
    have hentries : renamed.chain.entries = [(⟨1⟩, 2), (⟨0⟩, 1)] := by rfl
    rw [hentries, List.forall_mem_cons, List.forall_mem_singleton]
    constructor
    · cbv
    · cbv
  have hbad : renamed.audit (fun _ => 7) = .error .keyMisplaced := by
    have hfault : renamed.chain.entries.findSome? (renamed.misindexed? fun _ => 7) =
        some .keyMisplaced := by cbv
    rw [audit, hchain]
    show (if renamed.index.size ≠ renamed.size then _ else _) = _
    rw [if_neg (not_not.mpr hkeys), if_neg (by decide), hfault]
  obtain ⟨es, hes, hsize⟩ := Chain.audit_eq_ok_iff.mp hchain
  have hgood := hes.goodOrder hes.1.segment.nodup (hes.contains_iff hcount hsize)
  obtain ⟨hiff, hanswers⟩ := audit_decides_index (fun v => v + 6) renamed hcount hgood
  obtain ⟨hnever, -⟩ := audit_decides_index (fun _ => 7) renamed hcount hgood
  obtain ⟨-, -, hreads⟩ := hanswers hok
  have hpeek : renamed.peek? 7 = some 1 := ((hreads 7).2.2 1).mpr (by decide)
  refine ⟨hcount, ⟨_, hgood⟩, hok, (hiff.mp hok).2, ?_, hpeek, ?_, hbad, ?_⟩
  · exact (hreads 7).1.mpr ⟨1, hpeek⟩
  · rw [Bool.eq_false_iff]
    intro hknown
    obtain ⟨x, hx, hkey⟩ := (hreads 1).2.1.mp hknown
    exact absurd (beq_iff_eq.mp hkey) (by omega)
  · intro h
    have hfits := hnever.mpr ⟨by decide, h⟩
    rw [hbad] at hfits
    cases hfits

end Cache

end Retention
