/-
# Retention.Proofs.Cache.Recency -- a cache is a list ordered by recency

What a cache does can be said without slots and without an index: it is a list of values with
distinct keys, the most recent in front. `Recency` says what each request does to such a list, what
it answers, and which values it throws away. A cache serves every run of requests as the list does.
In particular no value is lost on the way in: the index never leads to a slot that is empty or that
holds a value of another key.
-/
import Retention.Proofs.Cache.Indexed
import Retention.Proofs.Run

namespace Retention

universe u v

variable {κ : Type u} {α : Type v}

/-! ## Requests -/

namespace Cache

/-- What a cache can be asked. -/
inductive Request (κ : Type u) (α : Type v) where
  | add (x : α)
  | addAll (xs : List α)
  | evict
  | clear
  | peek (k : κ)
  | contains (k : κ)

/-- What the caller gets. -/
inductive Answer (α : Type v) where
  | done
  | flag (b : Bool)
  | element (x : Option α)

/-- The answer to a request, and the values reported as evicted, in that order. -/
structure Response (α : Type v) where
  answer : Answer α
  evicted : List α := []

/-- One request to a cache. -/
def serve [BEq κ] [Hashable κ] (keyOf : α → κ) (c : Cache κ α) :
    Request κ α → Step (Cache κ α) (Response α)
  | .add x => (c.add keyOf x).map fun out => { answer := .done, evicted := out.toList }
  | .addAll xs => (c.addAll keyOf xs).map fun out => { answer := .done, evicted := out }
  | .evict => (c.evict keyOf).map fun out => { answer := .flag out.isSome, evicted := out.toList }
  | .clear => { state := c.clear, result := { answer := .done } }
  | .peek k => { state := c, result := { answer := .element (c.peek? k) } }
  | .contains k => { state := c, result := { answer := .flag (c.contains k) } }

end Cache

/-! ## The list -/

namespace Recency

open Cache (Request Response)

variable [BEq κ] (keyOf : α → κ) (capacity : Nat)

/-- The value at the back leaves. -/
def evict (xs : List α) : Step (List α) (Option α) :=
  { state := xs.dropLast, result := xs.getLast? }

/-- A value takes the place of the one with its key, in front; if that is one value too many, the
one at the back leaves. -/
def add (xs : List α) (x : α) : Step (List α) (Option α) :=
  let ys := x :: xs.eraseP fun y => keyOf y == keyOf x
  if capacity < ys.length then evict ys else { state := ys, result := none }

/-- One request to the list. -/
def serve (xs : List α) : Request κ α → Step (List α) (Response α)
  | .add x => (add keyOf capacity xs x).map fun out => { answer := .done, evicted := out.toList }
  | .addAll ys =>
    (Step.forEach (add keyOf capacity) xs ys).map fun out =>
      { answer := .done, evicted := out.filterMap id }
  | .evict => (evict xs).map fun out => { answer := .flag (!xs.isEmpty), evicted := out.toList }
  | .clear => { state := [], result := { answer := .done } }
  | .peek k => { state := xs, result := { answer := .element (xs.find? (keyOf · == k)) } }
  | .contains k => { state := xs, result := { answer := .flag (xs.any (keyOf · == k)) } }

variable {keyOf} {xs : List α}

/-- A value of a key is the one found under it, because no other has that key. -/
theorem find?_of_distinct [EquivBEq κ] {k : κ} {x : α}
    (h : xs.Pairwise fun x y => (keyOf x == keyOf y) = false) (hx : x ∈ xs) (hk : keyOf x == k) :
    xs.find? (keyOf · == k) = some x := by
  obtain ⟨ys, zs, rfl⟩ := List.append_of_mem hx
  obtain ⟨-, -, hne⟩ := List.pairwise_append.mp h
  refine List.find?_eq_some_iff_append.mpr ⟨hk, ys, zs, rfl, fun y hy => ?_⟩
  have hyx := hne y hy x List.mem_cons_self
  rw [BEq.congr_right hk] at hyx
  simp [hyx]

variable {capacity : Nat} {x y : α} {ys zs : List α}

/-- A value whose key is in the list takes the place of the one with that key, in front. -/
theorem add_of_known [EquivBEq κ] (hk : keyOf y == keyOf x)
    (h : (ys ++ y :: zs).Pairwise fun x y => (keyOf x == keyOf y) = false)
    (hsize : (ys ++ y :: zs).length ≤ capacity) :
    add keyOf capacity (ys ++ y :: zs) x = { state := x :: (ys ++ zs), result := none } := by
  have herase : (ys ++ y :: zs).eraseP (fun z => keyOf z == keyOf x) = ys ++ zs := by
    obtain ⟨-, -, hne⟩ := List.pairwise_append.mp h
    rw [List.eraseP_append_right]
    · exact congrArg (ys ++ ·) (List.eraseP_cons_of_pos (p := fun z => keyOf z == keyOf x) hk)
    · intro z hz
      have hzy := hne z hz y List.mem_cons_self
      rw [BEq.congr_right hk] at hzy
      simp [hzy]
  rw [add, herase]
  refine if_neg ?_
  simp only [List.length_append, List.length_cons] at hsize ⊢
  omega

/-- A value of a new key enters in front, and the one at the back leaves if there is no room. -/
theorem add_of_new (hne : ∀ y ∈ xs, (keyOf y == keyOf x) = false) :
    add keyOf capacity xs x =
      if capacity < xs.length + 1 then evict (x :: xs)
      else { state := x :: xs, result := none } := by
  have herase : xs.eraseP (fun z => keyOf z == keyOf x) = xs :=
    List.eraseP_of_forall_not fun z hz => by simp [hne z hz]
  rw [add, herase]
  rfl

/-- A value that was added is in front. -/
theorem head?_add (hc : 0 < capacity) (xs : List α) (x : α) :
    (add keyOf capacity xs x).state.head? = some x := by
  rw [add]
  split
  · next hfull =>
      generalize xs.eraseP _ = ys at hfull
      cases ys with
      | nil => exact absurd hfull (Nat.not_lt.mpr hc)
      | cons y ys => rfl
  · rfl

end Recency

/-! ## Reading -/

namespace Cache

variable [BEq κ] [Hashable κ] {keyOf : α → κ} {c : Cache κ α} {es : List (Slot × α)} {xs : List α}

/-- The cache shows these values, and the index leads to their slots only. -/
structure Shows (keyOf : α → κ) (c : Cache κ α) (xs : List α) : Prop where
  toList_eq : c.toList = xs
  walk_next : ∀ n, c.size ≤ n → (c.chain.walk Node.next n c.chain.head).map Prod.snd = xs
  toListRev_eq : c.toListRev = xs.reverse
  size_eq : c.size = xs.length
  peek?_eq : ∀ k, c.peek? k = xs.find? (keyOf · == k)
  contains_iff : ∀ k, c.contains k = true ↔ ∃ x ∈ xs, keyOf x == k
  distinct : xs.Pairwise fun x y => (keyOf x == keyOf y) = false
  index_sound : ∀ k s, c.index[k]? = some s → ∃ x ∈ xs, c.chain.get? s = some x ∧ keyOf x == k

theorem Indexed.distinct_values (h : Indexed keyOf c es) :
    (es.map Prod.snd).Pairwise fun x y => (keyOf x == keyOf y) = false :=
  List.pairwise_map.mpr h.distinct

theorem Indexed.peek?_eq [EquivBEq κ] (h : Indexed keyOf c es) (k : κ) :
    c.peek? k = (es.map Prod.snd).find? (keyOf · == k) := by
  cases hk : c.index[k]? with
  | none =>
      have hnone : (es.map Prod.snd).find? (keyOf · == k) = none := by
        refine List.find?_eq_none.mpr fun x hx => ?_
        obtain ⟨e, he, rfl⟩ := List.mem_map.mp hx
        simp [h.ne_of_index_eq_none hk he]
      rw [peek?, hk, hnone]
      rfl
  | some s =>
      obtain ⟨x, fs, gs, rfl, hx⟩ := h.exists_of_index hk
      rw [peek?, hk, Option.bind_some, h.linked.get?]
      exact (Recency.find?_of_distinct h.distinct_values (by simp) hx).symm

theorem Indexed.contains_iff [EquivBEq κ] [LawfulHashable κ] (h : Indexed keyOf c es) (k : κ) :
    c.contains k = true ↔ ∃ x ∈ es.map Prod.snd, keyOf x == k := by
  rw [Cache.contains, Std.HashMap.contains_eq_isSome_getElem?, Option.isSome_iff_exists]
  constructor
  · rintro ⟨s, hs⟩
    obtain ⟨x, hmem, hx⟩ := (h.index_iff k s).mp hs
    exact ⟨x, List.mem_map_of_mem hmem, hx⟩
  · rintro ⟨x, hmem, hx⟩
    obtain ⟨e, he, rfl⟩ := List.mem_map.mp hmem
    exact ⟨e.1, (h.index_iff k e.1).mpr ⟨e.2, he, hx⟩⟩

theorem Indexed.shows [EquivBEq κ] [LawfulHashable κ] (h : Indexed keyOf c es) :
    Shows keyOf c (es.map Prod.snd) where
  toList_eq := h.linked.toList_eq
  walk_next n hn := by rw [h.linked.walk_next (h.linked.length_eq ▸ hn)]
  toListRev_eq := h.linked.toListRev_eq.trans (congrArg _ h.linked.toList_eq)
  size_eq := by rw [List.length_map]; exact h.linked.length_eq
  peek?_eq := h.peek?_eq
  contains_iff := h.contains_iff
  distinct := h.distinct_values
  index_sound k s hs := by
    obtain ⟨x, fs, gs, rfl, hx⟩ := h.exists_of_index hs
    exact ⟨x, by simp, h.linked.get?, hx⟩

/-! ## Steps and runs -/

/-- The cache holds these values, in order. -/
def Holds (keyOf : α → κ) (c : Cache κ α) (xs : List α) : Prop :=
  ∃ es, Indexed keyOf c es ∧ es.map Prod.snd = xs

theorem Holds.shows [EquivBEq κ] [LawfulHashable κ] (h : Holds keyOf c xs) : Shows keyOf c xs := by
  obtain ⟨es, hindexed, rfl⟩ := h
  exact hindexed.shows

/-- A cache of this capacity holds these values, and they are not too many. -/
structure Mirrors (keyOf : α → κ) (capacity : Nat) (c : Cache κ α) (xs : List α) : Prop where
  holds : Holds keyOf c xs
  capacity_eq : c.capacity = capacity
  length_le : xs.length ≤ capacity

/-- A cache that was just created holds nothing. -/
theorem mirrors_create (keyOf : α → κ) {capacity : Nat} (hc : 0 < capacity) :
    ∃ fresh, create capacity = .ok fresh ∧ Mirrors keyOf capacity fresh [] :=
  ⟨{ capacity }, if_neg (Nat.ne_of_gt hc), ⟨[], indexed_empty capacity, rfl⟩, rfl, Nat.zero_le _⟩

theorem Mirrors.clear {capacity : Nat} (h : Mirrors keyOf capacity c xs) :
    Mirrors keyOf capacity c.clear [] :=
  ⟨⟨[], .clear c, rfl⟩, h.capacity_eq, Nat.zero_le capacity⟩

variable [EquivBEq κ] [LawfulHashable κ] {capacity : Nat}

theorem Holds.evict (h : Holds keyOf c xs) :
    Holds keyOf (c.evict keyOf).state (Recency.evict xs).state ∧
      (c.evict keyOf).result = (Recency.evict xs).result ∧
      (c.evict keyOf).state.capacity = c.capacity := by
  obtain ⟨es, hindexed, rfl⟩ := h
  rcases List.eq_nil_or_concat' es with rfl | ⟨es, e, rfl⟩
  · rw [evict_of_linked_nil hindexed.linked]
    exact ⟨⟨[], hindexed, rfl⟩, rfl, rfl⟩
  · obtain ⟨d, hd, hindexed, hsame⟩ := hindexed.evict_concat
    rw [hd, Recency.evict, List.map_append, List.map_singleton, List.dropLast_concat,
      List.getLast?_concat]
    exact ⟨⟨es, hindexed, rfl⟩, rfl, hsame⟩

theorem Mirrors.evict (h : Mirrors keyOf capacity c xs) :
    Mirrors keyOf capacity (c.evict keyOf).state (Recency.evict xs).state ∧
      (c.evict keyOf).result = (Recency.evict xs).result := by
  obtain ⟨hholds, hresult, hsame⟩ := h.holds.evict
  refine ⟨⟨hholds, hsame.trans h.capacity_eq, ?_⟩, hresult⟩
  rw [Recency.evict, List.length_dropLast]
  exact Nat.le_trans (Nat.sub_le _ 1) h.length_le

theorem Mirrors.add (h : Mirrors keyOf capacity c xs) (x : α) :
    Mirrors keyOf capacity (c.add keyOf x).state (Recency.add keyOf capacity xs x).state ∧
      (c.add keyOf x).result = (Recency.add keyOf capacity xs x).result := by
  obtain ⟨⟨es, hindexed, rfl⟩, hcapacity, hsize⟩ := h
  cases hk : c.index[keyOf x]? with
  | some s =>
      -- The index leads to the entry of that very key, which is renewed: none is added.
      obtain ⟨y, fs, gs, rfl, hy⟩ := hindexed.exists_of_index hk
      obtain ⟨hrenewed, hsame⟩ := hindexed.renew hy
      have hdistinct := hindexed.distinct_values
      rw [List.map_append, List.map_cons] at hdistinct hsize ⊢
      rw [Cache.add, hk, Recency.add_of_known hy hdistinct hsize]
      refine ⟨⟨⟨_, hrenewed, ?_⟩, hsame.trans hcapacity, ?_⟩, rfl⟩
      · rw [List.map_cons, List.map_append]
      · simp only [List.length_append, List.length_cons] at hsize ⊢
        omega
  | none =>
      -- No entry has the key, so the list erases none, and there may be one too many now.
      obtain ⟨s, hentered⟩ := hindexed.enter hk
      have hnew : ∀ y ∈ es.map Prod.snd, (keyOf y == keyOf x) = false := by
        intro y hy
        obtain ⟨e, he, rfl⟩ := List.mem_map.mp hy
        exact hindexed.ne_of_index_eq_none hk he
      have hlength : (c.enter keyOf x).size = (es.map Prod.snd).length + 1 := by
        rw [List.length_map]
        exact hentered.linked.length_eq
      have hholds : Holds keyOf (c.enter keyOf x) (x :: es.map Prod.snd) := ⟨_, hentered, rfl⟩
      have henter : (c.enter keyOf x).capacity = capacity := hcapacity
      rw [Cache.add, hk, Recency.add_of_new hnew]
      simp only [hlength, henter]
      by_cases hfull : capacity < (es.map Prod.snd).length + 1
      · obtain ⟨hevicted, hresult, hsame⟩ := hholds.evict
        rw [if_pos hfull, if_pos hfull]
        refine ⟨⟨hevicted, hsame.trans henter, ?_⟩, hresult⟩
        rw [Recency.evict, List.length_dropLast, List.length_cons]
        exact hsize
      · rw [if_neg hfull, if_neg hfull]
        exact ⟨⟨hholds, henter, Nat.le_of_not_lt hfull⟩, rfl⟩

/-- A cache and a list that hold the same values serve a request alike. -/
theorem Mirrors.serve (h : Mirrors keyOf capacity c xs) (request : Request κ α) :
    Mirrors keyOf capacity (c.serve keyOf request).state
        (Recency.serve keyOf capacity xs request).state ∧
      (c.serve keyOf request).result = (Recency.serve keyOf capacity xs request).result := by
  have hshows := h.holds.shows
  cases request with
  | add x =>
      obtain ⟨hnext, hresult⟩ := h.add x
      exact ⟨hnext, by simp only [Cache.serve, Recency.serve, Step.map, hresult]⟩
  | addAll ys =>
      obtain ⟨hnext, hresult⟩ := Step.forEach_simulates (fun _ _ x h => h.add x) h ys
      exact ⟨hnext, by simp only [Cache.serve, Recency.serve, addAll, Step.map, hresult]⟩
  | evict =>
      obtain ⟨hnext, hresult⟩ := h.evict
      refine ⟨hnext, ?_⟩
      simp only [Cache.serve, Recency.serve, Step.map, hresult]
      cases xs <;> rfl
  | clear => exact ⟨h.clear, rfl⟩
  | peek k => exact ⟨h, by simp only [Cache.serve, Recency.serve, hshows.peek?_eq k]⟩
  | contains k =>
      have hknown : c.contains k = xs.any (keyOf · == k) := by
        rw [Bool.eq_iff_iff, hshows.contains_iff k, List.any_eq_true]
      exact ⟨h, by simp only [Cache.serve, Recency.serve, hknown]⟩

/-- A cache with room for a value serves every run of requests as a list ordered by recency does:
it gives the same answers and reports the same values as evicted. Afterwards it shows the values of
the list, and a value that is added then is the most recent one. -/
theorem run_acts_as_recency_list (keyOf : α → κ) {capacity : Nat} (hc : 0 < capacity)
    (requests : List (Request κ α)) :
    ∃ fresh, create capacity = .ok fresh ∧
      let served := Step.forEach (serve keyOf) fresh requests
      let listed := Step.forEach (Recency.serve keyOf capacity) [] requests
      served.result = listed.result ∧ Shows keyOf served.state listed.state ∧
        listed.state.length ≤ capacity ∧
        ∀ x, (served.state.add keyOf x).state.toList.head? = some x := by
  refine ⟨{ capacity }, if_neg (Nat.ne_of_gt hc), ?_⟩
  have hfresh : Mirrors keyOf capacity ({ capacity } : Cache κ α) [] :=
    ⟨⟨[], indexed_empty capacity, rfl⟩, rfl, Nat.zero_le capacity⟩
  obtain ⟨hlast, hresult⟩ :=
    Step.forEach_simulates (fun _ _ request h => h.serve request) hfresh requests
  refine ⟨hresult, hlast.holds.shows, hlast.length_le, fun x => ?_⟩
  rw [(hlast.add x).1.holds.shows.toList_eq]
  exact Recency.head?_add hc _ x

/-- Two values with room for two: the second addition under key 1 replaces the first and makes it
recent, so key 2 leaves when key 3 arrives. -/
theorem run_acts_as_recency_list_renewed :
    0 < 2 ∧ ∃ fresh : Cache Nat (Nat × Nat), create 2 = .ok fresh ∧
      let served := Step.forEach (serve Prod.fst) fresh
        [.add (1, 10), .addAll [(2, 20), (1, 11)], .add (3, 30), .contains 2, .peek 1, .evict]
      served.result = [⟨.done, []⟩, ⟨.done, []⟩, ⟨.done, [(2, 20)]⟩, ⟨.flag false, []⟩,
          ⟨.element (some (1, 11)), []⟩, ⟨.flag true, [(1, 11)]⟩] ∧
        served.state.toList = [(3, 30)] := by
  refine ⟨by decide, ?_⟩
  obtain ⟨fresh, hfresh, hresult, hshows, -⟩ :=
    run_acts_as_recency_list (Prod.fst : Nat × Nat → Nat) (show 0 < 2 by decide)
      [.add (1, 10), .addAll [(2, 20), (1, 11)], .add (3, 30), .contains 2, .peek 1, .evict]
  refine ⟨fresh, hfresh, ?_, ?_⟩
  · rw [hresult]
    rfl
  · rw [hshows.toList_eq]
    rfl

end Cache

end Retention
