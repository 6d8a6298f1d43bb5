/-
# Retention.Proofs.Ring.Window -- the slots that a ring uses

A ring keeps three numbers for one window: where it starts, where it stops, and how many slots it
holds. `Window` ties them to the arrivals: counted from the start, and around the end if need be,
the slots hold the arrivals in order, and all further slots up to the capacity are empty. Since the
offsets below the capacity reach every slot exactly once, this says what each slot holds. Dropping
the oldest arrival moves every offset by one, and a new arrival takes the first empty offset.
-/
import Retention.Ring.Basic
import Mathlib.Data.List.Basic
import Mathlib.Logic.Function.Iterate

namespace Retention.Ring

universe u

variable {α : Type u} {r : Ring α}

/-! ## Positions -/

/-- A window runs over the end at most once. -/
theorem position_eq (hstart : r.start < r.capacity) {k : Nat} (hk : k ≤ r.capacity) :
    r.position k = if r.start + k < r.capacity then r.start + k else r.start + k - r.capacity := by
  unfold position
  split
  · next hlt => exact Nat.mod_eq_of_lt hlt
  · next hge =>
    rw [Nat.mod_eq_sub_mod (Nat.le_of_not_lt hge)]
    exact Nat.mod_eq_of_lt (by omega)

theorem position_lt (hstart : r.start < r.capacity) (k : Nat) : r.position k < r.capacity :=
  Nat.mod_lt _ (Nat.zero_lt_of_lt hstart)

/-- Different offsets are different slots. -/
theorem position_ne (hstart : r.start < r.capacity) {k l : Nat} (hk : k < r.capacity)
    (hl : l < r.capacity) (h : k ≠ l) : r.position k ≠ r.position l := by
  rw [position_eq hstart (Nat.le_of_lt hk), position_eq hstart (Nat.le_of_lt hl)]
  split <;> split <;> omega

/-- Every slot has an offset. -/
theorem exists_position (hstart : r.start < r.capacity) {i : Nat} (hi : i < r.capacity) :
    ∃ k < r.capacity, i = r.position k := by
  by_cases h : r.start ≤ i
  · refine ⟨i - r.start, by omega, ?_⟩
    rw [position_eq hstart (by omega), if_pos (by omega)]
    omega
  · refine ⟨i + r.capacity - r.start, by omega, ?_⟩
    rw [position_eq hstart (by omega), if_neg (by omega)]
    omega

theorem position_zero (hstart : r.start < r.capacity) : r.position 0 = r.start :=
  Nat.mod_eq_of_lt hstart

/-- The slot after an offset is the next offset. -/
theorem next_position (r : Ring α) (k : Nat) : r.next (r.position k) = r.position (k + 1) := by
  rw [next, position, position, Nat.mod_add_mod, Nat.add_assoc]

/-! ## The window -/

@[simp] theorem get?_empty (capacity i : Nat) : (Ring.empty capacity : Ring α).get? i = none := by
  simp only [Ring.empty, get?, Array.getElem?_replicate]
  split <;> rfl

/-- Clearing leaves a ring as new. -/
theorem clear_eq_empty (r : Ring α) : r.clear = Ring.empty r.capacity := by
  rw [clear, Ring.empty, Array.map_const']
  rfl

/-- The ring holds exactly these arrivals, the oldest first. -/
structure Window (r : Ring α) (as : List (Arrival α)) : Prop where
  start_lt : r.start < r.capacity
  len_eq : r.len = as.length
  len_le : as.length ≤ r.capacity
  stop_eq : r.stop = r.position as.length
  cell : ∀ k < r.capacity, r.get? (r.position k) = as[k]?

theorem window_empty {capacity : Nat} (hc : 0 < capacity) :
    Window (Ring.empty capacity : Ring α) [] where
  start_lt := by simpa [Ring.empty, Ring.capacity] using hc
  len_eq := rfl
  len_le := Nat.zero_le _
  stop_eq := (Nat.zero_mod _).symm
  cell k _ := get?_empty capacity _

/-- Reading the offsets below the length of a list gives the list. -/
theorem filterMap_getElem?_range (as : List (Arrival α)) :
    (List.range as.length).filterMap (fun k => as[k]?) = as := by
  induction as with
  | nil => rfl
  | cons a as ih =>
      rw [List.length_cons, List.range_succ_eq_map, List.filterMap_cons, List.filterMap_map]
      exact congrArg (a :: ·) ih

theorem Window.arrivals_eq {as : List (Arrival α)} (h : Window r as) : r.arrivals = as := by
  have hcells : ∀ k ∈ List.range r.len, r.get? (r.position k) = as[k]? := by
    intro k hk
    have hlt := List.mem_range.mp hk
    exact h.cell k (by have := h.len_eq; have := h.len_le; omega)
  rw [arrivals, List.filterMap_congr hcells, h.len_eq, filterMap_getElem?_range]

theorem Window.toList_eq {as : List (Arrival α)} (h : Window r as) :
    r.toList = as.map Arrival.value := by
  rw [toList, h.arrivals_eq]

/-! ## Entering and leaving -/

@[simp] theorem capacity_insert (r : Ring α) (a : Arrival α) :
    (r.insert a).capacity = r.capacity := by
  unfold insert capacity
  split <;> simp

@[simp] theorem capacity_dropOldest (r : Ring α) : r.dropOldest.capacity = r.capacity := by
  simp [dropOldest, capacity]

@[simp] theorem capacity_clear (r : Ring α) : r.clear.capacity = r.capacity := by
  simp [clear, capacity]

/-- While there is room, a new arrival becomes the newest and takes an empty slot. -/
theorem Window.insert {as : List (Arrival α)} (h : Window r as) (hroom : as.length < r.capacity)
    (a : Arrival α) : Window (r.insert a) (as ++ [a]) := by
  have hlen : r.len < r.capacity := h.len_eq ▸ hroom
  have hinsert : r.insert a =
      { r with
        slots := r.slots.setIfInBounds r.stop (some a)
        stop := r.next r.stop
        len := r.len + 1 } := if_pos hlen
  have hcapacity := capacity_insert r a
  have hposition : ∀ k, (r.insert a).position k = r.position k := fun k => by
    rw [position, position, hcapacity, hinsert]
  constructor
  · rw [hcapacity, hinsert]
    exact h.start_lt
  · rw [hinsert, List.length_append, List.length_singleton, ← h.len_eq]
  · rw [hcapacity, List.length_append]
    exact hroom
  · rw [hposition, List.length_append, List.length_singleton, ← next_position, ← h.stop_eq, hinsert]
  · -- The slot written to is that of the first empty offset, and of no other.
    intro k hk
    rw [hcapacity] at hk
    have hstop : r.stop < r.slots.size := h.stop_eq ▸ position_lt h.start_lt as.length
    rw [hposition, hinsert, get?, Array.getElem?_setIfInBounds]
    by_cases hkl : as.length = k
    · subst hkl
      rw [if_pos h.stop_eq, if_pos (h.stop_eq ▸ hstop), List.getElem?_concat_length]
      rfl
    · rw [if_neg (h.stop_eq ▸ position_ne h.start_lt hroom hk hkl)]
      refine (h.cell k hk).trans ?_
      by_cases hlt : k < as.length
      · rw [List.getElem?_append_left hlt]
      · rw [List.getElem?_eq_none (by omega), List.getElem?_eq_none]
        rw [List.length_append, List.length_singleton]
        omega

/-- Without the oldest arrival, every other one is an offset nearer to the start. -/
theorem Window.dropOldest {a : Arrival α} {as : List (Arrival α)} (h : Window r (a :: as)) :
    Window r.dropOldest as := by
  have hstart := h.start_lt
  have hlen := h.len_eq
  have hle := h.len_le
  rw [List.length_cons] at hlen hle
  have hcapacity := capacity_dropOldest r
  have hnext : r.next r.start = r.position 1 := by
    rw [← next_position r 0, position_zero hstart]
  have hposition : ∀ k, r.dropOldest.position k = r.position (k + 1) := by
    intro k
    rw [position, hcapacity]
    show (r.next r.start + k) % r.capacity = _
    rw [hnext, position, position, Nat.mod_add_mod, Nat.add_assoc, Nat.add_comm 1 k]
  constructor
  · rw [hcapacity]
    exact Nat.mod_lt _ (Nat.zero_lt_of_lt hstart)
  · show r.len - 1 = as.length
    omega
  · rw [hcapacity]
    omega
  · rw [hposition]
    exact h.stop_eq
  · intro k hk
    rw [hcapacity] at hk
    rw [hposition]
    show (r.slots.setIfInBounds r.start none)[r.position (k + 1)]?.join = _
    rw [Array.getElem?_setIfInBounds]
    by_cases hwrap : k + 1 = r.capacity
    · -- The offset before the window's own end is the slot that was just emptied.
      have hlast : r.start = r.position (k + 1) := by
        rw [hwrap, position, Nat.add_mod_right, Nat.mod_eq_of_lt hstart]
      rw [if_pos hlast, if_pos (show r.start < r.slots.size from hstart),
        List.getElem?_eq_none (by omega)]
      rfl
    · have hk' : k + 1 < r.capacity := by omega
      have hne : r.start ≠ r.position (k + 1) := by
        rw [← position_zero hstart]
        exact position_ne hstart (Nat.zero_lt_of_lt hk') hk' (by omega)
      rw [if_neg hne]
      exact h.cell (k + 1) hk'

theorem Window.clear {as : List (Arrival α)} (h : Window r as) : Window r.clear [] := by
  rw [clear_eq_empty]
  exact window_empty (Nat.zero_lt_of_lt h.start_lt)

/-! ## Stale arrivals -/

theorem Window.get?_start {a : Arrival α} {as : List (Arrival α)} (h : Window r (a :: as)) :
    r.get? r.start = some a := by
  have hcell := h.cell 0 (Nat.zero_lt_of_lt h.start_lt)
  rwa [position_zero h.start_lt] at hcell

theorem Window.oldestIsStale_nil (h : Window r []) (now : Instant) (window : Duration) :
    r.oldestIsStale now window = false := by
  simp [oldestIsStale, h.len_eq]

theorem Window.oldestIsStale_cons {a : Arrival α} {as : List (Arrival α)} (h : Window r (a :: as))
    (now : Instant) (window : Duration) :
    r.oldestIsStale now window = a.isStale now window := by
  simp [oldestIsStale, h.len_eq, h.get?_start]

/-- The arrivals that are stale before the first one that is not are dropped. -/
theorem Window.dropStale {as : List (Arrival α)} (h : Window r as) (now : Instant)
    (window : Duration) :
    Window (r.dropStale now window) (as.dropWhile (·.isStale now window)) ∧
      (r.dropStale now window).capacity = r.capacity := by
  induction as generalizing r with
  | nil =>
      rw [Ring.dropStale, h.oldestIsStale_nil]
      exact ⟨h, rfl⟩
  | cons a as ih =>
      rw [Ring.dropStale, h.oldestIsStale_cons, List.dropWhile_cons]
      by_cases hstale : a.isStale now window = true
      · rw [if_pos hstale, if_pos hstale]
        obtain ⟨hrest, hcapacity⟩ := ih h.dropOldest
        exact ⟨hrest, hcapacity.trans (capacity_dropOldest r)⟩
      · rw [if_neg hstale, if_neg hstale]
        exact ⟨h, rfl⟩

/-- However many arrivals were dropped before, there is one in the first slot of what is left. -/
theorem Window.get?_start_iterate {as : List (Arrival α)} (h : Window r as) {k : Nat}
    (hk : k < as.length) :
    ((Ring.dropOldest^[k] r).get? (Ring.dropOldest^[k] r).start).isSome = true := by
  induction k generalizing r as with
  | zero =>
      obtain ⟨a, as, rfl⟩ := List.exists_cons_of_length_pos hk
      exact Option.isSome_iff_exists.mpr ⟨a, h.get?_start⟩
  | succ k ih =>
      obtain ⟨a, as, rfl⟩ := List.exists_cons_of_length_pos (Nat.zero_lt_of_lt hk)
      exact ih h.dropOldest (Nat.lt_of_succ_lt_succ hk)

/-! ## Good order -/

/-- The three numbers fit each other, and exactly the slots of the window are occupied. -/
structure WellFormed (r : Ring α) : Prop where
  start_lt : r.start < r.capacity
  len_le : r.len ≤ r.capacity
  stop_eq : r.stop = (r.start + r.len) % r.capacity
  occupied_iff : ∀ i, (r.get? i).isSome = true ↔ ∃ k < r.len, i = (r.start + k) % r.capacity

theorem Window.wellFormed {as : List (Arrival α)} (h : Window r as) : WellFormed r where
  start_lt := h.start_lt
  len_le := h.len_eq ▸ h.len_le
  stop_eq := by rw [h.len_eq, h.stop_eq, position]
  occupied_iff i := by
    have hlen := h.len_eq
    have hle := h.len_le
    constructor
    · intro hi
      have hlt : i < r.capacity := by
        by_contra hge
        rw [get?, Array.getElem?_eq_none (Nat.le_of_not_lt hge)] at hi
        exact Bool.false_ne_true hi
      obtain ⟨k, hk, rfl⟩ := exists_position h.start_lt hlt
      rw [h.cell k hk] at hi
      obtain ⟨a, ha⟩ := Option.isSome_iff_exists.mp hi
      obtain ⟨hlt, -⟩ := List.getElem?_eq_some_iff.mp ha
      exact ⟨k, hlen ▸ hlt, rfl⟩
    · rintro ⟨k, hk, rfl⟩
      have hcell := h.cell k (by omega)
      rw [position, List.getElem?_eq_getElem (by omega)] at hcell
      rw [hcell]
      rfl

theorem wellFormed_iff : WellFormed r ↔
    r.start < r.capacity ∧ r.len ≤ r.capacity ∧ r.stop = (r.start + r.len) % r.capacity ∧
      ∀ i < r.capacity,
        (r.get? i).isSome = true ↔ ∃ k < r.len, i = (r.start + k) % r.capacity := by
  constructor
  · rintro ⟨hstart, hlen, hstop, hoccupied⟩
    exact ⟨hstart, hlen, hstop, fun i _ => hoccupied i⟩
  · rintro ⟨hstart, hlen, hstop, hoccupied⟩
    refine ⟨hstart, hlen, hstop, fun i => ?_⟩
    by_cases hi : i < r.capacity
    · exact hoccupied i hi
    · -- There is no such slot, neither occupied nor in the window.
      rw [get?, Array.getElem?_eq_none (Nat.le_of_not_lt hi)]
      constructor
      · intro hsome
        exact absurd hsome Bool.false_ne_true
      · rintro ⟨k, -, rfl⟩
        exact absurd (position_lt hstart k) hi

/-- Whether a ring is in good order can be looked up. -/
instance (r : Ring α) : Decidable (WellFormed r) := decidable_of_iff _ wellFormed_iff.symm

end Retention.Ring
