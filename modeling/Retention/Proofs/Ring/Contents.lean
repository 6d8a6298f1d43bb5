/-
# Retention.Proofs.Ring.Contents -- what each operation does to a ring in good order

A ring in good order holds a list of arrivals, and its slots and numbers determine which. Here each
operation is described by that list alone, for every ring in good order, the full one included,
which a batcher never shows: there the start and the stop are the same slot, as they are in an empty
ring, and a new arrival takes the slot of the oldest one. Writing over the oldest arrival is the same
as dropping it and then entering, so nothing new has to be shown about where the window lies.

The loops that drop stale arrivals and that take the values out slot by slot are written down next
to what they amount to.
-/
import Retention.Proofs.Ring.Window

namespace Retention.Ring

universe u

variable {α : Type u} {r r' : Ring α} {as bs : List (Arrival α)}
  {now : Instant} {window : Duration} {m n : Nat}

/-! ## Contents -/

/-- The ring counts these arrivals, and each lies as far behind the start as it stands in the
list. -/
structure Contents (r : Ring α) (as : List (Arrival α)) : Prop where
  len_eq : r.len = as.length
  slot_eq : ∀ k < as.length, r.slots[(r.start + k) % r.capacity]? = some as[k]?

theorem Contents.unique (has : Contents r as) (hbs : Contents r bs) : as = bs := by
  have hlen : as.length = bs.length := has.len_eq.symm.trans hbs.len_eq
  apply List.ext_getElem? fun k => ?_
  by_cases hk : k < as.length
  · exact Option.some.inj ((has.slot_eq k hk).symm.trans (hbs.slot_eq k (hlen ▸ hk)))
  · rw [List.getElem?_eq_none (Nat.le_of_not_lt hk),
      List.getElem?_eq_none (hlen ▸ Nat.le_of_not_lt hk)]

theorem Window.contents (h : Window r as) : Contents r as where
  len_eq := h.len_eq
  slot_eq k hk := by
    have hcell := h.cell k (Nat.lt_of_lt_of_le hk h.len_le)
    have hlt := position_lt h.start_lt k
    rw [get?, Array.getElem?_eq_getElem hlt, Option.join_some] at hcell
    show r.slots[r.position k]? = some as[k]?
    rw [Array.getElem?_eq_getElem hlt, hcell]

/-- If there is a value at each number below `n`, these values are all that is read, in order. -/
theorem filterMap_range_of_isSome {β : Type u} {f : Nat → Option β}
    (hf : ∀ k < n, (f k).isSome = true) :
    ((List.range n).filterMap f).length = n ∧
      ∀ k < n, ((List.range n).filterMap f)[k]? = f k := by
  induction n with
  | zero => exact ⟨rfl, fun k hk => absurd hk (Nat.not_lt_zero k)⟩
  | succ n ih =>
      obtain ⟨hlen, hget⟩ := ih fun k hk => hf k (Nat.lt_succ_of_lt hk)
      obtain ⟨b, hb⟩ := Option.isSome_iff_exists.mp (hf n (Nat.lt_succ_self n))
      have hlast : (List.range (n + 1)).filterMap f = (List.range n).filterMap f ++ [b] := by
        rw [List.range_succ, List.filterMap_append, List.filterMap_cons, hb, List.filterMap_nil]
      rw [hlast]
      refine ⟨by rw [List.length_append, hlen, List.length_singleton], fun k hk => ?_⟩
      rcases Nat.lt_succ_iff_lt_or_eq.mp hk with hlt | rfl
      · rw [List.getElem?_append_left (hlen.symm ▸ hlt), hget k hlt]
      · rw [List.getElem?_append_right (Nat.le_of_eq hlen), hlen, Nat.sub_self, hb]
        rfl

/-- A ring in good order holds the arrivals that it lists. -/
theorem WellFormed.window_arrivals (h : WellFormed r) : Window r r.arrivals := by
  have hsome : ∀ k < r.len, (r.get? (r.position k)).isSome = true := fun k hk =>
    (h.occupied_iff _).mpr ⟨k, hk, rfl⟩
  obtain ⟨hlen, hget⟩ := filterMap_range_of_isSome hsome
  have hle : r.arrivals.length ≤ r.len := Nat.le_of_eq hlen
  refine ⟨h.start_lt, hlen.symm, Nat.le_trans hle h.len_le, ?_, fun k hk => ?_⟩
  · exact h.stop_eq.trans (congrArg r.position hlen.symm)
  · by_cases hin : k < r.len
    · exact (hget k hin).symm
    · -- Another offset of the window would be another slot.
      have hnone : r.get? (r.position k) = none := by
        by_contra hne
        obtain ⟨l, hl, heq⟩ := (h.occupied_iff _).mp (Option.isSome_iff_ne_none.mpr hne)
        have hcapacity := h.len_le
        exact position_ne h.start_lt hk (by omega) (by omega) heq
      rw [hnone, List.getElem?_eq_none (Nat.le_trans hle (Nat.le_of_not_lt hin))]

/-- The ring is in good order, has this many slots and holds these arrivals. -/
structure Holds (capacity : Nat) (r : Ring α) (as : List (Arrival α)) : Prop where
  wellFormed : WellFormed r
  capacity_eq : r.capacity = capacity
  contents : Contents r as

theorem Window.holds (h : Window r as) : Holds r.capacity r as :=
  ⟨h.wellFormed, rfl, h.contents⟩

/-! ## Entering a full ring -/

/-- Writing over the oldest arrival is dropping it and entering then. -/
theorem Window.insert_of_full (h : Window r as) (hfull : as.length = r.capacity)
    (a : Arrival α) : r.insert a = r.dropOldest.insert a := by
  have hpos : 0 < r.capacity := Nat.zero_lt_of_lt h.start_lt
  have hlen : r.len = r.capacity := h.len_eq.trans hfull
  have hroom : r.dropOldest.len < r.dropOldest.capacity := by
    rw [capacity_dropOldest]
    show r.len - 1 < r.capacity
    omega
  -- The slot that dropping empties is the one that the new arrival takes then.
  have hstop : r.stop = r.start := by
    rw [h.stop_eq, hfull, position, Nat.add_mod_right, Nat.mod_eq_of_lt h.start_lt]
  have hnext : r.dropOldest.next r.start = r.next r.start := by
    rw [next, next, capacity_dropOldest]
  rw [Ring.insert, if_neg (Nat.not_lt.mpr (Nat.le_of_eq hlen.symm)), Ring.insert, if_pos hroom]
  show _ = ({ slots := (r.slots.setIfInBounds r.start none).setIfInBounds r.stop (some a)
              start := r.next r.start
              stop := r.dropOldest.next r.stop
              len := r.len - 1 + 1 } : Ring α)
  rw [hstop, hnext, Array.setIfInBounds_setIfInBounds, Nat.sub_add_cancel (hlen ▸ hpos)]

/-- A new arrival comes last; if the ring was full, the oldest one is gone. -/
theorem Window.insert_any (h : Window r as) (a : Arrival α) :
    Window (r.insert a) ((if r.len = r.capacity then as.tail else as) ++ [a]) := by
  have hlen := h.len_eq
  have hle := h.len_le
  by_cases hfull : r.len = r.capacity
  · have hpos := Nat.zero_lt_of_lt h.start_lt
    obtain ⟨b, bs, rfl⟩ := List.exists_cons_of_length_pos (l := as) (by omega)
    rw [if_pos hfull, h.insert_of_full (hlen ▸ hfull)]
    refine h.dropOldest.insert ?_ a
    rw [capacity_dropOldest]
    exact hle
  · rw [if_neg hfull]
    exact h.insert (by omega) a

/-! ## Dropping stale arrivals one by one -/

/-- The oldest arrival is dropped for as long as it is stale; so many are dropped, and this ring is
left. -/
inductive Prunes (now : Instant) (window : Duration) : Ring α → Nat → Ring α → Prop
  | done {r : Ring α} (hfresh : r.oldestIsStale now window = false) : Prunes now window r 0 r
  | drops {r r' : Ring α} {n : Nat} (hstale : r.oldestIsStale now window = true)
      (hrest : Prunes now window r.dropOldest n r') : Prunes now window r (n + 1) r'

theorem Prunes.unique {r'' : Ring α} (h₁ : Prunes now window r n r')
    (h₂ : Prunes now window r m r'') : n = m ∧ r' = r'' := by
  induction h₁ generalizing m with
  | done hfresh =>
      cases h₂ with
      | done => exact ⟨rfl, rfl⟩
      | drops hstale => exact absurd (hfresh.symm.trans hstale) Bool.false_ne_true
  | drops hstale _ ih =>
      cases h₂ with
      | done hfresh => exact absurd (hfresh.symm.trans hstale) Bool.false_ne_true
      | drops _ hrest =>
          obtain ⟨hcount, hring⟩ := ih hrest
          exact ⟨congrArg (· + 1) hcount, hring⟩

/-- As many are dropped as are stale before the first one that is not. -/
theorem Window.prunes (h : Window r as) (now : Instant) (window : Duration) :
    Prunes now window r (as.takeWhile (·.isStale now window)).length
      (r.dropStale now window) := by
  induction as generalizing r with
  | nil =>
      have hfresh := h.oldestIsStale_nil now window
      rw [Ring.dropStale, hfresh]
      exact .done hfresh
  | cons a as ih =>
      have holdest := h.oldestIsStale_cons now window
      rw [Ring.dropStale, holdest, List.takeWhile_cons]
      by_cases hstale : a.isStale now window = true
      · rw [if_pos hstale, if_pos hstale]
        exact .drops (holdest.trans hstale) (ih h.dropOldest)
      · rw [if_neg hstale, if_neg hstale]
        exact .done (holdest.trans (Bool.eq_false_iff.mpr hstale))

theorem Window.prunes_iff (h : Window r as) :
    Prunes now window r n r' ↔
      n = (as.takeWhile (·.isStale now window)).length ∧ r' = r.dropStale now window := by
  constructor
  · intro hprunes
    exact hprunes.unique (h.prunes now window)
  · rintro ⟨rfl, rfl⟩
    exact h.prunes now window

/-- The number of arrivals goes down by as many as are dropped. -/
theorem Window.len_dropStale (h : Window r as) (now : Instant) (window : Duration) :
    r.len - (r.dropStale now window).len = (as.takeWhile (·.isStale now window)).length := by
  have hsplit := congrArg List.length
    (List.takeWhile_append_dropWhile (p := (·.isStale now window)) (l := as))
  rw [List.length_append] at hsplit
  rw [h.len_eq, (h.dropStale now window).1.len_eq]
  omega

/-! ## Taking the values out slot by slot -/

/-- What so many slots from `i` on hold, and the slots when they have been emptied. An empty slot is
passed over. -/
def takeSlots : Nat → Nat → Array (Option (Arrival α)) → List α × Array (Option (Arrival α))
  | 0, _, slots => ([], slots)
  | n + 1, i, slots =>
      let rest := takeSlots n ((i + 1) % slots.size) (slots.setIfInBounds i none)
      ((slots[i]?.join.map Arrival.value).toList ++ rest.1, rest.2)

theorem size_takeSlots (n i : Nat) (slots : Array (Option (Arrival α))) :
    (takeSlots n i slots).2.size = slots.size := by
  induction n generalizing i slots with
  | zero => rfl
  | succ n ih => exact (ih _ _).trans Array.size_setIfInBounds

/-- The values taken from the slots of the window, and the ring with all its slots emptied and its
numbers as they were at first. -/
def drainSlots (r : Ring α) : List α × Ring α :=
  let taken := takeSlots r.len r.start r.slots
  (taken.1, { slots := taken.2.map fun _ => none })

/-- Taking the oldest value out of its slot leaves the slots as dropping it does. -/
theorem Window.values_takeSlots (h : Window r as) :
    (takeSlots as.length r.start r.slots).1 = as.map Arrival.value := by
  induction as generalizing r with
  | nil => rfl
  | cons a as ih =>
      have htaken : r.slots[r.start]?.join = some a := h.get?_start
      have hrest : (takeSlots as.length ((r.start + 1) % r.slots.size)
          (r.slots.setIfInBounds r.start none)).1 = as.map Arrival.value := ih h.dropOldest
      rw [List.length_cons, takeSlots, htaken, hrest]
      rfl

theorem Window.drainSlots_eq (h : Window r as) :
    r.drainSlots = (as.map Arrival.value, Ring.empty r.capacity) := by
  have hslots := size_takeSlots r.len r.start r.slots
  rw [drainSlots, Array.map_const', hslots, h.len_eq, h.values_takeSlots]
  rfl

theorem Window.drain_eq (h : Window r as) :
    r.drain = (as.map Arrival.value, Ring.empty r.capacity) := by
  rw [drain, h.toList_eq, clear_eq_empty]

/-! ## The operations -/

/-- Every ring in good order holds one list of arrivals, whose values it lists from oldest to newest.
A new arrival comes last, and the oldest one is gone exactly if the ring was full; the longest row of
stale arrivals at the old end is dropped, and counted; and all values come out at once, oldest first,
of a ring that is as new then. After each of these the ring is in good order and has as many slots
as before. -/
theorem operations_act_on_contents (hr : WellFormed r) :
    ∃ as : List (Arrival α),
      (∀ bs, Contents r bs ↔ bs = as) ∧
      r.toList = as.map Arrival.value ∧
      (∀ a, Holds r.capacity (r.insert a)
        ((if r.len = r.capacity then as.tail else as) ++ [a])) ∧
      (∀ now window,
        Holds r.capacity (r.dropStale now window) (as.dropWhile (·.isStale now window)) ∧
        (∀ n r', Prunes now window r n r' ↔
          n = (as.takeWhile (·.isStale now window)).length ∧ r' = r.dropStale now window) ∧
        r.len - (r.dropStale now window).len =
          (as.takeWhile (·.isStale now window)).length) ∧
      r.drainSlots = (as.map Arrival.value, Ring.empty r.capacity) ∧
      r.drain = r.drainSlots ∧
      Holds r.capacity (Ring.empty r.capacity : Ring α) [] := by
  have hwindow := hr.window_arrivals
  refine ⟨r.arrivals, fun bs => ⟨fun hbs => hbs.unique hwindow.contents, ?_⟩, rfl, fun a => ?_,
    fun now window => ⟨?_, fun n r' => hwindow.prunes_iff, hwindow.len_dropStale now window⟩,
    hwindow.drainSlots_eq, hwindow.drain_eq.trans hwindow.drainSlots_eq.symm, ?_⟩
  · rintro rfl
    exact hwindow.contents
  · exact capacity_insert r a ▸ (hwindow.insert_any a).holds
  · obtain ⟨hstale, hcapacity⟩ := hwindow.dropStale now window
    exact hcapacity ▸ hstale.holds
  · exact clear_eq_empty r ▸ capacity_clear r ▸ hwindow.clear.holds

/-- A full ring whose window runs over the end, and a full ring with one slot. -/
theorem operations_act_on_contents_full :
    let full : Ring Char :=
      { slots := #[some ⟨'c', ⟨8⟩⟩, some ⟨'a', ⟨1⟩⟩, some ⟨'b', ⟨9⟩⟩]
        start := 1
        stop := 1
        len := 3 }
    let single : Ring Char := { slots := #[some ⟨'a', ⟨1⟩⟩], len := 1 }
    let window : Duration := ⟨5, by decide⟩
    WellFormed full ∧ WellFormed single ∧
      Holds 3 (full.insert ⟨'d', ⟨7⟩⟩) [⟨'b', ⟨9⟩⟩, ⟨'c', ⟨8⟩⟩, ⟨'d', ⟨7⟩⟩] ∧
      Holds 1 (single.insert ⟨'d', ⟨7⟩⟩) [⟨'d', ⟨7⟩⟩] ∧
      Prunes ⟨10⟩ window full 1 (full.dropStale ⟨10⟩ window) ∧
      Holds 3 (full.dropStale ⟨10⟩ window) [⟨'b', ⟨9⟩⟩, ⟨'c', ⟨8⟩⟩] ∧
      full.drainSlots = (['a', 'b', 'c'], Ring.empty 3) ∧
      single.drainSlots = (['a'], Ring.empty 1) := by
  intro full single window
  have hfull : WellFormed full := by decide
  have hsingle : WellFormed single := by decide
  obtain ⟨as, hfulls, -, hinsert, hprune, hdrain, -⟩ := operations_act_on_contents hfull
  obtain ⟨bs, hsingles, -, hinsert', -, hdrain', -⟩ := operations_act_on_contents hsingle
  obtain rfl : [⟨'a', ⟨1⟩⟩, ⟨'b', ⟨9⟩⟩, ⟨'c', ⟨8⟩⟩] = as := (hfulls _).mp ⟨rfl, by decide⟩
  obtain rfl : [⟨'a', ⟨1⟩⟩] = bs := (hsingles _).mp ⟨rfl, by decide⟩
  obtain ⟨hkept, hcounted, -⟩ := hprune ⟨10⟩ window
  exact ⟨hfull, hsingle, hinsert _, hinsert' _, (hcounted _ _).mpr ⟨rfl, rfl⟩, hkept, hdrain,
    hdrain'⟩

end Retention.Ring
