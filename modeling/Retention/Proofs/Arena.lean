/-
# Retention.Proofs.Arena -- an arena never confuses two values

An arena keeps its promises because of one correspondence: the slots it remembers as free are
exactly the empty ones, each remembered once. So a new value never overwrites a live one, every
value keeps the slot it was given, and the number of values is the number of occupied slots. The
correspondence is `Arena.Sound`; each operation keeps it, whatever slot it is handed, and changes
the reading of one slot only. Every slot is then counted once, among the values or on the free list,
so an insertion makes the arena larger only if it has a value in every slot.
-/
import Retention.Arena
import Mathlib.Data.List.Nodup
import Mathlib.Data.List.Perm.Basic

namespace Retention.Arena

universe u

variable {α : Type u} {a : Arena α}

/-- The free slots are the empty ones, each once, and the values are counted. -/
structure Sound (a : Arena α) : Prop where
  nodup_free : a.free.Nodup
  mem_free_iff : ∀ i, i ∈ a.free ↔ a.slots[i]? = some none
  live_eq : a.live = a.slots.countP Option.isSome

theorem sound_empty : (empty : Arena α).Sound where
  nodup_free := List.nodup_nil
  mem_free_iff i := by simp [empty]
  live_eq := by simp [empty]

/-! ## Inserting -/

/-- A slot on the free list lies in the arena and is empty. -/
theorem Sound.getElem_free (h : a.Sound) {i : Nat} (hi : i ∈ a.free) :
    ∃ hb : i < a.slots.size, a.slots[i] = none :=
  Array.getElem?_eq_some_iff.mp ((h.mem_free_iff i).mp hi)

/-- The slot handed out for a new value was empty. -/
theorem Sound.get?_insert_fst (h : a.Sound) (x : α) : a.get? (a.insert x).1 = none := by
  cases hf : a.free with
  | nil => simp [insert, hf, get?]
  | cons i rest =>
      have hi : i ∈ a.free := by rw [hf]; exact List.mem_cons_self
      simp [insert, hf, get?, (h.mem_free_iff i).mp hi]

/-- The new value is in its slot, and no other slot reads differently. -/
theorem Sound.get?_insert (h : a.Sound) (x : α) (t : Slot) :
    (a.insert x).2.get? t = if t = (a.insert x).1 then some x else a.get? t := by
  obtain ⟨t⟩ := t
  cases hf : a.free with
  | nil =>
      simp only [insert, hf, get?, Array.getElem?_push, Slot.mk.injEq]
      split <;> rfl
  | cons i rest =>
      obtain ⟨hb, -⟩ := h.getElem_free (i := i) (by rw [hf]; exact List.mem_cons_self)
      simp only [insert, hf, get?, Array.getElem?_setIfInBounds, Slot.mk.injEq]
      by_cases hti : t = i
      · subst hti
        rw [if_pos rfl, if_pos hb, if_pos rfl]
        rfl
      · rw [if_neg (Ne.symm hti), if_neg hti]

@[simp] theorem live_insert (a : Arena α) (x : α) : (a.insert x).2.live = a.live + 1 := by
  unfold insert
  split <;> rfl

theorem Sound.insert (h : a.Sound) (x : α) : (a.insert x).2.Sound := by
  cases hf : a.free with
  | nil =>
      -- The arena grows by one slot. No slot was empty before, and the new one is not.
      have hfree : ∀ i : Nat, a.slots[i]? ≠ some none := by
        intro i hi
        have hmem := (h.mem_free_iff i).mpr hi
        rw [hf] at hmem
        exact absurd hmem List.not_mem_nil
      constructor
      · simp [Arena.insert, hf]
      · intro i
        simp only [Arena.insert, hf, List.not_mem_nil, false_iff, Array.getElem?_push]
        split
        · simp
        · exact hfree i
      · simp [Arena.insert, hf, h.live_eq]
  | cons i rest =>
      obtain ⟨hb, hnone⟩ := h.getElem_free (i := i) (by rw [hf]; exact List.mem_cons_self)
      -- The slot is on the free list once only, so it is off the list when it is used again.
      have hnodup := h.nodup_free
      rw [hf, List.nodup_cons] at hnodup
      constructor
      · simpa [Arena.insert, hf] using hnodup.2
      · intro j
        simp only [Arena.insert, hf, Array.getElem?_setIfInBounds]
        by_cases hij : i = j
        · subst hij
          simp [hnodup.1, hb]
        · rw [if_neg hij, ← h.mem_free_iff j, hf, List.mem_cons]
          exact ⟨Or.inr, fun hj => hj.resolve_left (Ne.symm hij)⟩
      · have hcount := Array.countP_set (p := Option.isSome) (a := some x) hb
        simp only [hnone] at hcount
        simp [Arena.insert, hf, Array.setIfInBounds, hb, hcount, h.live_eq]

/-! ## Removing -/

theorem getElem?_of_get? {s : Slot} {x : α} (hs : a.get? s = some x) :
    ∃ hb : s.index < a.slots.size, a.slots[s.index] = some x := by
  rw [get?, Option.join_eq_some_iff] at hs
  exact Array.getElem?_eq_some_iff.mp hs

/-- A value can be taken out of its slot. The slot is empty then and free, and no other slot reads
differently. -/
theorem Sound.remove? (h : a.Sound) {s : Slot} {x : α} (hs : a.get? s = some x) :
    ∃ b : Arena α, a.remove? s = some (x, b) ∧ b.Sound ∧ b.live + 1 = a.live ∧
      ∀ t, b.get? t = if t = s then none else a.get? t := by
  obtain ⟨hb, hx⟩ := getElem?_of_get? hs
  have hcount := Array.countP_set (p := Option.isSome) (a := none) hb
  have hpos : 0 < a.slots.countP Option.isSome :=
    Array.countP_pos_iff.mpr ⟨some x, hx ▸ Array.getElem_mem hb, rfl⟩
  simp only [hx, Option.isSome_some, Option.isSome_none, if_true, Bool.false_eq_true, if_false,
    Nat.add_zero] at hcount
  refine ⟨_, by rw [Arena.remove?, hs]; rfl, ⟨?_, ?_, ?_⟩, ?_, ?_⟩
  · -- A slot that holds a value is not on the free list yet.
    refine List.nodup_cons.mpr ⟨fun hmem => ?_, h.nodup_free⟩
    obtain ⟨_, hnone⟩ := h.getElem_free hmem
    rw [hx] at hnone
    exact Option.some_ne_none x hnone
  · intro j
    rw [List.mem_cons, Array.getElem?_setIfInBounds, h.mem_free_iff j]
    by_cases hj : s.index = j
    · subst hj
      simp [hb]
    · rw [if_neg hj]
      exact ⟨fun hor => hor.resolve_left (Ne.symm hj), Or.inr⟩
  · simp only [Array.setIfInBounds, hb, dif_pos, hcount, h.live_eq]
  · have hlive := h.live_eq
    show a.live - 1 + 1 = a.live
    omega
  · intro t
    simp only [get?, Array.getElem?_setIfInBounds]
    by_cases ht : t = s
    · subst ht
      simp [hb]
    · have hne : s.index ≠ t.index := fun e => ht (congrArg Slot.mk e.symm)
      rw [if_neg hne, if_neg ht]

/-! ## Writing -/

/-- Writing neither fills a slot nor empties one. -/
theorem map_isSome_modify (a : Arena α) (s : Slot) (f : α → α) :
    (a.modify s f).slots.map Option.isSome = a.slots.map Option.isSome := by
  apply Array.ext_getElem?
  intro i
  simp only [Arena.modify, Array.getElem?_map, Array.getElem?_modify]
  split
  · rw [Option.map_map]
    congr 1
    funext cell
    exact Option.isSome_map
  · rfl

theorem Sound.modify (h : a.Sound) (s : Slot) (f : α → α) : (a.modify s f).Sound := by
  constructor
  · exact h.nodup_free
  · intro i
    refine (h.mem_free_iff i).trans ?_
    simp only [Arena.modify, Array.getElem?_modify]
    split <;> simp
  · have hcount := congrArg (Array.countP id) (map_isSome_modify a s f)
    rw [Array.countP_map, Array.countP_map] at hcount
    exact h.live_eq.trans hcount.symm

/-- Which slots hold values does not depend on what is written into them. -/
@[simp] theorem contains_modify (a : Arena α) (s t : Slot) (f : α → α) :
    (a.modify s f).contains t = a.contains t := by
  by_cases h : s = t
  · subst h
    simp [contains]
  · rw [contains, get?_modify_of_ne a f h, contains]

/-! ## Counting -/

/-- The free list names the empty slots, in some order. -/
theorem Sound.free_perm (h : a.Sound) :
    a.free.Perm ((List.range a.slots.size).filter fun i => a.slots[i]?.any Option.isNone) := by
  rw [List.perm_ext_iff_of_nodup h.nodup_free (List.nodup_range.filter _)]
  intro i
  rw [h.mem_free_iff, List.mem_filter, List.mem_range, Option.any_eq_true]
  constructor
  · intro hi
    exact ⟨(Array.getElem?_eq_some_iff.mp hi).1, none, hi, rfl⟩
  · rintro ⟨-, cell, hi, hcell⟩
    rw [hi, Option.isNone_iff_eq_none.mp hcell]

/-- Counting the cells of an array by their positions. -/
theorem countP_range (cells : Array (Option α)) (p : Option α → Bool) :
    (List.range cells.size).countP (fun i => cells[i]?.any p) = cells.countP p := by
  have hcells : cells.toList.map some = (List.range cells.size).map (cells[·]?) := by
    apply List.ext_getElem?
    intro i
    by_cases hi : i < cells.size <;> simp [hi]
  have hcount := congrArg (List.countP (Option.any p)) hcells
  rw [List.countP_map, List.countP_map] at hcount
  rw [← Array.countP_toList]
  exact hcount.symm

/-- The number of values is the number of occupied slots, whatever the free list says. -/
def Counted (a : Arena α) : Prop := a.live = a.slots.countP Option.isSome

instance (a : Arena α) : Decidable a.Counted := inferInstanceAs (Decidable (_ = _))

/-- The slots that hold a value, in the order of their positions. -/
def occupied (a : Arena α) : List Slot :=
  ((List.range a.slots.size).map Slot.mk).filter a.contains

theorem nodup_occupied (a : Arena α) : a.occupied.Nodup := by
  have hmk : Function.Injective Slot.mk := fun i j hij => congrArg Slot.index hij
  exact (List.nodup_range.map hmk).filter _

theorem mem_occupied {s : Slot} : s ∈ a.occupied ↔ a.contains s = true := by
  rw [occupied, List.mem_filter]
  refine and_iff_right_of_imp fun hs => ?_
  -- A slot that holds a value lies in the array.
  obtain ⟨x, hx⟩ := contains_iff.mp hs
  obtain ⟨hb, -⟩ := getElem?_of_get? hx
  exact List.mem_map.mpr ⟨s.index, List.mem_range.mpr hb, rfl⟩

theorem Counted.length_occupied (h : a.Counted) : a.occupied.length = a.live := by
  have hcell : a.contains ∘ Slot.mk = fun i => a.slots[i]?.any Option.isSome := by
    funext i
    show (a.slots[i]?.join).isSome = a.slots[i]?.any Option.isSome
    cases a.slots[i]? <;> rfl
  rw [occupied, ← List.countP_eq_length_filter, List.countP_map, hcell, countP_range]
  exact h.symm

/-- As many distinct occupied slots as there are values are all of them. -/
theorem Counted.contains_iff (h : a.Counted) {ss : List Slot} (hd : ss.Nodup)
    (hheld : ∀ s ∈ ss, a.contains s = true) (hlength : ss.length = a.live) (t : Slot) :
    a.contains t = true ↔ t ∈ ss := by
  have hsub : ss.Subperm a.occupied :=
    List.subperm_of_subset hd fun s hs => mem_occupied.mpr (hheld s hs)
  have hperm : ss.Perm a.occupied :=
    hsub.perm_of_length_le (Nat.le_of_eq (h.length_occupied.trans hlength.symm))
  rw [← mem_occupied, hperm.mem_iff]

/-- Slots that name every occupied one once are as many as there are values. -/
theorem Counted.length_eq (h : a.Counted) {ss : List Slot} (hd : ss.Nodup)
    (hheld : ∀ t, a.contains t = true ↔ t ∈ ss) : ss.length = a.live := by
  have hperm : ss.Perm a.occupied := by
    apply (List.perm_ext_iff_of_nodup hd a.nodup_occupied).mpr
    intro t
    rw [mem_occupied, hheld t]
  rw [hperm.length_eq, h.length_occupied]

/-- Every slot has a value or is free. -/
theorem Sound.size_eq (h : a.Sound) : a.slots.size = a.live + a.free.length := by
  have hfree : a.free.length = a.slots.countP Option.isNone := by
    rw [h.free_perm.length_eq, ← List.countP_eq_length_filter, countP_range]
  have hcells : a.slots.size = a.slots.countP Option.isSome + a.slots.countP Option.isNone := by
    rw [Array.size_eq_countP_add_countP (p := Option.isSome)]
    simp only [Bool.not_eq_true, Option.isSome_eq_false_iff, Bool.decide_eq_true]
  rw [h.live_eq, hfree]
  exact hcells

/-- A new value needs a new slot only if there are as many values as slots. -/
theorem Sound.size_insert (h : a.Sound) (x : α) :
    (a.insert x).2.slots.size = max a.slots.size (a.live + 1) := by
  have hsize := h.size_eq
  cases hf : a.free with
  | nil =>
      rw [hf, List.length_nil] at hsize
      simp only [Arena.insert, hf, Array.size_push]
      omega
  | cons i rest =>
      rw [hf, List.length_cons] at hsize
      simp only [Arena.insert, hf, Array.size_setIfInBounds]
      omega

end Retention.Arena
