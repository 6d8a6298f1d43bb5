/-
# Retention.Proofs.Arena.Ledger -- every value keeps the slot it was given

An arena sees slots; those who use it see names that were handed out for values. `Ledger` is their
view: the values put in and not taken out since, each with the slot handed out for it, and the
positions that became free and were not used again, the one freed last in front. `Effect` says what
an operation does to a ledger and what it answers, also when it is handed a slot that is free,
foreign or out of range. Every run of operations follows these effects, and afterwards the arena
holds exactly the values of the ledger. So no two values share a slot, and a slot shows the value it
was handed out for, with all that was written over it, until the value is taken out.
-/
import Retention.Proofs.Arena
import Retention.Proofs.Run
import Mathlib.Data.List.Nodup

namespace Retention.Arena

universe u

variable {α : Type u} {a : Arena α} {s : Slot} {x : α}

/-! ## Operations -/

/-- The operations on an arena. A slot may be any slot whatever, and writing stands for every change
that a value can undergo in its place. -/
inductive Op (α : Type u) where
  | insert (x : α)
  | remove (s : Slot)
  | write (s : Slot) (f : α → α)
  | clear

/-- What an operation answers. -/
inductive Answer (α : Type u) where
  | slot (s : Slot)
  | element (x : Option α)
  | flag (b : Bool)
  | done

/-- One operation on an arena. -/
def perform (a : Arena α) : Op α → Step (Arena α) (Answer α)
  | .insert x => { state := (a.insert x).2, result := .slot (a.insert x).1 }
  | .remove s =>
    match a.remove? s with
    | some (x, b) => { state := b, result := .element (some x) }
    | none => { state := a, result := .element none }
  | .write s f => { state := a.modify s f, result := .flag (a.contains s) }
  | .clear => { state := a.clear, result := .done }

/-- The operation takes away the value in a slot, if there is one. -/
def Op.Releases (s : Slot) : Op α → Prop
  | .remove t => t = s
  | .clear => True
  | _ => False

/-- What the value in a slot becomes when the operation does not take it away. -/
def Op.overwrite (s : Slot) (x : α) : Op α → α
  | .write t f => if t = s then f x else x
  | _ => x

/-! ## What single operations change -/

theorem free_remove? {b : Arena α} (h : a.remove? s = some (x, b)) :
    b.free = s.index :: a.free ∧ b.slots.size = a.slots.size := by
  obtain ⟨y, -, hb⟩ := Option.map_eq_some_iff.mp h
  obtain ⟨-, rfl⟩ := Prod.mk.inj hb
  exact ⟨rfl, Array.size_setIfInBounds⟩

/-- Writing to a slot without a value changes nothing. -/
theorem modify_of_get?_eq_none (hs : a.get? s = none) (f : α → α) : a.modify s f = a := by
  have hslots : a.slots.modify s.index (Option.map f) = a.slots := by
    apply Array.ext_getElem?
    intro i
    rw [Array.getElem?_modify]
    split
    · next hi =>
      subst hi
      -- The slot is missing or holds nothing, and nothing is what is written back.
      rw [get?, Option.join_eq_none_iff] at hs
      rcases hs with hs | hs <;> rw [hs] <;> rfl
    · rfl
  rw [Arena.modify, hslots]

theorem perform_remove_of_get?_eq_none (hs : a.get? s = none) :
    a.perform (.remove s) = { state := a, result := .element none } := by
  rw [perform, remove?_eq_none_iff.mpr hs]

theorem Sound.perform (h : a.Sound) (op : Op α) : (a.perform op).state.Sound := by
  cases op with
  | insert x => exact h.insert x
  | remove s =>
      cases hs : a.get? s with
      | none =>
          rw [perform_remove_of_get?_eq_none hs]
          exact h
      | some x =>
          obtain ⟨b, hb, hsound, -⟩ := h.remove? hs
          rw [Arena.perform, hb]
          exact hsound
  | write s f => exact h.modify s f
  | clear => exact sound_empty

/-- An operation that does not take a value away leaves it in its slot, as it is written over. -/
theorem Sound.get?_perform (h : a.Sound) (hs : a.get? s = some x) {op : Op α}
    (hop : ¬ op.Releases s) : (a.perform op).state.get? s = some (op.overwrite s x) := by
  cases op with
  | insert y =>
      -- The slot handed out was empty, so it is another one.
      show (a.insert y).2.get? s = some x
      rw [h.get?_insert, if_neg, hs]
      rintro rfl
      rw [h.get?_insert_fst] at hs
      exact Option.some_ne_none x hs.symm
  | remove t =>
      have hst : s ≠ t := fun heq => hop heq.symm
      cases ht : a.get? t with
      | none =>
          rw [perform_remove_of_get?_eq_none ht]
          exact hs
      | some y =>
          obtain ⟨b, hb, -, -, hget⟩ := h.remove? ht
          rw [Arena.perform, hb]
          show b.get? s = some x
          rw [hget, if_neg hst, hs]
  | write t f =>
      show (a.modify t f).get? s = some (if t = s then f x else x)
      by_cases hts : t = s
      · subst hts
        rw [get?_modify_self, hs, if_pos rfl]
        rfl
      · rw [get?_modify_of_ne a f hts, hs, if_neg hts]
  | clear => exact absurd trivial hop

/-- A value stays in its slot through every run that does not take it away. -/
theorem Sound.get?_run (h : a.Sound) (hs : a.get? s = some x) (ops : List (Op α))
    (hops : ∀ op ∈ ops, ¬ op.Releases s) :
    (Step.forEach Arena.perform a ops).state.get? s = some (ops.foldl (Op.overwrite s) x) := by
  induction ops generalizing a x with
  | nil => exact hs
  | cons op ops ih =>
      obtain ⟨hop, hrest⟩ := List.forall_mem_cons.mp hops
      exact ih (h.perform op) (h.get?_perform hs hop) hrest

/-- No operation on the arena can confuse two values or miscount them. -/
structure Safe (a : Arena α) : Prop where
  free_lt_size : ∀ i ∈ a.free, i < a.slots.size
  insert_into_empty : ∀ x, a.get? (a.insert x).1 = none
  live_pos : ∀ s x, a.get? s = some x → 0 < a.live
  remove_absent : ∀ s, a.get? s = none →
    a.perform (.remove s) = { state := a, result := .element none }

theorem Sound.safe (h : a.Sound) : a.Safe where
  free_lt_size i hi := (h.getElem_free hi).1
  insert_into_empty x := h.get?_insert_fst x
  live_pos s x hs := by
    obtain ⟨b, -, -, hlive, -⟩ := h.remove? hs
    omega
  remove_absent s hs := perform_remove_of_get?_eq_none hs

/-! ## The ledger -/

/-- What those who use an arena know of it. -/
structure Ledger (α : Type u) where
  /-- The values put in and not taken out since, with the slots handed out for them. -/
  held : List (Slot × α) := []
  /-- The positions freed and not used again, the one freed last in front. -/
  freed : List Nat := []

/-- The slots of the values held. -/
def Ledger.slots (l : Ledger α) : List Slot := l.held.map Prod.fst

/-- What an operation does to a ledger, and what it answers. A value gets the slot freed last. Only
when none is free it gets a new one, behind those of all values held. -/
inductive Effect : Ledger α → Op α → Answer α → Ledger α → Prop
  | insert_freed (x : α) (held : List (Slot × α)) (i : Nat) (freed : List Nat) :
      Effect ⟨held, i :: freed⟩ (.insert x) (.slot ⟨i⟩) ⟨(⟨i⟩, x) :: held, freed⟩
  | insert_new (x : α) (held : List (Slot × α)) :
      Effect ⟨held, []⟩ (.insert x) (.slot ⟨held.length⟩) ⟨(⟨held.length⟩, x) :: held, []⟩
  | remove (s : Slot) (x : α) (es fs : List (Slot × α)) (freed : List Nat) :
      Effect ⟨es ++ (s, x) :: fs, freed⟩ (.remove s) (.element (some x))
        ⟨es ++ fs, s.index :: freed⟩
  | remove_absent {l : Ledger α} {s : Slot} (hs : s ∉ l.slots) :
      Effect l (.remove s) (.element none) l
  | write (s : Slot) (f : α → α) (x : α) (es fs : List (Slot × α)) (freed : List Nat) :
      Effect ⟨es ++ (s, x) :: fs, freed⟩ (.write s f) (.flag true) ⟨es ++ (s, f x) :: fs, freed⟩
  | write_absent {l : Ledger α} {s : Slot} {f : α → α} (hs : s ∉ l.slots) :
      Effect l (.write s f) (.flag false) l
  | clear (l : Ledger α) : Effect l .clear .done {}

/-- The arena holds what the ledger says: each value in a slot of its own, and no others. -/
structure Accounted (a : Arena α) (l : Ledger α) : Prop where
  sound : a.Sound
  free_eq : a.free = l.freed
  nodup : l.slots.Nodup
  get?_eq_some_iff : ∀ s x, a.get? s = some x ↔ (s, x) ∈ l.held
  live_eq : a.live = l.held.length
  size_eq : a.slots.size = l.held.length + l.freed.length

variable {l : Ledger α} {held es : List (Slot × α)} {freed : List Nat}

theorem accounted_empty : Accounted (empty : Arena α) {} where
  sound := sound_empty
  free_eq := rfl
  nodup := List.nodup_nil
  get?_eq_some_iff s x := by simp
  live_eq := rfl
  size_eq := rfl

/-- In which order the values held are listed does not matter. -/
theorem Accounted.perm (h : Accounted a ⟨held, freed⟩) (hp : held.Perm es) :
    Accounted a ⟨es, freed⟩ where
  sound := h.sound
  free_eq := h.free_eq
  nodup := (hp.map Prod.fst).nodup_iff.mp h.nodup
  get?_eq_some_iff s x := (h.get?_eq_some_iff s x).trans hp.mem_iff
  live_eq := h.live_eq.trans hp.length_eq
  size_eq := h.size_eq.trans (congrArg (· + freed.length) hp.length_eq)

theorem Accounted.get?_eq_none_iff (h : Accounted a l) : a.get? s = none ↔ s ∉ l.slots := by
  constructor
  · intro hs hmem
    obtain ⟨⟨t, x⟩, he, rfl⟩ := List.mem_map.mp hmem
    rw [(h.get?_eq_some_iff t x).mpr he] at hs
    exact Option.some_ne_none x hs
  · intro hs
    refine Option.eq_none_iff_forall_ne_some.mpr fun x hx => hs ?_
    exact List.mem_map_of_mem ((h.get?_eq_some_iff s x).mp hx)

theorem not_mem_of_slot (hs : s ∉ held.map Prod.fst) (y : α) : (s, y) ∉ held :=
  fun hmem => hs (List.mem_map.mpr ⟨(s, y), hmem, rfl⟩)

/-- A slot that occurs in front occurs there only. -/
theorem mem_cons_iff {t : Slot} {y : α} (hs : s ∉ held.map Prod.fst) :
    (t, y) ∈ (s, x) :: held ↔ if t = s then x = y else (t, y) ∈ held := by
  rw [List.mem_cons, Prod.mk.injEq]
  split
  · next ht =>
    subst ht
    rw [or_iff_left (not_mem_of_slot hs y), and_iff_right rfl, eq_comm]
  · next ht => exact or_iff_right fun heq => ht heq.1

/-- A slot of the ledger cuts the values held in two. -/
theorem Ledger.exists_of_mem_slots (hs : s ∈ l.slots) :
    ∃ x es fs, l = ⟨es ++ (s, x) :: fs, l.freed⟩ := by
  obtain ⟨held, freed⟩ := l
  obtain ⟨⟨t, x⟩, hmem, rfl⟩ := List.mem_map.mp hs
  obtain ⟨es, fs, rfl⟩ := List.append_of_mem hmem
  exact ⟨x, es, fs, rfl⟩

/-! ## Steps and runs -/

/-- A new value is listed under the slot that it got. -/
theorem Accounted.insert_of (h : Accounted a l) (hfree : (a.insert x).2.free = freed)
    (hsize : (a.insert x).2.slots.size = l.held.length + 1 + freed.length) :
    Accounted (a.insert x).2 ⟨((a.insert x).1, x) :: l.held, freed⟩ := by
  have hs : (a.insert x).1 ∉ l.slots := h.get?_eq_none_iff.mp (h.sound.get?_insert_fst x)
  refine ⟨h.sound.insert x, hfree, List.nodup_cons.mpr ⟨hs, h.nodup⟩, fun t y => ?_, ?_, hsize⟩
  · rw [h.sound.get?_insert, mem_cons_iff hs]
    split
    · exact Option.some_inj
    · exact h.get?_eq_some_iff t y
  · rw [live_insert, h.live_eq]
    rfl

theorem Accounted.insert (h : Accounted a l) (x : α) :
    ∃ m, Effect l (.insert x) (.slot (a.insert x).1) m ∧ Accounted (a.insert x).2 m := by
  obtain ⟨held, freed⟩ := l
  have hsize := h.size_eq
  cases freed with
  | nil =>
      have hfree : a.free = [] := h.free_eq
      have hfst : (a.insert x).1 = ⟨held.length⟩ := by
        rw [Arena.insert, hfree]
        exact congrArg Slot.mk hsize
      have hstill : (a.insert x).2.free = [] := by simp [Arena.insert, hfree]
      have hgrown : (a.insert x).2.slots.size = held.length + 1 + 0 := by
        simp [Arena.insert, hfree, hsize]
      have hnext := h.insert_of hstill hgrown
      rw [hfst] at hnext ⊢
      exact ⟨_, .insert_new x held, hnext⟩
  | cons i freed =>
      have hfree : a.free = i :: freed := h.free_eq
      have hfst : (a.insert x).1 = ⟨i⟩ := by rw [Arena.insert, hfree]
      have hrest : (a.insert x).2.free = freed := by simp [Arena.insert, hfree]
      have hsame : (a.insert x).2.slots.size = held.length + 1 + freed.length := by
        simp only [List.length_cons] at hsize
        simp only [Arena.insert, hfree, Array.size_setIfInBounds]
        omega
      have hnext := h.insert_of hrest hsame
      rw [hfst] at hnext ⊢
      exact ⟨_, .insert_freed x held i freed, hnext⟩

/-- A value taken out is listed no more, and its slot is the one freed last. -/
theorem Accounted.remove? (h : Accounted a ⟨(s, x) :: held, freed⟩) :
    ∃ b, a.remove? s = some (x, b) ∧ Accounted b ⟨held, s.index :: freed⟩ := by
  obtain ⟨b, hb, hsound, hlive, hget⟩ :=
    h.sound.remove? ((h.get?_eq_some_iff s x).mpr List.mem_cons_self)
  obtain ⟨hfree, hslots⟩ := free_remove? hb
  obtain ⟨hs, hnodup⟩ := List.nodup_cons.mp h.nodup
  have hlisted := h.live_eq
  have hsize := h.size_eq
  simp only [List.length_cons] at hlisted hsize
  refine ⟨b, hb, hsound, hfree.trans (congrArg _ h.free_eq), hnodup, fun t y => ?_, ?_, ?_⟩
  · have hlist := h.get?_eq_some_iff t y
    rw [mem_cons_iff hs] at hlist
    rw [hget]
    split
    · next ht =>
      subst ht
      simp [not_mem_of_slot hs y]
    · next ht => rwa [if_neg ht] at hlist
  · show b.live = held.length
    omega
  · simp only [List.length_cons]
    omega

/-- A value written over is listed as it is now. -/
theorem Accounted.modify (h : Accounted a ⟨(s, x) :: held, freed⟩) (f : α → α) :
    Accounted (a.modify s f) ⟨(s, f x) :: held, freed⟩ := by
  have hx : a.get? s = some x := (h.get?_eq_some_iff s x).mpr List.mem_cons_self
  have hs : s ∉ held.map Prod.fst := (List.nodup_cons.mp h.nodup).1
  refine ⟨h.sound.modify s f, h.free_eq, h.nodup, fun t y => ?_, h.live_eq, ?_⟩
  · rw [mem_cons_iff hs]
    split
    · next ht =>
      subst ht
      rw [get?_modify_self, hx]
      exact Option.some_inj
    · next ht =>
      rw [get?_modify_of_ne a f (Ne.symm ht), h.get?_eq_some_iff, mem_cons_iff hs, if_neg ht]
  · exact Array.size_modify.trans h.size_eq

/-- Every operation has its effect on the ledger. -/
theorem Accounted.perform (h : Accounted a l) (op : Op α) :
    ∃ m, Effect l op (a.perform op).result m ∧ Accounted (a.perform op).state m := by
  cases op with
  | insert x => exact h.insert x
  | remove s =>
      by_cases hs : s ∈ l.slots
      · obtain ⟨x, es, fs, hl⟩ := Ledger.exists_of_mem_slots hs
        rw [hl] at h ⊢
        obtain ⟨b, hb, hnext⟩ := (h.perm List.perm_middle).remove?
        rw [Arena.perform, hb]
        exact ⟨_, .remove s x es fs l.freed, hnext⟩
      · rw [perform_remove_of_get?_eq_none (h.get?_eq_none_iff.mpr hs)]
        exact ⟨l, .remove_absent hs, h⟩
  | write s f =>
      by_cases hs : s ∈ l.slots
      · obtain ⟨x, es, fs, hl⟩ := Ledger.exists_of_mem_slots hs
        rw [hl] at h ⊢
        have hheld : a.contains s = true :=
          contains_iff.mpr ⟨x, (h.get?_eq_some_iff s x).mpr (by simp)⟩
        have hnext := (h.perm List.perm_middle).modify f
        rw [Arena.perform, hheld]
        exact ⟨_, .write s f x es fs l.freed, hnext.perm List.perm_middle.symm⟩
      · have hnone := h.get?_eq_none_iff.mpr hs
        rw [Arena.perform, modify_of_get?_eq_none hnone, contains, hnone]
        exact ⟨l, .write_absent hs, h⟩
  | clear => exact ⟨{}, .clear l, accounted_empty⟩

/-- Every run of operations on an arena follows the effects on a ledger, and afterwards the arena
holds what the ledger says: each value in a slot of its own, with exactly the empty slots on the
free list, each once. No operation can confuse two values then. A value that is inserted stays in
the slot handed out for it, as it is written over, through every further run that does not take it
away. -/
theorem run_keeps_slots_apart (ops : List (Op α)) :
    let a := (Step.forEach perform empty ops).state
    (∃ l : Ledger α,
      Step.Follows Effect {} (Step.transcript perform empty ops) l ∧ Accounted a l) ∧
      a.Safe ∧
      ∀ (x : α) (later : List (Op α)), (∀ op ∈ later, ¬ op.Releases (a.insert x).1) →
        (Step.forEach perform (a.insert x).2 later).state.get? (a.insert x).1 =
          some (later.foldl (Op.overwrite (a.insert x).1) x) := by
  obtain ⟨l, hfollows, haccounted⟩ :=
    Step.forEach_follows (fun _ _ op h => h.perform op) (accounted_empty (α := α)) ops
  refine ⟨⟨l, hfollows, haccounted⟩, haccounted.sound.safe, fun x later hlater => ?_⟩
  refine (haccounted.sound.insert x).get?_run ?_ later hlater
  rw [haccounted.sound.get?_insert, if_pos rfl]

/-- Slots 0 and 1 become free in this order; taking a value out of slot 0 again, or out of slot 7,
changes nothing. Slot 1 is used again first, and it shows its value, as it is written over, whatever
else is taken out and put in. -/
theorem run_keeps_slots_apart_reused :
    let ops : List (Op Nat) := [.insert 10, .insert 20, .insert 30, .remove ⟨0⟩, .remove ⟨0⟩,
      .remove ⟨7⟩, .remove ⟨1⟩]
    let later : List (Op Nat) :=
      [.write ⟨1⟩ (· + 1), .insert 50, .remove ⟨2⟩, .insert 60, .insert 70]
    let a := (Step.forEach perform empty ops).state
    let b := (Step.forEach perform (a.insert 40).2 later).state
    a.free = [1, 0] ∧ (a.insert 40).1 = ⟨1⟩ ∧ b.get? ⟨1⟩ = some 41 ∧
      b.slots = #[some 50, some 41, some 60, some 70] := by
  refine ⟨rfl, rfl, ?_, rfl⟩
  obtain ⟨-, -, hkeeps⟩ := run_keeps_slots_apart [Op.insert 10, .insert 20, .insert 30, .remove ⟨0⟩,
    .remove ⟨0⟩, .remove ⟨7⟩, .remove ⟨1⟩]
  refine hkeeps 40 [.write ⟨1⟩ (· + 1), .insert 50, .remove ⟨2⟩, .insert 60, .insert 70] ?_
  show ∀ op ∈ _, ¬ Op.Releases ⟨1⟩ op
  simp [Op.Releases]

end Retention.Arena
