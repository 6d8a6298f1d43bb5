/-
# Retention.Proofs.Chain.Segment -- what the links of a chain say

A chain with entries `es` looks the same from both ends. From the front: the head names the first
slot, and every node leads to its successor. From the back: the tail names the last slot, and every
node leads to its predecessor. `Front` and `Back` say this for a stretch of entries at one end, with
the slot that comes behind it, so a chain can be cut at any place and joined again. Cutting a node
out of the middle is then: take the stretch before it and the stretch behind it, and let each of
them name the other.
-/
import Retention.Chain.Basic
import Retention.Proofs.Arena

namespace Retention.Chain

universe u

variable {α : Type u}

/-! ## Stretches of entries -/

/-- The slots of some entries. -/
def slots (es : List (Slot × α)) : List Slot := es.map Prod.fst

/-- The first slot of some entries, or the one behind them. -/
def firstSlot (after : Option Slot) : List (Slot × α) → Option Slot
  | [] => after
  | e :: _ => some e.1

/-- The last slot of some entries, or the one before them. -/
def lastSlot (before : Option Slot) : List (Slot × α) → Option Slot
  | [] => before
  | e :: rest => lastSlot (some e.1) rest

@[simp] theorem slots_nil : slots ([] : List (Slot × α)) = [] := rfl

@[simp] theorem slots_cons (e : Slot × α) (es : List (Slot × α)) :
    slots (e :: es) = e.1 :: slots es := rfl

@[simp] theorem slots_append (es fs : List (Slot × α)) : slots (es ++ fs) = slots es ++ slots fs :=
  List.map_append

/-- The slot of an entry can be counted first, wherever the entry lies. -/
theorem slots_perm (es fs : List (Slot × α)) (e : Slot × α) :
    (slots (es ++ e :: fs)).Perm (e.1 :: slots (es ++ fs)) :=
  List.perm_middle.map Prod.fst

/-- An entry in a slot cuts the entries in two. -/
theorem exists_of_mem_slots {es : List (Slot × α)} {s : Slot} (hs : s ∈ slots es) :
    ∃ x fs gs, es = fs ++ (s, x) :: gs := by
  obtain ⟨⟨t, x⟩, hmem, rfl⟩ := List.mem_map.mp hs
  obtain ⟨fs, gs, rfl⟩ := List.append_of_mem hmem
  exact ⟨x, fs, gs, rfl⟩

theorem firstSlot_append (after : Option Slot) (es fs : List (Slot × α)) :
    firstSlot after (es ++ fs) = firstSlot (firstSlot after fs) es := by
  cases es <;> rfl

theorem lastSlot_append (before : Option Slot) (es fs : List (Slot × α)) :
    lastSlot before (es ++ fs) = lastSlot (lastSlot before es) fs := by
  induction es generalizing before with
  | nil => rfl
  | cons e es ih => exact ih (some e.1)

/-- The nodes of some entries name each other as neighbours, with `before` and `after` around
them. -/
def Segment (a : Arena (Node α)) (after : Option Slot) : Option Slot → List (Slot × α) → Prop
  | _, [] => True
  | before, (s, x) :: rest =>
    a.get? s = some ⟨x, before, firstSlot after rest⟩ ∧ Segment a after (some s) rest

theorem segment_append {a : Arena (Node α)} {before after : Option Slot}
    {es fs : List (Slot × α)} :
    Segment a after before (es ++ fs) ↔
      Segment a (firstSlot after fs) before es ∧ Segment a after (lastSlot before es) fs := by
  induction es generalizing before with
  | nil => simp [Segment, lastSlot]
  | cons e es ih =>
      obtain ⟨s, x⟩ := e
      simp only [List.cons_append, Segment, lastSlot, ih, firstSlot_append, and_assoc]

/-- A segment depends on the nodes of its own slots only. -/
theorem Segment.congr {a b : Arena (Node α)} {before after : Option Slot}
    {es : List (Slot × α)} (h : Segment a after before es)
    (hsame : ∀ t ∈ slots es, b.get? t = a.get? t) : Segment b after before es := by
  induction es generalizing before with
  | nil => trivial
  | cons e es ih =>
      obtain ⟨s, x⟩ := e
      refine ⟨(hsame s List.mem_cons_self).trans h.1, ih h.2 fun t ht => ?_⟩
      exact hsame t (List.mem_cons_of_mem s ht)

/-- Writing to a node outside a segment leaves the segment as it is. -/
theorem Segment.modify {a : Arena (Node α)} {before after : Option Slot} {es : List (Slot × α)}
    {s : Slot} (h : Segment a after before es) (hs : s ∉ slots es) (f : Node α → Node α) :
    Segment (a.modify s f) after before es := by
  refine h.congr fun t ht => a.get?_modify_of_ne f ?_
  rintro rfl
  exact hs ht

/-! ## The two ends -/

/-- The entries lie at the front, and `after` comes behind them. -/
structure Front (c : Chain α) (after : Option Slot) (es : List (Slot × α)) : Prop where
  segment : Segment c.arena after none es
  head_eq : c.head = firstSlot after es

/-- The entries lie at the back, and `before` comes before them. -/
structure Back (c : Chain α) (before : Option Slot) (es : List (Slot × α)) : Prop where
  segment : Segment c.arena none before es
  tail_eq : c.tail = lastSlot before es

theorem Front.congr {c d : Chain α} {after : Option Slot} {es : List (Slot × α)}
    (h : Front c after es) (hhead : d.head = c.head)
    (hsame : ∀ t ∈ slots es, d.arena.get? t = c.arena.get? t) : Front d after es :=
  ⟨h.segment.congr hsame, hhead.trans h.head_eq⟩

theorem Back.congr {c d : Chain α} {before : Option Slot} {es : List (Slot × α)}
    (h : Back c before es) (htail : d.tail = c.tail)
    (hsame : ∀ t ∈ slots es, d.arena.get? t = c.arena.get? t) : Back d before es :=
  ⟨h.segment.congr hsame, htail.trans h.tail_eq⟩

theorem Front.modify {c : Chain α} {after : Option Slot} {es : List (Slot × α)} {s : Slot}
    (h : Front c after es) (hs : s ∉ slots es) (f : Node α → Node α) :
    Front { c with arena := c.arena.modify s f } after es :=
  ⟨h.segment.modify hs f, h.head_eq⟩

theorem Back.modify {c : Chain α} {before : Option Slot} {es : List (Slot × α)} {s : Slot}
    (h : Back c before es) (hs : s ∉ slots es) (f : Node α → Node α) :
    Back { c with arena := c.arena.modify s f } before es :=
  ⟨h.segment.modify hs f, h.tail_eq⟩

/-- The entries are all that lies between the two ends. -/
def Strung (c : Chain α) (es : List (Slot × α)) : Prop := Front c none es ∧ Back c none es

/-- A chain cut before one of its entries. -/
theorem strung_append {c : Chain α} {es fs : List (Slot × α)} :
    Strung c (es ++ fs) ↔ Front c (firstSlot none fs) es ∧ Back c (lastSlot none es) fs := by
  constructor
  · rintro ⟨hf, hb⟩
    obtain ⟨hes, hfs⟩ := segment_append.mp hf.segment
    exact ⟨⟨hes, hf.head_eq.trans (firstSlot_append none es fs)⟩,
      ⟨hfs, hb.tail_eq.trans (lastSlot_append none es fs)⟩⟩
  · rintro ⟨hf, hb⟩
    have hseg : Segment c.arena none none (es ++ fs) :=
      segment_append.mpr ⟨hf.segment, hb.segment⟩
    exact ⟨⟨hseg, hf.head_eq.trans (firstSlot_append none es fs).symm⟩,
      ⟨hseg, hb.tail_eq.trans (lastSlot_append none es fs).symm⟩⟩

/-- A chain cut on both sides of one of its entries. -/
theorem strung_append_cons {c : Chain α} {es fs : List (Slot × α)} {s : Slot} {x : α} :
    Strung c (es ++ (s, x) :: fs) ↔
      Front c (some s) es ∧ c.arena.get? s = some ⟨x, lastSlot none es, firstSlot none fs⟩ ∧
        Back c (some s) fs := by
  rw [strung_append]
  constructor
  · rintro ⟨hf, hb⟩
    exact ⟨hf, hb.segment.1, hb.segment.2, hb.tail_eq⟩
  · rintro ⟨hf, hs, hb⟩
    exact ⟨hf, ⟨hs, hb.segment⟩, hb.tail_eq⟩

end Retention.Chain
