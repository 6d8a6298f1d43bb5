/-
# Retention.Proofs.Chain.Linked -- every operation keeps a chain in good order

A chain is `Linked` to its entries when the links run through them in both directions, their slots
are distinct, and the arena holds exactly their nodes. Each operation rewrites the links at one or
two seams. Writing the link at the inner end of a stretch changes only which slot the stretch ends
in, and nothing at the other end: that is `Front.setNext` and `Back.setPrev`, and every case of
first, last, only and adjacent nodes is one of theirs.
-/
import Retention.Proofs.Chain.Segment
import Mathlib.Data.List.Basic

namespace Retention.Chain

universe u

variable {α : Type u} {c : Chain α} {es fs : List (Slot × α)} {s : Slot} {x y : α}

/-! ## Rewriting one node -/

theorem get?_relink_self {p q prev next : Option Slot} (h : c.arena.get? s = some ⟨x, p, q⟩) :
    (c.relink s prev next).arena.get? s = some ⟨x, prev, next⟩ := by
  rw [relink, Arena.get?_modify_self, h]
  rfl

/-- The end of a stretch at the front can be made to name another slot. Nothing else changes: not
the back, nor a node outside the stretch. -/
theorem Front.setNext {old : Option Slot} (h : Front c old es) (hd : (slots es).Nodup)
    (new : Option Slot) :
    Front (c.setNext (lastSlot none es) new) new es ∧
      (c.setNext (lastSlot none es) new).tail = c.tail ∧
      ∀ t, t ∉ slots es → (c.setNext (lastSlot none es) new).arena.get? t = c.arena.get? t := by
  rcases List.eq_nil_or_concat' es with rfl | ⟨es, ⟨p, y⟩, rfl⟩
  · exact ⟨⟨trivial, rfl⟩, rfl, fun t _ => rfl⟩
  · -- Only the node of the last entry is written to, and its slot occurs nowhere else.
    obtain ⟨hes, hp, -⟩ := segment_append.mp h.segment
    have hheld : c.contains p = true := Arena.contains_iff.mpr ⟨_, hp⟩
    have hset : c.setNext (lastSlot none (es ++ [(p, y)])) new =
        { c with arena := c.arena.modify p fun n => { n with next := new } } := by
      rw [lastSlot_append]
      simp [Chain.setNext, lastSlot, Option.filter, hheld]
    have hpes : p ∉ slots es := by
      rw [slots_append, List.nodup_append] at hd
      exact fun hmem => hd.2.2 p hmem p List.mem_cons_self rfl
    rw [hset]
    refine ⟨⟨segment_append.mpr ⟨?_, ?_, trivial⟩, ?_⟩, rfl, ?_⟩
    · exact hes.modify hpes _
    · show (c.arena.modify p _).get? p = _
      rw [Arena.get?_modify_self, hp]
      rfl
    · rw [firstSlot_append]
      exact h.head_eq.trans (firstSlot_append old es [(p, y)])
    · intro t ht
      refine c.arena.get?_modify_of_ne _ ?_
      rintro rfl
      exact ht (by simp)

/-- The end of a stretch at the back can be made to name another slot. Nothing else changes: not
the front, nor a node outside the stretch. -/
theorem Back.setPrev {old : Option Slot} (h : Back c old es) (hd : (slots es).Nodup)
    (new : Option Slot) :
    Back (c.setPrev (firstSlot none es) new) new es ∧
      (c.setPrev (firstSlot none es) new).head = c.head ∧
      ∀ t, t ∉ slots es → (c.setPrev (firstSlot none es) new).arena.get? t = c.arena.get? t := by
  cases es with
  | nil => exact ⟨⟨trivial, rfl⟩, rfl, fun t _ => rfl⟩
  | cons e es =>
      obtain ⟨q, y⟩ := e
      obtain ⟨hq, hes⟩ := h.segment
      have hheld : c.contains q = true := Arena.contains_iff.mpr ⟨_, hq⟩
      have hset : c.setPrev (firstSlot none ((q, y) :: es)) new =
          { c with arena := c.arena.modify q fun n => { n with prev := new } } := by
        simp [Chain.setPrev, firstSlot, Option.filter, hheld]
      have hqes : q ∉ slots es := (List.nodup_cons.mp hd).1
      rw [hset]
      refine ⟨⟨⟨?_, ?_⟩, h.tail_eq⟩, rfl, ?_⟩
      · show (c.arena.modify q _).get? q = _
        rw [Arena.get?_modify_self, hq]
        rfl
      · exact hes.modify hqes _
      · intro t ht
        refine c.arena.get?_modify_of_ne _ ?_
        rintro rfl
        exact ht List.mem_cons_self

/-! ## Linking and unlinking -/

theorem Strung.linkFront {p q : Option Slot} (h : Strung c es) (hd : (slots es).Nodup)
    (hs : s ∉ slots es) (hx : c.arena.get? s = some ⟨x, p, q⟩) :
    Strung (c.linkFront s) ((s, x) :: es) := by
  have hback : Back (c.relink s none c.head) none es := h.2.modify hs _
  have hhead : c.head = firstSlot none es := h.1.head_eq
  obtain ⟨hback, -, hother⟩ := hback.setPrev hd (some s)
  rw [← hhead] at hback hother
  show Strung (c.linkFront s) ([] ++ (s, x) :: es)
  refine strung_append_cons.mpr ⟨⟨trivial, rfl⟩, ?_, hback.segment, hback.tail_eq⟩
  refine (hother s hs).trans ?_
  rw [get?_relink_self hx, hhead]
  rfl

theorem Strung.linkBack {p q : Option Slot} (h : Strung c es) (hd : (slots es).Nodup)
    (hs : s ∉ slots es) (hx : c.arena.get? s = some ⟨x, p, q⟩) :
    Strung (c.linkBack s) (es ++ [(s, x)]) := by
  have hfront : Front (c.relink s c.tail none) none es := h.1.modify hs _
  have htail : c.tail = lastSlot none es := h.2.tail_eq
  obtain ⟨hfront, -, hother⟩ := hfront.setNext hd (some s)
  rw [← htail] at hfront hother
  refine strung_append_cons.mpr ⟨⟨hfront.segment, hfront.head_eq⟩, ?_, trivial, rfl⟩
  refine (hother s hs).trans ?_
  rw [get?_relink_self hx, htail]
  rfl

/-- Distinct slots on both sides of an entry. -/
theorem nodup_split (hd : (slots (es ++ (s, x) :: fs)).Nodup) :
    (slots es).Nodup ∧ (slots fs).Nodup ∧ s ∉ slots es ∧ s ∉ slots fs ∧
      ∀ t ∈ slots es, t ∉ slots fs := by
  simp only [slots_append, slots_cons, List.nodup_append, List.nodup_cons, List.mem_cons] at hd
  obtain ⟨hes, ⟨hsfs, hfs⟩, hne⟩ := hd
  exact ⟨hes, hfs, fun hmem => hne s hmem s (Or.inl rfl) rfl, hsfs,
    fun t ht htfs => hne t ht t (Or.inr htfs) rfl⟩

/-- A node taken out of its place leaves the others strung together, and has no links. -/
theorem Strung.unlink? (h : Strung c (es ++ (s, x) :: fs))
    (hd : (slots (es ++ (s, x) :: fs)).Nodup) :
    ∃ d, c.unlink? s = some d ∧ Strung d (es ++ fs) ∧
      d.arena.get? s = some ⟨x, none, none⟩ := by
  obtain ⟨hes, hfs, hses, hsfs, hdisj⟩ := nodup_split hd
  obtain ⟨hfront, hx, hback⟩ := strung_append_cons.mp h
  -- First the stretch before the node learns what follows it, then the one behind what precedes.
  obtain ⟨hfront₁, htail₁, hother₁⟩ := hfront.setNext hes (firstSlot none fs)
  have hback₁ := hback.congr htail₁ fun t ht => hother₁ t fun hmem => hdisj t hmem ht
  obtain ⟨hback₂, hhead₂, hother₂⟩ := hback₁.setPrev hfs (lastSlot none es)
  have hfront₂ := hfront₁.congr hhead₂ fun t ht => hother₂ t (hdisj t ht)
  have hx₂ := (hother₂ s hsfs).trans ((hother₁ s hses).trans hx)
  refine ⟨_, by rw [Chain.unlink?, hx]; rfl, strung_append.mpr ⟨?_, ?_⟩, get?_relink_self hx₂⟩
  · exact hfront₂.modify hses _
  · exact hback₂.modify hsfs _

/-! ## Slots in use -/

/-- The same slots are in use in both chains, whatever the links say. -/
structure SameSlots (c d : Chain α) : Prop where
  contains_eq : ∀ t, d.contains t = c.contains t
  size_eq : d.size = c.size
  sound : c.arena.Sound → d.arena.Sound
  slots_size_eq : d.arena.slots.size = c.arena.slots.size

theorem SameSlots.trans {d e : Chain α} (h : SameSlots c d) (k : SameSlots d e) :
    SameSlots c e where
  contains_eq t := (k.contains_eq t).trans (h.contains_eq t)
  size_eq := k.size_eq.trans h.size_eq
  sound ha := k.sound (h.sound ha)
  slots_size_eq := k.slots_size_eq.trans h.slots_size_eq

theorem sameSlots_of_arena_eq {d : Chain α} (h : d.arena = c.arena) : SameSlots c d where
  contains_eq t := by rw [contains, contains, h]
  size_eq := by rw [size, size, h]
  sound ha := h ▸ ha
  slots_size_eq := by rw [h]

theorem sameSlots_of_modify {d : Chain α} {f : Node α → Node α}
    (h : d.arena = c.arena.modify s f) : SameSlots c d where
  contains_eq t := by rw [contains, contains, h, Arena.contains_modify]
  size_eq := by rw [size, size, h]; rfl
  sound ha := h ▸ ha.modify s f
  slots_size_eq := by rw [h]; exact Array.size_modify

theorem sameSlots_setNext (node next : Option Slot) : SameSlots c (c.setNext node next) := by
  unfold setNext
  split
  · exact sameSlots_of_modify rfl
  · exact sameSlots_of_arena_eq rfl

theorem sameSlots_setPrev (node prev : Option Slot) : SameSlots c (c.setPrev node prev) := by
  unfold setPrev
  split
  · exact sameSlots_of_modify rfl
  · exact sameSlots_of_arena_eq rfl

theorem sameSlots_relink (s : Slot) (prev next : Option Slot) :
    SameSlots c (c.relink s prev next) :=
  sameSlots_of_modify rfl

theorem sameSlots_linkFront (s : Slot) : SameSlots c (c.linkFront s) :=
  ((sameSlots_relink s none c.head).trans (sameSlots_setPrev c.head (some s))).trans
    (sameSlots_of_arena_eq rfl)

theorem sameSlots_linkBack (s : Slot) : SameSlots c (c.linkBack s) :=
  ((sameSlots_relink s c.tail none).trans (sameSlots_setNext c.tail (some s))).trans
    (sameSlots_of_arena_eq rfl)

theorem sameSlots_unlink? {d : Chain α} (h : c.unlink? s = some d) : SameSlots c d := by
  obtain ⟨node, -, rfl⟩ := Option.map_eq_some_iff.mp h
  exact ((sameSlots_setNext _ _).trans (sameSlots_setPrev _ _)).trans (sameSlots_relink _ _ _)

/-- The arena holds nodes in these slots, each once, and in no others. -/
structure Owns (c : Chain α) (ss : List Slot) : Prop where
  sound : c.arena.Sound
  nodup : ss.Nodup
  size_eq : c.size = ss.length
  contains_iff : ∀ t, c.contains t = true ↔ t ∈ ss

theorem SameSlots.owns {d : Chain α} {ss : List Slot} (h : SameSlots c d) (ho : Owns c ss) :
    Owns d ss where
  sound := h.sound ho.sound
  nodup := ho.nodup
  size_eq := h.size_eq.trans ho.size_eq
  contains_iff t := by rw [h.contains_eq t, ho.contains_iff t]

theorem Owns.perm {ss ts : List Slot} (h : Owns c ss) (hp : ss.Perm ts) : Owns c ts where
  sound := h.sound
  nodup := hp.nodup_iff.mp h.nodup
  size_eq := h.size_eq.trans hp.length_eq
  contains_iff t := (h.contains_iff t).trans hp.mem_iff

/-- The slots may as well be counted in the order of the entries when one comes last. -/
theorem Owns.concat (h : Owns c (s :: slots es)) : Owns c (slots (es ++ [(s, x)])) := by
  refine h.perm ?_
  rw [slots_append]
  exact (List.perm_append_singleton s (slots es)).symm

/-- A new node gets a slot that was not in use. -/
theorem Owns.insert {ss : List Slot} (h : Owns c ss) (node : Node α) :
    (c.arena.insert node).1 ∉ ss ∧
      Owns { c with arena := (c.arena.insert node).2 } ((c.arena.insert node).1 :: ss) := by
  have hs : (c.arena.insert node).1 ∉ ss := fun hmem => by
    obtain ⟨old, hold⟩ := Arena.contains_iff.mp ((h.contains_iff _).mpr hmem)
    rw [h.sound.get?_insert_fst node] at hold
    exact Option.some_ne_none old hold.symm
  refine ⟨hs, h.sound.insert node, List.nodup_cons.mpr ⟨hs, h.nodup⟩, ?_, fun t => ?_⟩
  · exact (c.arena.live_insert node).trans (congrArg (· + 1) h.size_eq)
  · rw [List.mem_cons, ← h.contains_iff t, contains, contains, Arena.contains, Arena.contains,
      h.sound.get?_insert]
    by_cases ht : t = (c.arena.insert node).1 <;> simp [ht]

/-- A node taken out of the arena takes its slot with it. -/
theorem Owns.remove? {ss : List Slot} {node : Node α} (h : Owns c (s :: ss))
    (hx : c.arena.get? s = some node) :
    ∃ b, c.arena.remove? s = some (node, b) ∧ Owns { c with arena := b } ss ∧
      ∀ t, t ≠ s → b.get? t = c.arena.get? t := by
  obtain ⟨b, hb, hsound, hlive, hget⟩ := h.sound.remove? hx
  obtain ⟨hs, hd⟩ := List.nodup_cons.mp h.nodup
  refine ⟨b, hb, ⟨hsound, hd, ?_, fun t => ?_⟩, fun t ht => by rw [hget, if_neg ht]⟩
  · have hsize : c.arena.live = ss.length + 1 := h.size_eq
    show b.live = ss.length
    omega
  · have hheld := h.contains_iff t
    rw [contains, Arena.contains, List.mem_cons] at hheld
    show (b.get? t).isSome = true ↔ t ∈ ss
    rw [hget]
    by_cases ht : t = s
    · subst ht
      simp [hs]
    · rw [if_neg ht, hheld]
      exact or_iff_right ht

/-! ## Chains in good order -/

/-- The chain consists of exactly these entries, from front to back. -/
structure Linked (c : Chain α) (es : List (Slot × α)) : Prop where
  strung : Strung c es
  owns : Owns c (slots es)

theorem linked_empty : Linked (empty : Chain α) [] where
  strung := ⟨⟨trivial, rfl⟩, ⟨trivial, rfl⟩⟩
  owns := ⟨Arena.sound_empty, List.nodup_nil, rfl, fun t => by
    simp [contains, Arena.contains, empty, Arena.get?]⟩

theorem Linked.insert (h : Linked c es) (x : α) :
    Strung { c with arena := (c.arena.insert { value := x }).2 } es ∧
      (c.arena.insert { value := x }).2.get? (c.arena.insert { value := x }).1 =
        some ⟨x, none, none⟩ := by
  obtain ⟨hs, -⟩ := h.owns.insert { value := x }
  have hget := h.owns.sound.get?_insert { value := x }
  -- The slot that is handed out occurs in no entry, and no other slot reads differently.
  have hother : ∀ t ∈ slots es,
      (c.arena.insert { value := x }).2.get? t = c.arena.get? t := by
    intro t ht
    rw [hget, if_neg]
    rintro rfl
    exact hs ht
  refine ⟨⟨h.strung.1.congr rfl hother, h.strung.2.congr rfl hother⟩, ?_⟩
  rw [hget, if_pos rfl]

theorem Linked.pushFront (h : Linked c es) (x : α) :
    (c.pushFront x).1 ∉ slots es ∧
      Linked (c.pushFront x).2 (((c.pushFront x).1, x) :: es) := by
  obtain ⟨hs, howns⟩ := h.owns.insert { value := x }
  obtain ⟨hstrung, hx⟩ := h.insert x
  exact ⟨hs, hstrung.linkFront h.owns.nodup hs hx, (sameSlots_linkFront _).owns howns⟩

theorem Linked.pushBack (h : Linked c es) (x : α) :
    (c.pushBack x).1 ∉ slots es ∧
      Linked (c.pushBack x).2 (es ++ [((c.pushBack x).1, x)]) := by
  obtain ⟨hs, howns⟩ := h.owns.insert { value := x }
  obtain ⟨hstrung, hx⟩ := h.insert x
  exact ⟨hs, hstrung.linkBack h.owns.nodup hs hx, (sameSlots_linkBack _).owns howns.concat⟩

/-- An entry can be taken out of its place, whatever that is: the others are strung together, and
its node stays in the arena without links. -/
theorem Linked.unlink? (h : Linked c (es ++ (s, x) :: fs)) :
    ∃ d, c.unlink? s = some d ∧ Strung d (es ++ fs) ∧ d.arena.get? s = some ⟨x, none, none⟩ ∧
      Owns d (s :: slots (es ++ fs)) := by
  obtain ⟨d, hd, hstrung, hx⟩ := h.strung.unlink? h.owns.nodup
  exact ⟨d, hd, hstrung, hx, ((sameSlots_unlink? hd).owns h.owns).perm (slots_perm es fs (s, x))⟩

/-- The element of an entry can be removed. -/
theorem Linked.remove? (h : Linked c (es ++ (s, x) :: fs)) :
    ∃ d, c.remove? s = some (x, d) ∧ Linked d (es ++ fs) := by
  obtain ⟨d, hd, hstrung, hx, howns⟩ := h.unlink?
  have hs : s ∉ slots (es ++ fs) := (List.nodup_cons.mp howns.nodup).1
  obtain ⟨b, hb, howns, hother⟩ := howns.remove? hx
  have hsame : ∀ t ∈ slots (es ++ fs), b.get? t = d.arena.get? t := by
    intro t ht
    refine hother t ?_
    rintro rfl
    exact hs ht
  refine ⟨{ d with arena := b }, ?_, ⟨?_, ?_⟩, howns⟩
  · simp [Chain.remove?, hd, hb]
  · exact hstrung.1.congr rfl hsame
  · exact hstrung.2.congr rfl hsame

/-- The element in the slot of an entry. -/
theorem Strung.get? (h : Strung c (es ++ (s, x) :: fs)) : c.get? s = some x := by
  obtain ⟨-, hx, -⟩ := strung_append_cons.mp h
  rw [Chain.get?, hx]
  rfl

theorem Linked.get? (h : Linked c (es ++ (s, x) :: fs)) : c.get? s = some x := h.strung.get?

theorem Linked.contains (h : Linked c (es ++ (s, x) :: fs)) : c.contains s = true :=
  (h.owns.contains_iff s).mpr (by simp)

theorem Linked.moveToFront? (h : Linked c (es ++ (s, x) :: fs)) :
    ∃ d, c.moveToFront? s = some d ∧ Linked d ((s, x) :: (es ++ fs)) := by
  obtain ⟨-, -, hses, hsfs, -⟩ := nodup_split h.owns.nodup
  rw [Chain.moveToFront?, if_pos h.contains]
  by_cases hhead : c.head = some s
  · -- The head names the slot of no other entry, so there is nothing before this one.
    rw [if_pos hhead]
    cases es with
    | nil => exact ⟨c, rfl, h⟩
    | cons e es =>
        have hfirst : some e.1 = some s := h.strung.1.head_eq.symm.trans hhead
        exact absurd (Option.some.inj hfirst ▸ List.mem_cons_self) hses
  · obtain ⟨d, hd, hstrung, hx, howns⟩ := h.unlink?
    obtain ⟨hs, hnodup⟩ := List.nodup_cons.mp howns.nodup
    rw [if_neg hhead, hd]
    exact ⟨_, rfl, hstrung.linkFront hnodup hs hx, (sameSlots_linkFront _).owns howns⟩

theorem Linked.moveToBack? (h : Linked c (es ++ (s, x) :: fs)) :
    ∃ d, c.moveToBack? s = some d ∧ Linked d (es ++ fs ++ [(s, x)]) := by
  obtain ⟨-, -, hses, hsfs, -⟩ := nodup_split h.owns.nodup
  rw [Chain.moveToBack?, if_pos h.contains]
  by_cases htail : c.tail = some s
  · -- Nor does the tail, so there is nothing behind it.
    rw [if_pos htail]
    rcases List.eq_nil_or_concat' fs with rfl | ⟨fs, e, rfl⟩
    · exact ⟨c, rfl, by rwa [List.append_nil]⟩
    · have hlast : c.tail = some e.1 := by
        rw [h.strung.2.tail_eq, lastSlot_append, ← List.cons_append, lastSlot_append]
        rfl
      have hes : e.1 = s := Option.some.inj (hlast.symm.trans htail)
      exact absurd (by simp [← hes]) hsfs
  · obtain ⟨d, hd, hstrung, hx, howns⟩ := h.unlink?
    obtain ⟨hs, hnodup⟩ := List.nodup_cons.mp howns.nodup
    rw [if_neg htail, hd]
    exact ⟨_, rfl, hstrung.linkBack hnodup hs hx, (sameSlots_linkBack _).owns howns.concat⟩

/-- Writing over an element leaves every other one, and the order, as they are. -/
theorem Linked.set? (h : Linked c (es ++ (s, x) :: fs)) (y : α) :
    ∃ d, c.set? s y = some d ∧ Linked d (es ++ (s, y) :: fs) := by
  obtain ⟨-, -, hses, hsfs, -⟩ := nodup_split h.owns.nodup
  obtain ⟨hfront, hx, hback⟩ := strung_append_cons.mp h.strung
  have hslots : slots (es ++ (s, y) :: fs) = slots (es ++ (s, x) :: fs) := by
    rw [slots_append, slots_append, slots_cons, slots_cons]
  rw [Chain.set?, if_pos h.contains]
  refine ⟨_, rfl, strung_append_cons.mpr ⟨?_, ?_, ?_⟩, ?_⟩
  · exact hfront.modify hses _
  · rw [Arena.get?_modify_self, hx]
    rfl
  · exact hback.modify hsfs _
  · rw [hslots]
    exact (sameSlots_of_modify rfl).owns h.owns

theorem Linked.clear (c : Chain α) : Linked c.clear [] := linked_empty

/-! ## The two ends -/

theorem Linked.popFront?_nil (h : Linked c []) : c.popFront? = none := by
  rw [popFront?, h.strung.1.head_eq]
  rfl

theorem Linked.popFront?_cons (h : Linked c ((s, x) :: es)) :
    ∃ d, c.popFront? = some (x, d) ∧ Linked d es := by
  rw [popFront?, h.strung.1.head_eq]
  have hsplit : Linked c ([] ++ (s, x) :: es) := h
  exact hsplit.remove?

theorem Linked.popBack?_nil (h : Linked c []) : c.popBack? = none := by
  rw [popBack?, h.strung.2.tail_eq]
  rfl

theorem Linked.popBack?_concat (h : Linked c (es ++ [(s, x)])) :
    ∃ d, c.popBack? = some (x, d) ∧ Linked d es := by
  obtain ⟨d, hd, hlinked⟩ := h.remove?
  rw [popBack?, h.strung.2.tail_eq, lastSlot_append]
  exact ⟨d, hd, by rwa [List.append_nil] at hlinked⟩

/-! ## Slots that are not in the chain -/

theorem remove?_eq_none (hs : c.contains s = false) : c.remove? s = none := by
  have hget : c.arena.get? s = none :=
    Option.isNone_iff_eq_none.mp (Option.isSome_eq_false_iff.mp hs)
  simp [Chain.remove?, unlink?, hget]

theorem moveToFront?_eq_none (hs : c.contains s = false) : c.moveToFront? s = none := by
  simp [Chain.moveToFront?, hs]

theorem moveToBack?_eq_none (hs : c.contains s = false) : c.moveToBack? s = none := by
  simp [Chain.moveToBack?, hs]

theorem set?_eq_none (hs : c.contains s = false) : c.set? s y = none := by
  simp [Chain.set?, hs]

end Retention.Chain
