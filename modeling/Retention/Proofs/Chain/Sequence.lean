/-
# Retention.Proofs.Chain.Sequence -- a chain is a sequence of entries

What a chain does can be said without links: it is a sequence of entries, each a slot with an
element. `Effect` says what an operation does to such a sequence and what it answers, in particular
when it is handed a slot that does not occur; `Shows` says what is read off a chain with given
entries. The main result is that every chain reached by any run of operations shows its entries, and
that any further operation has exactly its effect on them.
-/
import Retention.Proofs.Chain.Reading
import Retention.Proofs.Run

namespace Retention.Chain

universe u

variable {α : Type u} {c : Chain α} {es : List (Slot × α)} {s : Slot}

/-! ## Operations -/

/-- The operations on a chain. A slot may be any slot whatever. Writing stands for every change that
an element can undergo in its place. -/
inductive Op (α : Type u) where
  | pushFront (x : α)
  | pushBack (x : α)
  | popFront
  | popBack
  | remove (s : Slot)
  | moveToFront (s : Slot)
  | moveToBack (s : Slot)
  | write (s : Slot) (x : α)
  | clear

/-- The slot that an operation is handed. -/
def Op.target? : Op α → Option Slot
  | remove s | moveToFront s | moveToBack s | write s _ => some s
  | _ => none

/-- What an operation answers. -/
inductive Answer (α : Type u) where
  | slot (s : Slot)
  | element (x : Option α)
  | flag (b : Bool)
  | done

/-- The answer to taking an element out. -/
def taken (c : Chain α) : Option (α × Chain α) → Step (Chain α) (Answer α)
  | some (x, d) => { state := d, result := .element (some x) }
  | none => { state := c, result := .element none }

/-- The answer to changing an entry. -/
def changed (c : Chain α) : Option (Chain α) → Step (Chain α) (Answer α)
  | some d => { state := d, result := .flag true }
  | none => { state := c, result := .flag false }

/-- One operation on a chain. -/
def perform (c : Chain α) : Op α → Step (Chain α) (Answer α)
  | .pushFront x => { state := (c.pushFront x).2, result := .slot (c.pushFront x).1 }
  | .pushBack x => { state := (c.pushBack x).2, result := .slot (c.pushBack x).1 }
  | .popFront => c.taken c.popFront?
  | .popBack => c.taken c.popBack?
  | .remove s => c.taken (c.remove? s)
  | .moveToFront s => c.changed (c.moveToFront? s)
  | .moveToBack s => c.changed (c.moveToBack? s)
  | .write s x => c.changed (c.set? s x)
  | .clear => { state := c.clear, result := .done }

/-! ## The sequence -/

/-- What an operation does to a sequence of entries, and what it answers. -/
inductive Effect : List (Slot × α) → Op α → Answer α → List (Slot × α) → Prop
  | pushFront {es : List (Slot × α)} {s : Slot} {x : α} (hs : s ∉ slots es) :
      Effect es (.pushFront x) (.slot s) ((s, x) :: es)
  | pushBack {es : List (Slot × α)} {s : Slot} {x : α} (hs : s ∉ slots es) :
      Effect es (.pushBack x) (.slot s) (es ++ [(s, x)])
  | popFront (s : Slot) (x : α) (es : List (Slot × α)) :
      Effect ((s, x) :: es) .popFront (.element (some x)) es
  | popFront_nil : Effect [] .popFront (.element none) []
  | popBack (s : Slot) (x : α) (es : List (Slot × α)) :
      Effect (es ++ [(s, x)]) .popBack (.element (some x)) es
  | popBack_nil : Effect [] .popBack (.element none) []
  | remove (s : Slot) (x : α) (es fs : List (Slot × α)) :
      Effect (es ++ (s, x) :: fs) (.remove s) (.element (some x)) (es ++ fs)
  | remove_absent {es : List (Slot × α)} {s : Slot} (hs : s ∉ slots es) :
      Effect es (.remove s) (.element none) es
  | moveToFront (s : Slot) (x : α) (es fs : List (Slot × α)) :
      Effect (es ++ (s, x) :: fs) (.moveToFront s) (.flag true) ((s, x) :: (es ++ fs))
  | moveToFront_absent {es : List (Slot × α)} {s : Slot} (hs : s ∉ slots es) :
      Effect es (.moveToFront s) (.flag false) es
  | moveToBack (s : Slot) (x : α) (es fs : List (Slot × α)) :
      Effect (es ++ (s, x) :: fs) (.moveToBack s) (.flag true) (es ++ fs ++ [(s, x)])
  | moveToBack_absent {es : List (Slot × α)} {s : Slot} (hs : s ∉ slots es) :
      Effect es (.moveToBack s) (.flag false) es
  | write (s : Slot) (x y : α) (es fs : List (Slot × α)) :
      Effect (es ++ (s, x) :: fs) (.write s y) (.flag true) (es ++ (s, y) :: fs)
  | write_absent {es : List (Slot × α)} {s : Slot} {x : α} (hs : s ∉ slots es) :
      Effect es (.write s x) (.flag false) es
  | clear (es : List (Slot × α)) : Effect es .clear .done []

/-- What is read off a chain with these entries. A walk that is allowed more steps than there are
entries ends by itself. -/
structure Shows (c : Chain α) (es : List (Slot × α)) : Prop where
  walk_next : ∀ n, es.length ≤ n → c.walk Node.next n c.head = es
  walk_prev : ∀ n, es.length ≤ n → c.walk Node.prev n c.tail = es.reverse
  toList_eq : c.toList = es.map Prod.snd
  toListRev_eq : c.toListRev = c.toList.reverse
  head_eq : c.head = es.head?.map Prod.fst
  tail_eq : c.tail = es.getLast?.map Prod.fst
  front?_eq : c.front? = es.head?.map Prod.snd
  back?_eq : c.back? = es.getLast?.map Prod.snd
  contains_iff : ∀ s, c.contains s = true ↔ s ∈ slots es
  get?_eq_some_iff : ∀ s x, c.get? s = some x ↔ (s, x) ∈ es
  size_eq : c.size = es.length
  audit_eq_ok : c.audit = .ok ()

theorem Linked.shows (h : Linked c es) : Shows c es where
  walk_next _ := h.walk_next
  walk_prev _ := h.walk_prev
  toList_eq := h.toList_eq
  toListRev_eq := h.toListRev_eq
  head_eq := h.head_eq
  tail_eq := h.tail_eq
  front?_eq := h.front?_eq
  back?_eq := h.back?_eq
  contains_iff := h.owns.contains_iff
  get?_eq_some_iff _ _ := h.get?_eq_some_iff
  size_eq := h.length_eq
  audit_eq_ok := h.audit_eq_ok

/-! ## Steps and runs -/

theorem Linked.contains_eq_false (h : Linked c es) (hs : s ∉ slots es) : c.contains s = false :=
  Bool.eq_false_iff.mpr fun hheld => hs ((h.owns.contains_iff s).mp hheld)

/-- An operation that is handed a slot which does not occur leaves everything as it is. -/
theorem Linked.perform_absent (h : Linked c es) {op : Op α} (hop : op.target? = some s)
    (hs : s ∉ slots es) : (c.perform op).state = c := by
  have hc := h.contains_eq_false hs
  cases op <;> cases hop
  · rw [perform, remove?_eq_none hc]
    rfl
  · rw [perform, moveToFront?_eq_none hc]
    rfl
  · rw [perform, moveToBack?_eq_none hc]
    rfl
  · rw [perform, set?_eq_none hc]
    rfl

/-- Every operation has its effect on the entries, and the chain stays in good order. -/
theorem Linked.perform (h : Linked c es) (op : Op α) :
    ∃ fs, Effect es op (c.perform op).result fs ∧ Linked (c.perform op).state fs := by
  cases op with
  | pushFront x =>
      obtain ⟨hs, hlinked⟩ := h.pushFront x
      exact ⟨_, .pushFront hs, hlinked⟩
  | pushBack x =>
      obtain ⟨hs, hlinked⟩ := h.pushBack x
      exact ⟨_, .pushBack hs, hlinked⟩
  | popFront =>
      cases es with
      | nil =>
          rw [Chain.perform, h.popFront?_nil]
          exact ⟨[], .popFront_nil, h⟩
      | cons e es =>
          obtain ⟨d, hd, hlinked⟩ := h.popFront?_cons
          rw [Chain.perform, hd]
          exact ⟨es, .popFront e.1 e.2 es, hlinked⟩
  | popBack =>
      rcases List.eq_nil_or_concat' es with rfl | ⟨es, e, rfl⟩
      · rw [Chain.perform, h.popBack?_nil]
        exact ⟨[], .popBack_nil, h⟩
      · obtain ⟨d, hd, hlinked⟩ := h.popBack?_concat
        rw [Chain.perform, hd]
        exact ⟨es, .popBack e.1 e.2 es, hlinked⟩
  | remove s =>
      by_cases hs : s ∈ slots es
      · obtain ⟨x, fs, gs, rfl⟩ := exists_of_mem_slots hs
        obtain ⟨d, hd, hlinked⟩ := h.remove?
        rw [Chain.perform, hd]
        exact ⟨_, .remove s x fs gs, hlinked⟩
      · rw [Chain.perform, remove?_eq_none (h.contains_eq_false hs)]
        exact ⟨es, .remove_absent hs, h⟩
  | moveToFront s =>
      by_cases hs : s ∈ slots es
      · obtain ⟨x, fs, gs, rfl⟩ := exists_of_mem_slots hs
        obtain ⟨d, hd, hlinked⟩ := h.moveToFront?
        rw [Chain.perform, hd]
        exact ⟨_, .moveToFront s x fs gs, hlinked⟩
      · rw [Chain.perform, moveToFront?_eq_none (h.contains_eq_false hs)]
        exact ⟨es, .moveToFront_absent hs, h⟩
  | moveToBack s =>
      by_cases hs : s ∈ slots es
      · obtain ⟨x, fs, gs, rfl⟩ := exists_of_mem_slots hs
        obtain ⟨d, hd, hlinked⟩ := h.moveToBack?
        rw [Chain.perform, hd]
        exact ⟨_, .moveToBack s x fs gs, hlinked⟩
      · rw [Chain.perform, moveToBack?_eq_none (h.contains_eq_false hs)]
        exact ⟨es, .moveToBack_absent hs, h⟩
  | write s y =>
      by_cases hs : s ∈ slots es
      · obtain ⟨x, fs, gs, rfl⟩ := exists_of_mem_slots hs
        obtain ⟨d, hd, hlinked⟩ := h.set? y
        rw [Chain.perform, hd]
        exact ⟨_, .write s x y fs gs, hlinked⟩
      · rw [Chain.perform, set?_eq_none (h.contains_eq_false hs)]
        exact ⟨es, .write_absent hs, h⟩
  | clear => exact ⟨[], .clear es, .clear c⟩

/-- The chain that a run of operations leaves, from the chain without elements. -/
def run (ops : List (Op α)) : Chain α := (Step.forEach perform empty ops).state

theorem linked_run (ops : List (Op α)) : Linked (run ops) (run ops).entries := by
  have hrun : ∃ es, Linked (run ops) es :=
    Step.forEach_induction (P := fun c => ∃ es, Linked c es)
      (fun _ op ⟨_, h⟩ => (h.perform op).imp fun _ hfs => hfs.2) ⟨[], linked_empty⟩ ops
  obtain ⟨es, h⟩ := hrun
  rwa [h.entries_eq]

/-- A chain is a sequence of entries with distinct slots. It starts without entries. After any run
of operations it shows its entries, and any further operation has its effect on them; one that is
handed a slot which does not occur changes nothing at all. -/
theorem run_acts_as_sequence :
    (empty : Chain α).entries = [] ∧
      ∀ ops : List (Op α),
        Shows (run ops) (run ops).entries ∧ (slots (run ops).entries).Nodup ∧
          ∀ op, Effect (run ops).entries op ((run ops).perform op).result
              ((run ops).perform op).state.entries ∧
            ∀ s, op.target? = some s → s ∉ slots (run ops).entries →
              ((run ops).perform op).state = run ops := by
  refine ⟨rfl, fun ops => ?_⟩
  have h := linked_run ops
  refine ⟨h.shows, h.owns.nodup, fun op => ⟨?_, fun s hop hs => h.perform_absent hop hs⟩⟩
  obtain ⟨fs, heffect, hlinked⟩ := h.perform op
  rwa [hlinked.entries_eq]

end Retention.Chain
