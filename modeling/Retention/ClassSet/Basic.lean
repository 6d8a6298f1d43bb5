/-
# Retention.ClassSet.Basic -- one element of each class

Elements may be told apart by more than their equality `==` looks at, so `==` divides them into
classes. A set holds at most one element of each class, its representative there: adding an element
whose class is present changes nothing, and the element added first stays. Which classes a set has
decides all questions about it; which representatives it holds shows only when they are read.

The representatives are kept in the order in which they were added, and that no two are equal is
part of the type.
-/
import Retention.Text.Layout
import Retention.Visit

namespace Retention

universe u v

/-- At most one element of each class of equal elements. -/
structure ClassSet (α : Type u) [BEq α] where
  /-- The representatives, in the order in which they were added. -/
  items : List α := []
  /-- No two representatives are equal. -/
  distinct : items.Pairwise (fun x y => (x == y) = false) := by exact List.Pairwise.nil

namespace ClassSet

variable {α : Type u} [BEq α]

/-! ## Asking -/

/-- The set without elements. -/
def empty : ClassSet α := {}

/-- The number of elements. -/
def size (s : ClassSet α) : Nat := s.items.length

/-- There is no element. -/
def isEmpty (s : ClassSet α) : Bool := s.items.isEmpty

/-- Whether an element equal to `x` is present. -/
def contains (s : ClassSet α) (x : α) : Bool := s.items.any (· == x)

/-- Whether something is asked for and all of it is present. -/
def hasAll (s : ClassSet α) (xs : List α) : Bool := !xs.isEmpty && xs.all s.contains

/-- Whether some of what is asked for is present. -/
def hasAny (s : ClassSet α) (xs : List α) : Bool := xs.any s.contains

/-- Some element, if there is one. -/
def any? (s : ClassSet α) : Option α := s.items.head?

/-- Shows the elements to a visitor until it declines one. -/
def visit {σ : Type v} (visitor : σ → α → σ × Bool) (memory : σ) (s : ClassSet α) : σ :=
  Retention.visit visitor memory s.items

/-! ## Changing -/

/-- The set with `x`, unless an equal element is present. -/
def insert (s : ClassSet α) (x : α) : ClassSet α :=
  if present : s.contains x then s
  else
    { items := s.items ++ [x]
      distinct := by
        simp only [contains, List.any_eq_true, not_exists, not_and, Bool.not_eq_true] at present
        exact List.pairwise_append.2 ⟨s.distinct, List.pairwise_singleton _ _,
          fun y hy z hz => by simpa [List.mem_singleton.1 hz] using present y hy⟩ }

/-- The elements that pass a test. -/
def filter (s : ClassSet α) (keep : α → Bool) : ClassSet α where
  items := s.items.filter keep
  distinct := s.distinct.filter keep

/-- The set without the element equal to `x`. -/
def erase (s : ClassSet α) (x : α) : ClassSet α := s.filter fun y => !(y == x)

/-- Whether an element equal to `x` is present, and the set with `x` inserted. -/
def containsThenInsert (s : ClassSet α) (x : α) : Bool × ClassSet α := (s.contains x, s.insert x)

/-- Whether an element equal to `x` is present, and the set with it erased. -/
def containsThenErase (s : ClassSet α) (x : α) : Bool × ClassSet α := (s.contains x, s.erase x)

/-- Each element inserted in turn. -/
def insertMany (s : ClassSet α) (xs : List α) : ClassSet α := xs.foldl insert s

/-- Each element erased in turn. -/
def eraseMany (s : ClassSet α) (xs : List α) : ClassSet α := xs.foldl erase s

/-- The set of the elements of a list; of equal ones the first. -/
def ofList (xs : List α) : ClassSet α := empty.insertMany xs

/-- The set with the elements of another one inserted. -/
def merge (s t : ClassSet α) : ClassSet α := s.insertMany t.items

/-- The set without the elements that another one has. -/
def without (s t : ClassSet α) : ClassSet α := s.filter fun x => !t.contains x

/-! ## Comparing -/

/-- Every element has an equal one in the other set. More elements than that has rule it out. -/
def isSubset (s t : ClassSet α) : Bool := s.size ≤ t.size && s.items.all t.contains

/-- Every element of the other set has an equal one here. -/
def isSuperset (s t : ClassSet α) : Bool := t.isSubset s

/-- Both sets have the same classes: they have equally many, and one has those of the other. -/
def isEqual (s t : ClassSet α) : Bool := s.size == t.size && s.isSubset t

instance : BEq (ClassSet α) := ⟨isEqual⟩

instance [Inspect α] : Inspect (ClassSet α) :=
  ⟨fun s => Text.group (s.items.map inspect)⟩

/-- The elements between brackets, each in its plain text. -/
instance [ToString α] : ToString (ClassSet α) :=
  ⟨fun s => Text.sequence (s.items.map toString)⟩

/-! ## Small laws -/

@[ext]
theorem ext {s t : ClassSet α} (h : s.items = t.items) : s = t := by
  cases s
  cases t
  cases h
  rfl

theorem contains_iff {s : ClassSet α} {x : α} :
    s.contains x = true ↔ ∃ y ∈ s.items, (y == x) = true := by
  simp [contains]

@[simp] theorem items_filter (s : ClassSet α) (keep : α → Bool) :
    (s.filter keep).items = s.items.filter keep := rfl

theorem items_insert (s : ClassSet α) (x : α) :
    (s.insert x).items = if s.contains x then s.items else s.items ++ [x] := by
  unfold insert
  split <;> simp_all

end ClassSet

end Retention
