/-
# Retention.Text.Layout -- showing a value on one line

Every collection can be shown with all it holds, for a log or a failed test. The layout is the same
everywhere: a record is its name and its fields between braces, a variant is its name and its
contents between parentheses, a sequence stands between brackets, and a comma with a blank divides
the parts. `Inspect` is the class of the values that have such a text.
-/
import Retention.Text.Quoted

namespace Retention

universe u

/-! ## Layouts -/

namespace Text

/-- The parts divided by a comma and a blank. -/
def divided (parts : List String) : String :=
  ", ".intercalate parts

/-- A sequence: its parts between brackets. -/
def sequence (parts : List String) : String :=
  "[" ++ divided parts ++ "]"

/-- An unordered group: its parts between braces. -/
def group (parts : List String) : String :=
  "\x7b" ++ divided parts ++ "\x7d"

/-- A variant: its name, then its contents between parentheses. -/
def variantOf (name contents : String) : String :=
  name ++ "(" ++ contents ++ ")"

/-- One field of a record. -/
def field (name value : String) : String :=
  name ++ ": " ++ value

/-- A record: its name, then all its fields between braces. -/
def record (name : String) (fields : List String) : String :=
  name ++ " \x7b " ++ divided fields ++ " \x7d"

/-- A record that keeps some fields to itself, which two dots stand for. -/
def partialRecord (name : String) (fields : List String) : String :=
  record name (fields ++ [".."])

end Text

/-! ## Values with a text -/

/-- The values that can be shown on one line. -/
class Inspect (α : Type u) where
  /-- The text of a value. -/
  inspect : α → String

export Inspect (inspect)

instance : Inspect Nat := ⟨fun n => toString n⟩

instance : Inspect Int := ⟨fun n => toString n⟩

instance : Inspect String := ⟨Text.quote⟩

instance {α : Type u} [Inspect α] : Inspect (List α) :=
  ⟨fun xs => Text.sequence (xs.map inspect)⟩

instance {α : Type u} [Inspect α] : Inspect (Array α) :=
  ⟨fun xs => inspect xs.toList⟩

instance {α : Type u} [Inspect α] : Inspect (Option α) where
  inspect
    | none => "None"
    | some x => Text.variantOf "Some" (inspect x)

end Retention
