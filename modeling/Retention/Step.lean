/-
# Retention.Step -- one operation on a collection, with what it reports

Operations that may throw something away return a `Step`: the collection afterwards, the result for
the caller, and the diagnostics raised on the way, oldest first. Because a step is a plain value, a
run of many operations is a fold over a list, and what a run reports is the concatenation of what
its steps report.
-/
import Retention.Diagnostic

namespace Retention

universe u v w x

/-- What one operation leaves behind: a state, a result and the diagnostics it raised. -/
structure Step (σ : Type u) (ρ : Type v) where
  /-- The state after the operation. -/
  state : σ
  /-- What the operation hands to its caller. -/
  result : ρ
  /-- The diagnostics that the operation raised, oldest first. -/
  events : List Diagnostic := []

namespace Step

variable {σ : Type u} {τ : Type w} {ρ : Type v} {π : Type x}

/-- The same operation with another reading of its result. -/
def map (f : ρ → π) (s : Step σ ρ) : Step σ π :=
  { state := s.state, result := f s.result, events := s.events }

/-- The same operation seen as one on a larger state. -/
def lift (f : σ → τ) (s : Step σ ρ) : Step τ ρ :=
  { state := f s.state, result := s.result, events := s.events }

/-- An operation for each element in turn, with the results in the same order. -/
def forEach {α : Type w} (op : σ → α → Step σ ρ) (state : σ) : List α → Step σ (List ρ)
  | [] => { state, result := [] }
  | a :: rest =>
    let first := op state a
    let others := forEach op first.state rest
    { state := others.state
      result := first.result :: others.result
      events := first.events ++ others.events }

@[simp] theorem forEach_nil {α : Type w} (op : σ → α → Step σ ρ) (state : σ) :
    forEach op state [] = { state, result := [] } := rfl

theorem length_result_forEach {α : Type w} (op : σ → α → Step σ ρ) (state : σ) (as : List α) :
    (forEach op state as).result.length = as.length := by
  induction as generalizing state with
  | nil => rfl
  | cons a rest ih => simp [forEach, ih]

end Step

end Retention
