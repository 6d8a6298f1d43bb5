/-
# Retention.Drain -- taking elements out one after the other

Heaps, selections and queues all give up their elements by the same rule: an operation takes out one
element and leaves a smaller collection, until there is nothing to take. Draining repeats the
operation as often as there are elements, which is as often as it can succeed.
-/

namespace Retention

universe u v

variable {α : Type u} {σ : Type v}

/-- The elements that `n` repetitions of an operation take out, fewer if it fails before, and the
state that they leave. -/
def takeOut (next? : σ → Option (α × σ)) : Nat → σ → List α × σ
  | 0, s => ([], s)
  | n + 1, s =>
    match next? s with
    | none => ([], s)
    | some (x, s) =>
      let rest := takeOut next? n s
      (x :: rest.1, rest.2)

theorem takeOut_of_none {next? : σ → Option (α × σ)} {s : σ} (n : Nat) (stops : next? s = none) :
    takeOut next? n s = ([], s) := by
  cases n with
  | zero => rfl
  | succ n => simp [takeOut, stops]

theorem takeOut_of_some {next? : σ → Option (α × σ)} {s rest : σ} {x : α} (n : Nat)
    (goesOn : next? s = some (x, rest)) :
    takeOut next? (n + 1) s = (x :: (takeOut next? n rest).1, (takeOut next? n rest).2) := by
  simp [takeOut, goesOn]

end Retention
