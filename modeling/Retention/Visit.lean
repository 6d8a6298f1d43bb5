/-
# Retention.Visit -- showing elements to a visitor until it declines

A visitor sees elements one at a time and may remember what it has seen: it is a function from its
memory and the next element to its new memory and whether it wants to go on. The element at which
it declines has been seen; the ones after it have not.
-/

namespace Retention

universe u v

variable {α : Type u} {σ : Type v}

/-- The visitor's memory after it was shown the elements in order until it declined one. -/
def visit (visitor : σ → α → σ × Bool) (memory : σ) : List α → σ
  | [] => memory
  | x :: rest =>
    let (memory, goesOn) := visitor memory x
    if goesOn then visit visitor memory rest else memory

theorem visit_cons (visitor : σ → α → σ × Bool) (memory : σ) (x : α) (rest : List α) :
    visit visitor memory (x :: rest) =
      if (visitor memory x).2 then visit visitor (visitor memory x).1 rest
      else (visitor memory x).1 := rfl

end Retention
