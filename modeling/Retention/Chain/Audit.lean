/-
# Retention.Chain.Audit -- are the links of a chain in good order?

A chain is in good order when the walk from the front meets every node once and ends at the back,
and every node points back to the one met before it. The audit makes that walk and names the first
thing wrong. It counts the nodes still to be met, so a walk that meets more nodes than there are is
found to be a circle, and the audit ends on any links whatever.
-/
import Retention.Error
import Retention.Chain.Basic

namespace Retention.Chain

universe u

variable {α : Type u}

/-- Audits the rest of a walk that came from `last` and stands at `here`, with `left` nodes still
to be met. -/
def auditFrom (c : Chain α) (left : Nat) (last here : Option Slot) : Except Violation Unit :=
  match here with
  | none =>
    if last ≠ c.tail then .error .strayTail
    else if left ≠ 0 then .error (.nodesUnreached (c.size - left) c.size)
    else .ok ()
  | some s =>
    match c.arena.get? s with
    | none => .error (.danglingLink s.index)
    | some node =>
      if node.prev ≠ last then .error (.stalePrevious s.index)
      else
        match left with
        | 0 => .error .cycle
        | left + 1 => auditFrom c left (some s) node.next

/-- The links are in good order, or the first thing wrong on a walk from the front. -/
def audit (c : Chain α) : Except Violation Unit :=
  match c.head, c.tail with
  | some _, some _ => c.auditFrom c.size none c.head
  | none, none => if c.isEmpty then .ok () else .error .endsDisagree
  | _, _ => .error .endsDisagree

/-- Raises the alarm when the audit fails. -/
def guard (c : Chain α) : Except Alarm Unit :=
  c.audit.mapError (.violated .chain)

end Retention.Chain
