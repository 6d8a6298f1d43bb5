/-
# Retention.Settings -- one configuration for every collection

A configuration names a capacity, and the window after which values are stale if one was chosen. It
can be used any number of times, for any of the bounded collections. A collection that cannot be set
up as configured is refused with its cause, and the refusal is also reported as a diagnostic.
-/
import Retention.Batcher.Timed
import Retention.Cache.Basic
import Retention.Queue
import Retention.Selection

namespace Retention

universe u v

/-- An attempt to set up a collection, with what it reported. -/
structure Attempt (γ : Type u) where
  /-- The collection, or why there is none. -/
  outcome : Except SetupError γ
  /-- The diagnostics raised on the way. -/
  events : List Diagnostic := []

/-- Reports the cause if there is no collection. -/
def Attempt.reporting {γ : Type u} (outcome : Except SetupError γ) : Attempt γ :=
  match outcome with
  | .ok collection => { outcome := .ok collection }
  | .error cause => { outcome := .error cause, events := [.configurationRejected cause] }

/-- One configuration for every collection. -/
structure Settings where
  /-- How many elements a collection holds at most. -/
  capacity : Nat
  /-- How old a value may grow, if that was chosen. -/
  window : Option Duration := none
deriving DecidableEq, Repr

namespace Settings

/-- The settings with another window. -/
def withWindow (s : Settings) (window : Duration) : Settings := { s with window := some window }

/-- A selection of the greatest elements. -/
def selection {α : Type u} (s : Settings) : Attempt (Selection α) :=
  .reporting (Selection.create s.capacity)

/-- A cache ordered by recency. -/
def cache {κ : Type u} {α : Type v} [BEq κ] [Hashable κ] (s : Settings) : Attempt (Cache κ α) :=
  .reporting (Cache.create s.capacity)

/-- A queue, which needs no room. -/
def queue {α : Type u} (s : Settings) : Queue α := Queue.create s.capacity

/-- A batcher. That a window was chosen is asked before anything else. -/
def batcher {α : Type u} (s : Settings) : Attempt (Batcher α) :=
  .reporting <|
    match s.window with
    | none => .error .missingExpiry
    | some window => Batcher.create s.capacity window

/-- A batcher that goes by a clock. -/
def timedBatcher {α : Type u} (s : Settings) (clock : AdjustableClock) : Attempt (TimedBatcher α) :=
  let built := s.batcher
  { outcome := built.outcome.map fun batcher => { batcher, clock }, events := built.events }

instance : Inspect Settings :=
  ⟨fun s => Text.record "CollectionBuilder" [
    Text.field "capacity" (inspect s.capacity),
    Text.field "expiry" (inspect s.window)]⟩

end Settings

end Retention
