/-
# Retention.Diagnostic -- what a collection reports while it works

A bounded collection throws things away, and an operator wants to see it do so. Every such moment
is one `Diagnostic`: the fact with its figures, from which the level, the wording and the named
figures for a log line are read off. A diagnostic is data and never an effect; `Retention.Step`
carries the diagnostics of one operation to whoever wants to write them down.
-/
import Retention.Error

namespace Retention

/-- How much attention a diagnostic asks for. -/
inductive Level where
  /-- A detail of ordinary work. -/
  | trace
  /-- A decision worth knowing when something is looked into. -/
  | debug
  /-- Something the caller should put right. -/
  | warn
deriving DecidableEq, Repr

/-- The level's name in a log line. -/
def Level.title : Level → String
  | .trace => "TRACE"
  | .debug => "DEBUG"
  | .warn => "WARN"

/-- A figure that a diagnostic gives. -/
inductive Figure where
  /-- A number of things. -/
  | count (n : Nat)
  /-- A wording. -/
  | text (s : String)
deriving DecidableEq, Repr

/-- One fact that a collection reports while it works. -/
inductive Diagnostic where
  /-- A cache dropped its least recent entry and has `left` entries left. -/
  | entryEvicted (left capacity : Nat)
  /-- A full queue dropped its oldest item to make room. -/
  | queueOverflowed (capacity : Nat)
  /-- A ring became full and handed out its values as a batch. -/
  | batchFlushed (size : Nat)
  /-- A ring dropped so many stale values and kept `remaining` before taking the next. -/
  | staleDropped (dropped remaining : Nat)
  /-- A full selection turned away an element that is not above its least one. -/
  | elementDiscarded (capacity : Nat)
  /-- A collection could not be set up as configured. -/
  | configurationRejected (reason : SetupError)
deriving DecidableEq, Repr

namespace Diagnostic

/-- The attention a diagnostic asks for. -/
def level : Diagnostic → Level
  | entryEvicted .. | queueOverflowed .. | batchFlushed .. => .debug
  | staleDropped .. | elementDiscarded .. => .trace
  | configurationRejected .. => .warn

/-- The wording of a diagnostic, without its figures. -/
def message : Diagnostic → String
  | entryEvicted .. => "lru evicted least recent entry"
  | queueOverflowed .. => "eviction queue full, evicted oldest item"
  | batchFlushed .. => "expiring ring flushed full batch"
  | staleDropped .. => "expiring ring dropped stale entries"
  | elementDiscarded .. => "top-n discarded element below minimum"
  | configurationRejected .. => "rejected collection configuration"

/-- The named figures of a diagnostic, in the order of a log line. -/
def figures : Diagnostic → List (String × Figure)
  | entryEvicted left capacity => [("len", .count left), ("capacity", .count capacity)]
  | queueOverflowed capacity => [("capacity", .count capacity)]
  | batchFlushed size => [("batch", .count size)]
  | staleDropped dropped remaining => [("pruned", .count dropped), ("remaining", .count remaining)]
  | elementDiscarded capacity => [("capacity", .count capacity)]
  | configurationRejected reason => [("reason", .text reason.message)]

end Diagnostic

end Retention
