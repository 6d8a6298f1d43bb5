/-
# Retention.Error -- what can go wrong, by cause

Nothing here fails because a collection is empty or full: those answers are ordinary results. What
is left are two kinds of trouble. A `SetupError` says why a collection cannot be set up as asked,
before it exists. A `Violation` says which of its own rules a collection found broken when it
inspected itself. Each cause is a constructor, and one function per type gives it its wording, so
a caller decides by cause and a reader sees the same words everywhere.
-/
import Retention.Text.Layout

namespace Retention

/-! ## Errors of configuration -/

/-- The collections that refuse to be set up without room for one element. -/
inductive Bounded where
  /-- The selection of the greatest elements. -/
  | selection
  /-- The cache ordered by recency. -/
  | cache
  /-- The ring that batches values and drops stale ones. -/
  | ring
deriving DecidableEq, Repr

/-- The name under which a collection reports about itself. -/
def Bounded.title : Bounded → String
  | .selection => "TopN"
  | .cache => "LruCache"
  | .ring => "ExpiringRing"

/-- Why a collection cannot be set up as asked. -/
inductive SetupError where
  /-- There is no room for even one element. -/
  | zeroCapacity (collection : Bounded)
  /-- The window after which values are stale is empty. -/
  | zeroExpiry
  /-- No window was chosen after which values are stale. -/
  | missingExpiry
  /-- A cause of the caller's own, in the caller's words. -/
  | described (text : String)
deriving DecidableEq, Repr

namespace SetupError

/-- The wording of the cause. -/
def message : SetupError → String
  | zeroCapacity collection => collection.title ++ ": capacity must be greater than zero"
  | zeroExpiry => Bounded.ring.title ++ ": expiry must be greater than zero"
  | missingExpiry => Bounded.ring.title ++ ": expiry must be set on the builder"
  | described text => text

/-- Two errors say the same when their wording agrees, whoever raised them. -/
def saysSame (a b : SetupError) : Bool :=
  a.message == b.message

instance : Inspect SetupError :=
  ⟨fun e => Text.variantOf "ConfigError" (inspect e.message)⟩

end SetupError

/-! ## Violated rules -/

/-- Which of its own rules a collection found broken. -/
inductive Violation where
  /-- An element of a heap is less than the element above it. -/
  | heapOrder (parent child : Nat)
  /-- A chain has only one end, or has elements but no ends. -/
  | endsDisagree
  /-- A link of a chain leads to an empty slot. -/
  | danglingLink (slot : Nat)
  /-- A node of a chain does not point back to the node before it. -/
  | stalePrevious (slot : Nat)
  /-- A walk along a chain does not end. -/
  | cycle
  /-- A walk along a chain ends at another node than the last. -/
  | strayTail
  /-- A walk along a chain does not meet every node. -/
  | nodesUnreached (walked held : Nat)
  /-- A queue holds more than its capacity. -/
  | queueOverfull (held capacity : Nat)
  /-- A cache's index and its chain differ in size. -/
  | indexSize (keys nodes : Nat)
  /-- A cache holds more than its capacity. -/
  | cacheOverfull
  /-- A cache's index does not know the key of an entry. -/
  | keyNotIndexed
  /-- A cache's index leads from the key of an entry to another one. -/
  | keyMisplaced
  /-- A cause of the caller's own, in the caller's words. -/
  | described (text : String)
deriving DecidableEq, Repr

namespace Violation

/-- The wording of the cause. -/
def message : Violation → String
  | heapOrder parent child =>
    s!"heap property violated between parent {parent} and child {child}"
  | endsDisagree => "head/tail disagree on emptiness of the list"
  | danglingLink slot => s!"dangling link to slot {slot}"
  | stalePrevious slot => s!"slot {slot} has a stale prev link"
  | cycle => "cycle detected in list"
  | strayTail => "forward walk did not end at tail"
  | nodesUnreached walked held => s!"walked {walked} nodes but arena holds {held}"
  | queueOverfull held capacity => s!"queue holds {held} items but capacity is {capacity}"
  | indexSize keys nodes => s!"index has {keys} keys but list has {nodes} nodes"
  | cacheOverfull => "lru holds more entries than its capacity"
  | keyNotIndexed => "list node has no index entry"
  | keyMisplaced => "index points a key at the wrong node"
  | described text => text

/-- Two violations say the same when their wording agrees, whoever raised them. -/
def saysSame (a b : Violation) : Bool :=
  a.message == b.message

instance : Inspect Violation :=
  ⟨fun e => Text.variantOf "InvariantError" (inspect e.message)⟩

end Violation

/-! ## Alarms -/

/-- The collections that raise an alarm when a rule of theirs is broken. -/
inductive Guarded where
  /-- A heap. -/
  | heap
  /-- A chain. -/
  | chain
  /-- A queue. -/
  | queue
  /-- A cache. -/
  | cache
deriving DecidableEq, Repr

/-- The name under which a collection raises its alarm. -/
def Guarded.title : Guarded → String
  | .heap => "min-heap"
  | .chain => "intrusive list"
  | .queue => "eviction queue"
  | .cache => "lru"

/-- The alarm of a collection that must not go on with a broken rule. -/
inductive Alarm where
  /-- A collection found one of its rules broken. -/
  | violated (collection : Guarded) (cause : Violation)
  /-- A selection holds more than its capacity. -/
  | selectionOverfull
  /-- A selection's remembered maximum is not the greatest of its elements. -/
  | maximumStale
deriving DecidableEq, Repr

/-- The wording of an alarm. -/
def Alarm.message : Alarm → String
  | violated collection cause =>
    collection.title ++ " invariant violated: " ++ cause.message
  | selectionOverfull => "top-n holds more than its capacity"
  | maximumStale => "top-n cached max is stale"

end Retention
