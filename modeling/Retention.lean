import Retention.Cache.Audit
import Retention.Cache.Shared
import Retention.ClassSet.Algebra
import Retention.Settings
import Retention.Proofs.Cache.Recency
import Retention.Proofs.Batcher.Recent
import Retention.Proofs.Chain.Sequence
import Retention.Proofs.Chain.Reading
import Retention.Proofs.Selection.Retained
import Retention.Proofs.Heap.Ordered
import Retention.Proofs.Arena.Ledger
import Retention.Proofs.Queue.InOrder
import Retention.Proofs.Cache.Exact
import Retention.Proofs.Heap.Elements
import Retention.Proofs.Cache.History
import Retention.Proofs.Cache.Fates
import Retention.Proofs.Batcher.Departures
import Retention.Proofs.Batcher.Fresh
import Retention.Proofs.Selection.Greatest
import Retention.Proofs.Cache.Changing
import Retention.Proofs.Footprint
import Retention.Proofs.Heap.Reordered
import Retention.Proofs.Selection.Reordered
import Retention.Proofs.Chain.Audited
import Retention.Proofs.Batcher.Failures
import Retention.Proofs.Cache.AsQueue
import Retention.Proofs.Selection.Remembered
import Retention.Proofs.Cache.Audited
import Retention.Proofs.Heap.Audited
import Retention.Proofs.Drained
import Retention.Proofs.ClassSet.United
import Retention.Proofs.ClassSet.Balanced
import Retention.Proofs.ClassSet.OneByOne
import Retention.Proofs.Visited
import Retention.Proofs.Heap.Subtree
import Retention.Proofs.Ring.Contents
