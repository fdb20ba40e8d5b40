import Ironstate.Lib.Reach
import Ironstate.Lib.Log
import Ironstate.Aggregate.Rules
import Ironstate.Journal.Journal
import Ironstate.Journal.Memory
import Ironstate.Core.Error
import Ironstate.Journal.Replay
import Ironstate.Journal.History
import Ironstate.Journal.Trace
import Ironstate.Journal.Sim
import Ironstate.Journal.Staged
import Ironstate.Journal.Subscription
import Ironstate.Journal.Fixture
import Ironstate.Journal.Proofs.Resume
import Ironstate.Journal.Proofs.Addressing
import Ironstate.Journal.Proofs.Retention
import Ironstate.Journal.Proofs.Fork
import Ironstate.Journal.Proofs.Lockstep
import Ironstate.Journal.Proofs.Delivery
import Ironstate.Journal.Proofs.Faults
import Ironstate.Journal.Proofs.Rewind
import Ironstate.Journal.Proofs.Units
import Ironstate.Journal.Proofs.Sequence
import Ironstate.Journal.Proofs.Prefix
import Ironstate.Journal.Proofs.Branch
import Ironstate.Journal.Proofs.Streams
import Ironstate.Journal.Proofs.Redelivery
import Ironstate.Core.Proofs.Restore
import Ironstate.Aggregate.Redaction
import Ironstate.Aggregate.Proofs.Views
import Ironstate.Core.Analysis
import Ironstate.Core.Proofs.Graph
import Ironstate.Core.Proofs.Report
import Ironstate.Aggregate.StableHash
import Ironstate.Core.Proofs.Proven
import Ironstate.Aggregate.Proofs.Encoding
import Ironstate.Journal.Proofs.Accounting
import Ironstate.Journal.Proofs.Commute
import Ironstate.Journal.Proofs.Paths
import Ironstate.Core.Metadata
import Ironstate.Aggregate.Proofs.Enforcement
import Ironstate.Aggregate.Testkit
import Ironstate.Lib.Cover
import Ironstate.Aggregate.Draws
import Ironstate.Aggregate.Proofs.Range
import Ironstate.Lib.Shuffle
import Ironstate.Aggregate.Proofs.Shuffle
import Ironstate.Journal.Guarded
import Ironstate.Journal.Proofs.Bounds
import Ironstate.Aggregate.Proofs.Hops
import Ironstate.Lib.Yields
import Ironstate.Journal.Contract
import Ironstate.Journal.Kept
import Ironstate.Journal.Proofs.Driving
import Ironstate.Journal.Proofs.Contract
import Ironstate.Journal.Proofs.Interchange
import Ironstate.Journal.Proofs.Erasure
import Ironstate.Lib.Async
import Ironstate.Examples.AsyncStore
import Ironstate.Examples.Proofs.AsyncStore
import Ironstate.Examples.Outbox
import Ironstate.Examples.Proofs.Outbox
import Ironstate.Lib.Noninterference
import Ironstate.Aggregate.Runs
import Ironstate.Aggregate.Proofs.Passing
import Ironstate.Aggregate.Leak
import Ironstate.Aggregate.Proofs.Leak
import Ironstate.Aggregate.Proofs.Planted
import Ironstate.Examples.HiddenInfo
import Ironstate.Examples.Proofs.HiddenInfo
import Ironstate.Examples.CatalogCtx
import Ironstate.Examples.Proofs.CatalogCtx
import Ironstate.Core.Derive
import Ironstate.Core.Proofs.Derive
import Ironstate.Core.Listener
import Ironstate.Core.Proofs.Listener
import Ironstate.Lib.Shortcut
import Ironstate.Core.Testing
import Ironstate.Core.Proofs.Testing
import Ironstate.Examples.ReleasePipeline
import Ironstate.Examples.Proofs.ReleasePipeline
import Ironstate.Examples.Ledger
import Ironstate.Examples.Proofs.Ledger
import Ironstate.Aggregate.Determinism
import Ironstate.Aggregate.Proofs.Determinism
import Ironstate.Aggregate.Proofs.Unordered
import Ironstate.Journal.Audit
import Ironstate.Journal.Proofs.Audit
import Ironstate.Aggregate.EntropyContract
import Ironstate.Aggregate.Proofs.EntropyContract
import Ironstate.Aggregate.Keystream
import Ironstate.Aggregate.Proofs.Keystream
import Ironstate.Journal.Scenario
import Ironstate.Journal.Proofs.Scenario
import Ironstate.Aggregate.TypeScan
import Ironstate.Aggregate.Proofs.TypeScan
