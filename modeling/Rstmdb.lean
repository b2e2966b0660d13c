import Rstmdb.Lib.Bytes
import Rstmdb.Lib.Hex
import Rstmdb.Lib.OrderedMap
import Rstmdb.Lib.Paging
import Rstmdb.Lib.Meter
import Rstmdb.Lib.Tally
import Rstmdb.Lib.Runs
import Rstmdb.Lib.Interleave
import Rstmdb.Lib.Stream
import Rstmdb.Json.Value
import Rstmdb.Json.Text
import Rstmdb.Json.Pretty
import Rstmdb.Json.Cut
import Rstmdb.Json.Map
import Rstmdb.Wal.Entry
import Rstmdb.Wal.Payload
import Rstmdb.Wal.Record
import Rstmdb.Wal.Segment
import Rstmdb.Wal.Repair
import Rstmdb.Wal.ScanLoop
import Rstmdb.Wal.Log
import Rstmdb.Wal.SegmentIds
import Rstmdb.Wal.Contents
import Rstmdb.Wal.Refine
import Rstmdb.Wal.Sizes
import Rstmdb.Wal.Crash
import Rstmdb.Wal.ShortWrite
import Rstmdb.Wal.Corruption
import Rstmdb.Wal.Durability
import Rstmdb.Wal.Concurrent
import Rstmdb.Core.Guard
import Rstmdb.Core.GuardText
import Rstmdb.Core.GuardGrammar
import Rstmdb.Core.GuardScan
import Rstmdb.Core.GuardRender
import Rstmdb.Core.GuardLiteral
import Rstmdb.Core.Definition
import Rstmdb.Core.Engine
import Rstmdb.Core.Replay
import Rstmdb.Core.Faults
import Rstmdb.Core.Idempotency
import Rstmdb.Core.Race
import Rstmdb.Core.Threads
import Rstmdb.Core.Paths
import Rstmdb.Core.Creation
import Rstmdb.Core.Versions
import Rstmdb.Core.Validation
import Rstmdb.Core.Registration
import Rstmdb.Core.EventIds
import Rstmdb.Core.Retry
import Rstmdb.Storage.Snapshot
import Rstmdb.Storage.Store
import Rstmdb.Storage.TwoStores
import Rstmdb.Storage.Restore
import Rstmdb.Storage.Positions
import Rstmdb.Storage.SnapshotCrash
import Rstmdb.Storage.IdempotencyIndex
import Rstmdb.Protocol.Frame
import Rstmdb.Protocol.Message
import Rstmdb.Protocol.Codec
import Rstmdb.Server.Session
import Rstmdb.Server.Handler
import Rstmdb.Server.Calls
import Rstmdb.Server.Panic
import Rstmdb.Server.Startup
import Rstmdb.Server.Batch
import Rstmdb.Server.Context
import Rstmdb.Core.Recovery
import Rstmdb.Core.Optimistic
import Rstmdb.Server.Paging
import Rstmdb.Server.Compaction
import Rstmdb.Server.Loss
import Rstmdb.Server.Coverage
import Rstmdb.Server.Notify
import Rstmdb.Server.AutoCompaction
import Rstmdb.Server.WalMetrics
import Rstmdb.Server.EventOrder
import Rstmdb.Server.Deletion
import Rstmdb.Server.CallStates
import Rstmdb.Server.ErrorCodes
import Rstmdb.Server.Pinning
import Rstmdb.Server.Connection
import Rstmdb.Server.Subscriptions
import Rstmdb.Server.Forwarders
import Rstmdb.Server.Unwatch
import Rstmdb.Server.Gauges
import Rstmdb.Server.Wire
import Rstmdb.Server.BatchWork
import Rstmdb.Server.Farewell
import Rstmdb.Server.VersionLimit
import Rstmdb.Server.Watchers
import Rstmdb.Server.WatchInstance
import Rstmdb.Server.WatchAll
import Rstmdb.Client.Connection
import Rstmdb.Client.Pairing
import Rstmdb.Client.Pending
