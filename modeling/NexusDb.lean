import NexusDb.Record.Theorems.SlottedArray
import NexusDb.Record.Theorems.AnyPage
import NexusDb.Record.Theorems.Compaction
import NexusDb.Storage.Theorems.StorageFile
import NexusDb.Wal.Theorems.TornTail
import NexusDb.Wal.Theorems.Appending
import NexusDb.Wal.Theorems.Corruption
import NexusDb.Wal.Theorems.Restart
import NexusDb.Buffer.Theorems.Coherence
import NexusDb.Database.Session
import NexusDb.Database.Theorems.RejectedLog
import NexusDb.Database.Theorems.Versions
import NexusDb.Database.Theorems.WriteAhead
import NexusDb.Buffer.Theorems.Clock
import NexusDb.Buffer.Theorems.Simulation
import NexusDb.Buffer.Theorems.Contract
import NexusDb.Buffer.Theorems.Healthy
import NexusDb.Buffer.Theorems.BufferFull
import NexusDb.Buffer.Theorems.Atomic
import NexusDb.Buffer.Theorems.Lru
import NexusDb.Buffer.Theorems.Pinned
import NexusDb.Container.Theorems.Registry
import NexusDb.Container.Theorems.Gate
import NexusDb.Container.Theorems.SilentEnd
import NexusDb.Container.Theorems.Readoption
import NexusDb.Bridge.Theorems.AdaptationPolicy
import NexusDb.Bridge.Theorems.ClosedLoop
import NexusDb.Manager.Theorems.Cli
import NexusDb.Manager.Theorems.Ids
import NexusDb.Manager.Theorems.Persisted
import NexusDb.Container.Theorems.Process
import NexusDb.Manager.Cli
import NexusDb.Record.Theorems.Chain
import NexusDb.Record.Theorems.HeapTable
import NexusDb.Record.Theorems.Acceptance
import NexusDb.Record.Theorems.Contents
import NexusDb.Record.Theorems.Older
import NexusDb.Catalog.Theorems.Acceptance
import NexusDb.Catalog.Theorems.Calls
import NexusDb.Catalog.Theorems.Reached
import NexusDb.Catalog.Theorems.OrderedMap
import NexusDb.Catalog.Theorems.Growth
import NexusDb.Catalog.Theorems.Catalog
import NexusDb.Catalog.Theorems.Layout
import NexusDb.Query.Theorems.Performs
import NexusDb.Query.Theorems.MapOfMaps
import NexusDb.Query.Theorems.Attempts
import NexusDb.Database.Theorems.Creation
import NexusDb.Database.Theorems.Ownership
import NexusDb.Database.Theorems.Maintenance
import NexusDb.Database.RawFiles
import NexusDb.Database.Theorems.AtomicCreation
import NexusDb.Record.Theorems.Search
import NexusDb.Record.Theorems.Opening
import NexusDb.Record.Theorems.Scripted
import NexusDb.Record.Theorems.InsertOut
import NexusDb.Record.Theorems.Allocation
import NexusDb.Record.Theorems.Reached
import NexusDb.Record.Theorems.FailedCalls
import NexusDb.Query.Theorems.NullOut
import NexusDb.Storage.StorageFile
import NexusDb.Buffer.Theorems.Views
import NexusDb.Database.Theorems.Settled
import NexusDb.Database.Theorems.Moments
import NexusDb.Database.History
import NexusDb.Database.Theorems.Effects
import NexusDb.Database.Theorems.Accounts
import NexusDb.Database.Theorems.CrashRecovery
import NexusDb.Database.Theorems.Atomicity
import NexusDb.Database.Theorems.Sessions
import NexusDb.Query.Theorems.Reading
import NexusDb.Database.Engine
import NexusDb.Manager.Host
import NexusDb.Manager.Router
import NexusDb.Manager.Theorems.Parsing
import NexusDb.Manager.Theorems.Hex
import NexusDb.Manager.Theorems.Host
import NexusDb.Buffer.Theorems.Renumber
import NexusDb.Manager.Theorems.RoundTrip
import NexusDb.General.Scan
import NexusDb.Container.Cgroup
import NexusDb.Container.Theorems.Cgroup
import NexusDb.Manager.Programs
import NexusDb.Manager.Theorems.Serial
import NexusDb.Manager.Theorems.Durable
import NexusDb.Manager.Theorems.Exact
import NexusDb.Buffer.Theorems.LruCache
import NexusDb.Benchmark.Theorems.Accounting
import NexusDb.Benchmark.Theorems.EngineWorkload
import NexusDb.Benchmark.Theorems.Walk
import NexusDb.Benchmark.Theorems.Container
import NexusDb.Benchmark.Theorems.Evidence
