import PageEngine.Bytes
import PageEngine.Call
import PageEngine.ChaCha
import PageEngine.Draws
import PageEngine.Error
import PageEngine.File.Disk
import PageEngine.File.Memory
import PageEngine.File.System
import PageEngine.Heap.File
import PageEngine.Heap.Layout
import PageEngine.Id
import PageEngine.Lock
import PageEngine.LockTable
import PageEngine.LogFilter
import PageEngine.Options
import PageEngine.Options.Document
import PageEngine.Page
import PageEngine.Pool.Basic
import PageEngine.Pool.Cache
import PageEngine.Pool.Completion
import PageEngine.Proofs.Heap.Geometry
import PageEngine.Proofs.Heap.Slots
import PageEngine.Proofs.Locking.Callers
import PageEngine.Proofs.Locking.Consistency
import PageEngine.Proofs.Locking.Deadlock
import PageEngine.Proofs.Locking.Frame
import PageEngine.Proofs.Locking.Graph
import PageEngine.Proofs.Locking.Holdings
import PageEngine.Proofs.Locking.Modes
import PageEngine.Proofs.Locking.Retries
import PageEngine.Proofs.Locking.Search
import PageEngine.Proofs.Locking.Victims
import PageEngine.Proofs.Locking.Wakeups
import PageEngine.Proofs.Pool.Abort
import PageEngine.Proofs.Pool.Alike
import PageEngine.Proofs.Pool.Bounds
import PageEngine.Proofs.Pool.Browsing
import PageEngine.Proofs.Pool.Cache
import PageEngine.Proofs.Pool.Commit
import PageEngine.Proofs.Pool.Completion
import PageEngine.Proofs.Pool.Faults
import PageEngine.Proofs.Pool.Fetching
import PageEngine.Proofs.Pool.Flushing
import PageEngine.Proofs.Pool.Installing
import PageEngine.Proofs.Pool.Metering
import PageEngine.Proofs.Pool.Ownership
import PageEngine.Proofs.Pool.Room
import PageEngine.Proofs.Storage.Ceiling
import PageEngine.Proofs.Storage.Contents
import PageEngine.Proofs.Storage.Files
import PageEngine.Proofs.Storage.Growth
import PageEngine.Proofs.Storage.Kinds
import PageEngine.Proofs.Storage.Lengthening
import PageEngine.Proofs.Storage.Overwriting
import PageEngine.Proofs.Storage.ShortTransfers
import PageEngine.Proofs.World.Accounting
import PageEngine.Proofs.World.Advances
import PageEngine.Proofs.World.Alone
import PageEngine.Proofs.World.Authors
import PageEngine.Proofs.World.Basic
import PageEngine.Proofs.World.Capacity
import PageEngine.Proofs.World.Counters
import PageEngine.Proofs.World.Deeds
import PageEngine.Proofs.World.EarlyFlush
import PageEngine.Proofs.World.Effects
import PageEngine.Proofs.World.Extension
import PageEngine.Proofs.World.FirstFit
import PageEngine.Proofs.World.Footprint
import PageEngine.Proofs.World.Guarding
import PageEngine.Proofs.World.Handles
import PageEngine.Proofs.World.Heeding
import PageEngine.Proofs.World.History
import PageEngine.Proofs.World.Inserts
import PageEngine.Proofs.World.Invariant
import PageEngine.Proofs.World.Isolation
import PageEngine.Proofs.World.Keeping
import PageEngine.Proofs.World.Ledger
import PageEngine.Proofs.World.Outgrown
import PageEngine.Proofs.World.PageSteps
import PageEngine.Proofs.World.Phantoms
import PageEngine.Proofs.World.Probing
import PageEngine.Proofs.World.Receipts
import PageEngine.Proofs.World.Replies
import PageEngine.Proofs.World.Requests
import PageEngine.Proofs.World.Restart
import PageEngine.Proofs.World.Rows
import PageEngine.Proofs.World.Runs
import PageEngine.Proofs.World.Scan
import PageEngine.Proofs.World.Sections
import PageEngine.Proofs.World.Serial
import PageEngine.Proofs.World.Serializability
import PageEngine.Proofs.World.Snapshot
import PageEngine.Proofs.World.Solo
import PageEngine.Proofs.World.Steady
import PageEngine.Proofs.World.Storing
import PageEngine.Proofs.World.Tenancy
import PageEngine.Proofs.World.Trails
import PageEngine.Proofs.World.Transfers
import PageEngine.Proofs.World.Twins
import PageEngine.Session
import PageEngine.Store
import PageEngine.Text.CharClass
import PageEngine.Toml.Document
import PageEngine.Toml.Lexeme
import PageEngine.Toml.Moment
import PageEngine.Toml.Number
import PageEngine.Toml.Tree
import PageEngine.WaitGraph
