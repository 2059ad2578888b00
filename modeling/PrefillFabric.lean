import PrefillFabric.Lib.Table
import PrefillFabric.Lib.Machine
import PrefillFabric.Types
import PrefillFabric.Lib.Tiling
import PrefillFabric.Request
import PrefillFabric.Chunking
import PrefillFabric.Estimates
import PrefillFabric.Memory
import PrefillFabric.Governor
import PrefillFabric.Executor
import PrefillFabric.Scheduler.State
import PrefillFabric.Scheduler.Submit
import PrefillFabric.Scheduler.Control
import PrefillFabric.Scheduler.Completion
import PrefillFabric.Scheduler.Cycle
import PrefillFabric.Scheduler.Queries
import PrefillFabric.Scheduler.Persistence
import PrefillFabric.Scheduler.Search
import PrefillFabric.Scheduler.Machine
import PrefillFabric.Scheduler.Admission
import PrefillFabric.Scheduler.View
import PrefillFabric.Scheduler.Effect
import PrefillFabric.Scheduler.Refine
import PrefillFabric.Scheduler.RefineControl
import PrefillFabric.Scheduler.RefineCycle
import PrefillFabric.Scheduler.Simulation
import PrefillFabric.Scheduler.History
import PrefillFabric.Scheduler.Refusals
import PrefillFabric.Scheduler.Authority
import PrefillFabric.Scheduler.Order
import PrefillFabric.Scheduler.Progress
import PrefillFabric.Scheduler.Places
import PrefillFabric.Scheduler.Groups
import PrefillFabric.Scheduler.Reservations
import PrefillFabric.Scheduler.Recovery
import PrefillFabric.Scheduler.Lifetime
import PrefillFabric.Scheduler.Incarnations
import PrefillFabric.Scheduler.Terminal
import PrefillFabric.Scheduler.Holdings
import PrefillFabric.Scheduler.Surroundings
import PrefillFabric.Scheduler.Slots
import PrefillFabric.Scheduler.Ledger
import PrefillFabric.Scheduler.Accounts
import PrefillFabric.Scheduler.Reads
import PrefillFabric.Scheduler.Workers
import PrefillFabric.Scheduler.Cancellation
import PrefillFabric.Scheduler.Resumption
import PrefillFabric.Scheduler.Forgetting
import PrefillFabric.Scheduler.Dispatches
import PrefillFabric.Scheduler.Packing
import PrefillFabric.Scheduler.Formation
import PrefillFabric.Scheduler.GroupMemory
import PrefillFabric.Scheduler.GroupLimit
import PrefillFabric.Scheduler.Assignment
import PrefillFabric.Scheduler.Explanations
import PrefillFabric.Scheduler.Journal
import PrefillFabric.Scheduler.Tokens
import PrefillFabric.Scheduler.Audit
import PrefillFabric.Scheduler.Extent
import PrefillFabric.Scheduler.Fairness
import PrefillFabric.Scheduler.Determinism
import PrefillFabric.Scheduler.Budget
import PrefillFabric.Scheduler.Drive
import PrefillFabric.Scheduler.Provision
import PrefillFabric.Scheduler.Waiting
import PrefillFabric.Scheduler.Overrun
import PrefillFabric.Scheduler.Service
import PrefillFabric.Scheduler.Settlement
import PrefillFabric.Scheduler.Restarts
import PrefillFabric.Scheduler.Cursor
import PrefillFabric.Lib.Checksum
import PrefillFabric.Lib.Codec
import PrefillFabric.Persistence.Bytes
import PrefillFabric.Persistence.Format
import PrefillFabric.Persistence.Blob
import PrefillFabric.Persistence.Snapshot
import PrefillFabric.Persistence.Files
import PrefillFabric.Persistence.Acceptance
import PrefillFabric.Coordinator.State
import PrefillFabric.Coordinator.Completion
import PrefillFabric.Coordinator.Steps
import PrefillFabric.Coordinator.Payload
import PrefillFabric.Coordinator.Blame
import PrefillFabric.Coordinator.Closing
import PrefillFabric.Protocol.Message
import PrefillFabric.Protocol.Frame
import PrefillFabric.Protocol.Roundtrip
import PrefillFabric.Protocol.Damage
import PrefillFabric.Lib.Interleaving
import PrefillFabric.Protocol.Socket
import PrefillFabric.Protocol.Stream
import PrefillFabric.Protocol.Client
import PrefillFabric.Protocol.Worker
import PrefillFabric.Protocol.CudaExecutor
import PrefillFabric.Protocol.Slices
import PrefillFabric.Protocol.Process
import PrefillFabric.Coordinator.Sending
import PrefillFabric.Coordinator.Replies
import PrefillFabric.Coordinator.Deployment
import PrefillFabric.Coordinator.Outcome
