import BufferCache.Text.Hexadecimal
import BufferCache.DeviceNumber
import BufferCache.Failure
import BufferCache.Geometry
import BufferCache.Block
import BufferCache.Fault
import BufferCache.WaitQueue
import BufferCache.Links
import BufferCache.Statistics
import BufferCache.Buffers.Header
import BufferCache.Buffers.Basic
import BufferCache.Buffers.Chain
import BufferCache.Buffers.Ring
import BufferCache.Buffers.Reassign
import BufferCache.Requests.Operation
import BufferCache.Requests.Transfer
import BufferCache.Requests.Table
import BufferCache.Drivers.MemoryDisk
import BufferCache.Drivers.Basic
import BufferCache.Notice
import BufferCache.Cache.Basic
import BufferCache.Cache.Handle
import BufferCache.Client.Directory
import BufferCache.Client.Command
import BufferCache.Client.Answer
import BufferCache.World
import BufferCache.Calls.Call
import BufferCache.Calls.Waiting
import BufferCache.Calls.Acquiring
import BufferCache.Calls.Requesting
import BufferCache.Calls.Serving
import BufferCache.Calls.Flushing
import BufferCache.Calls.Reading
import BufferCache.Calls.Performing
import BufferCache.Calls.Step
import BufferCache.Machine
import BufferCache.Session
import BufferCache.Proofs.Effects
import BufferCache.Proofs.StepEffects
import BufferCache.Proofs.Chains
import BufferCache.Proofs.Index
import BufferCache.Proofs.Dirtiness
import BufferCache.Proofs.Holdings
import BufferCache.Proofs.Pinning
import BufferCache.Proofs.Coherence
import BufferCache.Proofs.Traffic
import BufferCache.Proofs.Promises
import BufferCache.Proofs.Deliveries
import BufferCache.Proofs.Clients
import BufferCache.Proofs.Refinement
import BufferCache.Proofs.Accounting
import BufferCache.Proofs.RequestChains
import BufferCache.Proofs.StepWaits
import BufferCache.Proofs.Consistency
import BufferCache.Proofs.Submissions
import BufferCache.Proofs.Correspondence
import BufferCache.Proofs.WriteBack
import BufferCache.Proofs.Flushes
import BufferCache.Proofs.Circles
import BufferCache.Proofs.RingOrder
import BufferCache.Proofs.RingFaults
import BufferCache.Proofs.Needs
import BufferCache.Proofs.Wakeups
import BufferCache.Proofs.ChainOrder
import BufferCache.Proofs.ServiceOrder
import BufferCache.Proofs.Occupancy
import BufferCache.Proofs.Reservation
import BufferCache.Proofs.Counting
import BufferCache.Proofs.Reckoning
import BufferCache.Proofs.Completion
import BufferCache.Proofs.Agenda
import BufferCache.Proofs.Transfers
import BufferCache.Proofs.Attempts
import BufferCache.Proofs.Reads
import BufferCache.Proofs.Load
import BufferCache.Proofs.Finishing
import BufferCache.Proofs.Termination
import BufferCache.Proofs.Progress
import BufferCache.Proofs.Underflow
import BufferCache.Proofs.Operations
import BufferCache.Proofs.OwnSteps
import BufferCache.Proofs.Acquisitions
import BufferCache.Proofs.StaleHandles
import BufferCache.Proofs.Arrivals
import BufferCache.Proofs.Fetching
import BufferCache.Proofs.Availability
import BufferCache.Proofs.DiskService
import BufferCache.Proofs.Replacement
import BufferCache.Proofs.ReadAhead
import BufferCache.Proofs.Emptying
import BufferCache.Proofs.Submitting
import BufferCache.Proofs.Paging
import BufferCache.Proofs.PageReads
import BufferCache.Proofs.Margins
import BufferCache.Proofs.ExactFlushes
import BufferCache.Proofs.Evaluation
import BufferCache.Proofs.Retention
import BufferCache.Proofs.Comparison
