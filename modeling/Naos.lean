import Naos.Lib.Transition
import Naos.Lib.Assoc
import Naos.Lib.Counter
import Naos.Capability.Basic
import Naos.Task.WaitQueue
import Naos.Capability.Table
import Naos.Capability.Transfer
import Naos.Ipc.BoundedQueue
import Naos.Ipc.Ring
import Naos.Ipc.Channel
import Naos.Lib.Worklist
import Naos.Ipc.Collector
import Naos.Ipc.Send
import Naos.Ipc.Invocation
import Naos.Ipc.Protocol
import Naos.Ipc.Accounting
import Naos.Ipc.Objects
import Naos.Ipc.Unique
import Naos.Ipc.Orphans
import Naos.Ipc.Delivery
import Naos.Lib.Generation
import Naos.Ipc.Kernel
import Naos.Ipc.WaitMany
import Naos.Task.Wait
import Naos.Task.Reap
import Naos.Common.Memset
import Naos.Ipc.Interference
import Naos.Ipc.Attenuation
import Naos.Ipc.RawDelivery
import Naos.Ipc.Life
import Naos.Ipc.Stranded
import Naos.Ipc.Submit
import Naos.Lib.Ledger
import Naos.Ipc.Hooks
import Naos.Ipc.Location
import Naos.Lib.Outcome
import Naos.Lib.Sharing
import Naos.Mm.PageTable
import Naos.Mm.Tables
import Naos.Mm.Share
import Naos.Mm.Ensure
import Naos.Mm.Map
import Naos.Mm.Unmap
import Naos.Ipc.Cancellation
import Naos.Lib.Extents
import Naos.Mm.Vma
import Naos.Timer.Basic
import Naos.Ipc.Deadline
import Naos.Ipc.Timeout
import Naos.Task.Wakeup
import Naos.Service.Directory
import Naos.Service.Connect
import Naos.Lib.Quota
import Naos.Ipc.Quotas
import Naos.Ipc.ProtocolQuotas
import Naos.Ipc.ServerEnd
import Naos.Mm.Fault
import Naos.Mm.Runs
import Naos.Fs.Path
import Naos.Fs.Vfs
import Naos.Fs.Confinement
import Naos.Fs.Tree
import Naos.Fs.Operations
import Naos.Fs.Removal
import Naos.Mm.Exact
import Naos.Mm.Umap
import Naos.Dev.Input
import Naos.Task.Futex
import Naos.Task.Signal
import Naos.Task.JobControl
import Naos.Fs.Ramfs
import Naos.Tty.Core
import Naos.Mm.Slab
import Naos.Tty.Session
import Naos.Ipc.Admission
import Naos.Ipc.FileWrite
import Naos.Service.Listing
import Naos.Ipc.Handles
import Naos.Ipc.SignalWait
import Naos.Service.Uri
import Naos.Tty.Chunks
import Naos.Tty.Reads
import Naos.Console.Damage
import Naos.Fs.Usage
import Naos.Boot.Cmdline
import Naos.Lock.Semaphore
import Naos.Common.Memmove
import Naos.Trace.EarlyBuffer
