import Os1000.Layout
import Os1000.Lib.Memory
import Os1000.Lib.Run
import Os1000.Lib.Tiles
import Os1000.Alloc.Regions
import Os1000.Alloc.Partition
import Os1000.Alloc.Coalesce
import Os1000.Alloc.Room
import Os1000.Kernel.State
import Os1000.Kernel.Paging
import Os1000.Kernel.Shm
import Os1000.Kernel.Process
import Os1000.Proof.Frame
import Os1000.Proof.Ownership
import Os1000.Proof.Calls
import Os1000.Proof.Table
import Os1000.Proof.Handles
import Os1000.Lib.Sv32
import Os1000.Proof.Pages
import Os1000.Proof.Objects
import Os1000.Proof.Counting
import Os1000.Proof.Tree
import Os1000.Proof.Space
import Os1000.Proof.Invariant
import Os1000.Proof.Isolation
import Os1000.Proof.Sharing
import Os1000.Proof.Progress
import Os1000.Proof.Sched
import Os1000.Proof.Exclusive
import Os1000.Proof.History
import Os1000.Proof.Overflow
import Os1000.Lib.Slots
import Os1000.Net.Arp
import Os1000.Proof.ArpCache
import Os1000.Lib.Text
import Os1000.Kernel.Common
import Os1000.Kernel.Filesystem
import Os1000.Proof.Common
import Os1000.Proof.Archive
import Os1000.Proof.Boot
import Os1000.Proof.Files
import Os1000.Proof.TarChecksum
import Os1000.Proof.FileRuns
import Os1000.Proof.Lookup
import Os1000.Lib.Channel
import Os1000.Virtio.Queue
import Os1000.Virtio.Rx
import Os1000.Proof.RxQueue
import Os1000.Virtio.Interrupt
import Os1000.Proof.Completion
import Os1000.Virtio.Request
import Os1000.Proof.Flight
import Os1000.Proof.Request
import Os1000.Lib.Riscv
import Os1000.Trap.Machine
import Os1000.Proof.TrapCode
import Os1000.Proof.KernelStack
import Os1000.Proof.Traps
import Os1000.Alloc.Requests
import Os1000.Proof.Contexts
import Os1000.Proof.Hold
import Os1000.Proof.PageTables
import Os1000.Proof.Creation
import Os1000.Proof.RegionList
import Os1000.Net.Capture
import Os1000.Proof.Capture
import Os1000.Net.ArpPoll
import Os1000.Lib.Trace
import Os1000.Proof.Fields
import Os1000.Proof.ArpPoll
import Os1000.Lib.Checksum
import Os1000.Net.Ipv4
import Os1000.Net.Receive
import Os1000.Proof.Checksum
import Os1000.Proof.Ipv4
import Os1000.Proof.Ipv4Receive
import Os1000.Proof.ArpCodec
import Os1000.Lib.Decimal
import Os1000.Kernel.Printf
import Os1000.Proof.Printf
import Os1000.Proof.ParseIpv4
import Os1000.Virtio.Disk
import Os1000.Proof.BlkReq
import Os1000.Proof.Disk
import Os1000.Proof.DiskCalls
import Os1000.Kernel.UserMemory
import Os1000.Spec.World
import Os1000.Proof.UserPages
import Os1000.Proof.VirtualMemory
import Os1000.Proof.UserPrograms
import Os1000.Lib.Plic
import Os1000.Virtio.External
import Os1000.Proof.External
import Os1000.Proof.CoreInvariant
import Os1000.Proof.Wakeup
import Os1000.Proof.Power
import Os1000.Net.Host
import Os1000.Spec.Endpoint
import Os1000.Proof.Frames
import Os1000.Proof.Host
import Os1000.Proof.Accounting
import Os1000.Virtio.Reception
import Os1000.Proof.Reception
import Os1000.Kernel.Storage
import Os1000.Proof.Storage
import Os1000.Lib.Numeral
import Os1000.Lib.Prog
import Os1000.Lib.Strings
import Os1000.Proof.Commands
import Os1000.Proof.ShmTest
import Os1000.Proof.KernelSpace
