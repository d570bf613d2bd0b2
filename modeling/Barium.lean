import Barium.Foundation.Run
import Barium.Foundation.Progress
import Barium.Foundation.Interleaving
import Barium.Foundation.LockOrder
import Barium.Foundation.SpinLock
import Barium.Foundation.RingBuffer
import Barium.Foundation.ByteMemory
import Barium.Foundation.Word
import Barium.Foundation.WordMemory
import Barium.Foundation.WordStack
import Barium.Foundation.Asm
import Barium.Foundation.CachedMap
import Barium.Foundation.WordBytes
import Barium.Foundation.Ledger
import Barium.Foundation.BlockList
import Barium.Foundation.Bitmap
import Barium.Foundation.RunSearch
import Barium.Foundation.TableTree
import Barium.Foundation.LinkedList
import Barium.Foundation.RecordWalk
import Barium.Lib
import Barium.Acpi.Model
import Barium.Acpi.Robustness
import Barium.Acpi.Discovery
import Barium.Heap.Model
import Barium.Heap.Refinement
import Barium.Heap.Invariant
import Barium.Heap.Laws
import Barium.Pmm.Model
import Barium.Pmm.Scan
import Barium.Pmm.Init
import Barium.Pmm.Conservation
import Barium.Pmm.Bounds
import Barium.Pmm.Completeness
import Barium.Pmm.Reservation
import Barium.Vmm.Model
import Barium.Vmm.Refinement
import Barium.Vmm.Runs
import Barium.Vmm.Footprint
import Barium.Vmm.TableCount
import Barium.Vmm.TableNeed
import Barium.Vmm.Tlb
import Barium.Vmm.Recovery
import Barium.Vmm.Init
import Barium.Vmm.Exhausted
import Barium.Vmm.Concurrent
import Barium.Alpc.Port
import Barium.Alpc.Fifo
import Barium.Alpc.PortThreads
import Barium.Alpc.PortSafety
import Barium.Alpc.Registry
import Barium.Alpc.Section
import Barium.Alpc.SectionRuns
import Barium.Alpc.Sharing
import Barium.Alpc.SectionCalls
import Barium.Alpc.SectionBacking
import Barium.Alpc.SharedMemory
import Barium.Alpc.SectionTables
import Barium.Boot
import Barium.Ownership
import Barium.Sched.Model
import Barium.Sched.Queues
import Barium.Sched.Loops
import Barium.Sched.Reschedule
import Barium.Sched.Runs
import Barium.Sched.Accesses
import Barium.Sched.Records
import Barium.Sched.Cycle
import Barium.Sched.Aging
import Barium.Sched.Placement
import Barium.Sched.Dominance
import Barium.Sched.CpuQueues
import Barium.Sched.Locality
import Barium.Sched.Serving
import Barium.Sched.AgingPass
import Barium.Sched.Handoff
import Barium.Sched.Waiting
import Barium.Sched.RoundRobin
import Barium.Sched.Starvation
import Barium.Sched.Idle
import Barium.Sched.Reclaim
import Barium.Sched.Sleep
import Barium.Sched.Wakeup
import Barium.Sched.IsAlive
import Barium.Sched.Stacks
import Barium.Sched.Tasks
import Barium.Sched.Switch
import Barium.Entry.Stubs
import Barium.Entry.Gs
import Barium.Entry.Descriptors
import Barium.Entry.Delivery
import Barium.Sched.Resume
import Barium.PerCpu
import Barium.Console
import Barium.Syscall
import Barium.Ticks
import Barium.Keyboard
import Barium.Shell
import Barium.Smp
import Barium.Locks
