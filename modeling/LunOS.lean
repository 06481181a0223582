import LunOS.BuddyAllocator.MemoryMap
import LunOS.Pmm.Sizes
import LunOS.Pmm.DoubleFree
import LunOS.Pmm.Locking
import LunOS.Spinlock.ReaderOverflow
import LunOS.Spinlock.Ordered
import LunOS.Spinlock.Ticket
import LunOS.Scheduler.RoundRobin
import LunOS.Vmm.IsMapped
import LunOS.Vmm.KernelHalf
import LunOS.MemMgr.HeapGuard
import LunOS.MemMgr.FailedGrowth
import LunOS.Vfs.References
import LunOS.Vfs.Chains
import LunOS.Vfs.Registry
import LunOS.Vfs.Lifetimes
import LunOS.Scheduler.Lifecycle
import LunOS.Scheduler.Pids
import LunOS.Scheduler.Placement
import LunOS.Scheduler.Teardown
import LunOS.Ds.Sequences
import LunOS.Klib.InPlace
import LunOS.Console.FormatEnd
import LunOS.Interrupts.Exceptions
import LunOS.Klib.Printing
import LunOS.Console.Logging
import LunOS.Pmm.Contents
import LunOS.Smp.BringUp
import LunOS.Vmm.Tlb
