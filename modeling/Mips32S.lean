import Mips32S.Bus.ExactlyOnce
import Mips32S.Cp0.Readback
import Mips32S.Decaf.LoadImm
import Mips32S.Exceptions.Isolation
import Mips32S.Fetch.Protection
import Mips32S.Fetch.Stream
import Mips32S.Kernel.Buddy.Canonical
import Mips32S.Kernel.Devices.Console
import Mips32S.Kernel.Devices.Disk0
import Mips32S.Kernel.Files.Descriptors
import Mips32S.Kernel.Files.SysRead
import Mips32S.Kernel.Files.VfsOpen
import Mips32S.Kernel.FirstFit.History
import Mips32S.Kernel.Libs.Memmove
import Mips32S.Kernel.Paging.CopySpace
import Mips32S.Kernel.Process.ExecArgs
import Mips32S.Kernel.Process.PidHistory
import Mips32S.Kernel.Process.Timer
import Mips32S.Kernel.Sfs.Accounting
import Mips32S.Kernel.Sfs.Contain
import Mips32S.Kernel.Sfs.FreeMap
import Mips32S.Kernel.Slab.Exhaustion
import Mips32S.Kernel.Sync.Semaphore
import Mips32S.Kernel.Trap.Robustness
import Mips32S.Kernel.Vma.CopyString
import Mips32S.Kernel.Vma.Search
import Mips32S.Pipeline.Forwarding
import Mips32S.Pipeline.Hilo
import Mips32S.Serial.ExactlyOnce
import Mips32S.Sram.Aborts
import Mips32S.Sram.ByteMemory
import Mips32S.Tlb.FaultAddress
import Mips32S.Tlb.History
import Mips32S.Vga.Display
