import MyOs.Lib.Fifo
import MyOs.Lib.Mmu
import MyOs.Lib.Stores
import MyOs.Lib.FirstFit
import MyOs.Paging.AllocRuns
import MyOs.Paging.FrameSafety
import MyOs.Paging.Regions
import MyOs.Boot.Isolation
import MyOs.Boot.BootMemory
import MyOs.Boot.UserMode
import MyOs.Boot.Pic
import MyOs.Drivers.KeyExit
import MyOs.Drivers.IsoErrors
import MyOs.Drivers.IsoPathAccess
import MyOs.Drivers.KeyboardInterrupts
import MyOs.Drivers.VgaUndo
import MyOs.Drivers.Ps2
import MyOs.Drivers.Timing
import MyOs.Libraries.Itoa
import MyOs.Libraries.Concat
import MyOs.Libraries.SplitParts
import MyOs.Libraries.Elf
import MyOs.Libraries.Trim
import MyOs.Kernel.InputSessions
import MyOs.Kernel.Editing
import MyOs.Kernel.KernelReturn
import MyOs.Kernel.KeysToDisc
import MyOs.Kernel.Command
import MyOs.Kernel.ProgramOutput
import MyOs.Kernel.Readfile
