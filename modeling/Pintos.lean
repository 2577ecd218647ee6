import Pintos.Devices.Partition
import Pintos.Filesys.ConcurrentWrite
import Pintos.Userprog.ProcessExecute
import Pintos.Userprog.ProcessExit
import Pintos.Userprog.ProcessLife
import Pintos.Userprog.UserPointers
import Pintos.Userprog.SyscallStubs
import Pintos.Threads.ReadyList
import Pintos.Threads.SemaphoreRuns
import Pintos.Threads.ConditionSteps
import Pintos.Threads.MallocSizes
import Pintos.Threads.PallocRuns
import Pintos.Kernel.HashTableRuns
import Pintos.Lib.Arithmetic
import Pintos.Lib.HeapSort
import Pintos.Kernel.ListSort
import Pintos.Devices.Ide
import Pintos.Devices.IntqFifo
import Pintos.Devices.Rtc
import Pintos.Lib.Memmove
import Pintos.Lib.Printf
import Pintos.Filesys.FsutilExtract
import Pintos.Userprog.SharedDirs
import Pintos.Userprog.SharedFiles
import Pintos.Filesys.References
import Pintos.Filesys.Deleting
import Pintos.Filesys.FailedCreation
import Pintos.Filesys.DirectoryTree
import Pintos.Userprog.ReadingDirs
import Pintos.Filesys.Remount
import Pintos.Userprog.StackSetup
import Pintos.Filesys.BlockIndex
