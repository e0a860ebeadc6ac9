import OS161.Asst1.Stoplight
import OS161.Proc.Kin
import OS161.Proc.Table
import OS161.Proc.Zombies
import OS161.Proc.ForkPid
import OS161.Proc.Overrun
import OS161.Sfs.CutFail
import OS161.Sfs.ByteFile
import OS161.Sfs.LostWrite
import OS161.Sfs.Bitmap
import OS161.Sfs.DirMap
import OS161.Dev.Sectors
import OS161.Dev.Lamebus
import OS161.Libc.Atoi
import OS161.Libc.Padding
import OS161.Libc.AnySize
import OS161.Kheap.Asked
import OS161.Vm.Legal
import OS161.Vm.NewSpace
import OS161.Vm.FaultFail
import OS161.Vm.Steal
import OS161.Thread.LockCv
import OS161.Thread.Semaphore
import OS161.Thread.NewLock
import OS161.Thread.Starved
import OS161.Thread.Fifo
import OS161.Vfs.Devices
import OS161.Vfs.EmufsReclaim
import OS161.Vfs.Getdevice
import OS161.Userprog.Copyinout
import OS161.Syscall.Write
