import AndixOs.Lib.Run
import AndixOs.Lib.Rijndael
import AndixOs.Crypto.AesCipher
import AndixOs.Crypto.AesCbc
import AndixOs.Crypto.Sha2Stream
import AndixOs.Fs.Tropic
import AndixOs.Lib.Chunks
import AndixOs.Fs.Disk
import AndixOs.Fs.Read
import AndixOs.Tee.References
import AndixOs.Tee.Reply
import AndixOs.Tee.KernelList
import AndixOs.Tee.Lists
import AndixOs.Tee.ListWalk
import AndixOs.Debug.Symbols
import AndixOs.Debug.Kprintf
import AndixOs.Trustlet.Install
import AndixOs.Trustlet.Pbkdf2
import AndixOs.Trustlet.KeyStore
import AndixOs.Trustlet.Crypt
import AndixOs.Trustlet.RsaKey
import AndixOs.Task.Uuid
import AndixOs.Swi.Newlib
import AndixOs.Task.UserThreads
import AndixOs.Service.HostIo
import AndixOs.Monitor.Mailbox
import AndixOs.Monitor.Requests
import AndixOs.Monitor.TeeSpace
import AndixOs.Mm.PhysMem
import AndixOs.Monitor.Package
import AndixOs.Mm.Allocators
import AndixOs.Mm.Init
import AndixOs.Mm.MapMemory
import AndixOs.Mm.TaskMem
import AndixOs.Loader.Image
import AndixOs.Loader.Heap
import AndixOs.Swi.Leak
import AndixOs.Fs.Content
import AndixOs.Fs.ReadBack
import AndixOs.Fs.Length
import AndixOs.Fs.Seek
import AndixOs.Fs.ByteFiles
import AndixOs.Boot.Atags
import AndixOs.Driver.CtrlMem
import AndixOs.Driver.TeeTables
import AndixOs.Driver.ParamRefs
import AndixOs.Driver.Undo
import AndixOs.Driver.InStep
import AndixOs.Driver.Searches
import AndixOs.Driver.TablesRun
import AndixOs.Driver.Contexts
import AndixOs.Driver.FindLoops
import AndixOs.Driver.LogPages
import AndixOs.Driver.Process
import AndixOs.Boot.MemTags
import AndixOs.Lib.Scanf
import AndixOs.Task.UuidParse
import AndixOs.Task.UuidAgree
import AndixOs.Client.CommMutex
import AndixOs.Client.Params
import AndixOs.Driver.Channels
import AndixOs.Service.FsPath
import AndixOs.Mm.FirstFit
import AndixOs.Mm.Shifts
import AndixOs.Mm.MemAddr
import AndixOs.Mm.BlockMap
import AndixOs.Lib.FirstMin
import AndixOs.Heap.Blocks
import AndixOs.Heap.BestFit
import AndixOs.Heap.Safety
import AndixOs.Heap.Align
import AndixOs.Heap.Tags
import AndixOs.Mm.BlockSize
import AndixOs.Hal.DoPending
import AndixOs.Hal.Protect
import AndixOs.Lib.Loop
import AndixOs.Mm.Sections
import AndixOs.Mm.MapNull
import AndixOs.Mm.TaskWindow
import AndixOs.Sched.Switch
import AndixOs.Sched.Running
import AndixOs.Sched.Restore
import AndixOs.Sched.NullSpaces
import AndixOs.Swi.Buffers
import AndixOs.Swi.Cleanup
import AndixOs.Swi.Reached
import AndixOs.Swi.Urandom
import AndixOs.Swi.Sbrk
import AndixOs.Task.LockedList
import AndixOs.Task.Queue
import AndixOs.Task.GiveUp
