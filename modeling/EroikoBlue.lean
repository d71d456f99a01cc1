import EroikoBlue.Lib.Outcome
import EroikoBlue.Lib.Lockstep
import EroikoBlue.Lib.Names
import EroikoBlue.Lib.X86
import EroikoBlue.Lib.Bytes
import EroikoBlue.Lib.Search
import EroikoBlue.Lib.Trace
import EroikoBlue.Lib.BoundedMap
import EroikoBlue.Lib.Sorting
import EroikoBlue.Lib.Stores
import EroikoBlue.Lib.Output
import EroikoBlue.Lib.Threads
import EroikoBlue.Lib.Chain
import EroikoBlue.Debug
import EroikoBlue.CellList
import EroikoBlue.CellListRuns
import EroikoBlue.MP4.Bitmap
import EroikoBlue.MP4.Disk
import EroikoBlue.MP4.FileHdr
import EroikoBlue.MP4.HdrTree
import EroikoBlue.MP4.HdrAlloc
import EroikoBlue.MP4.HdrDisk
import EroikoBlue.MP4.HdrWalk
import EroikoBlue.MP4.HdrLife
import EroikoBlue.MP4.HdrShape
import EroikoBlue.MP4.HdrPrint
import EroikoBlue.MP4.OpenFile
import EroikoBlue.MP4.FileData
import EroikoBlue.MP4.PBitmap
import EroikoBlue.MP4.Counts
import EroikoBlue.MP4.Directory
import EroikoBlue.MP4.DirWalk
import EroikoBlue.MP4.DirMap
import EroikoBlue.MP4.FileSys
import EroikoBlue.MP4.Transfers
import EroikoBlue.MP4.Tree
import EroikoBlue.MP4.Volume
import EroikoBlue.MP4.Paths
import EroikoBlue.MP4.Create
import EroikoBlue.MP4.Remove
import EroikoBlue.MP4.Format
import EroikoBlue.MP4.System
import EroikoBlue.MP4.Completeness
import EroikoBlue.MP4.Isolation
import EroikoBlue.MP4.RoundTrip
import EroikoBlue.MP4.Subtree
import EroikoBlue.MP4.Resolution
import EroikoBlue.MP4.Listing
import EroikoBlue.MP4.OpenTable
import EroikoBlue.MP4.SynchDisk
import EroikoBlue.MP4.Mail
import EroikoBlue.MP4.PostOffice
import EroikoBlue.MP4.Network
import EroikoBlue.MP4.NameSpace
import EroikoBlue.MP4.Effects
import EroikoBlue.MP4.Copy
import EroikoBlue.MP3.Invariant
import EroikoBlue.MP3.Steps
import EroikoBlue.MP3.Order
import EroikoBlue.MP3.Preemption
import EroikoBlue.MP3.Bursts
import EroikoBlue.MP3.Aging
import EroikoBlue.MP3.ShortestFirst
import EroikoBlue.MP3.CommandLine
import EroikoBlue.MP3.Interrupt
import EroikoBlue.MP3.Frames
import EroikoBlue.MP3.Semaphore
import EroikoBlue.MP3.Lock
import EroikoBlue.MP3.SynchList
import EroikoBlue.MP3.Wakeups
import EroikoBlue.MP3.Switch
import EroikoBlue.MP3.Dispatch
import EroikoBlue.MP1.OpenFiles
import EroikoBlue.MP1.Console
import EroikoBlue.MP2.FrameTable
import EroikoBlue.MP2.Process
import EroikoBlue.MP2.Exit
import EroikoBlue.MP2.Syscall
import EroikoBlue.MP2.Segments
import EroikoBlue.MP2.Image
import EroikoBlue.MP2.Protection
import EroikoBlue.MP2.Mips
import EroikoBlue.MP2.Mult
import EroikoBlue.MP2.Machine
import EroikoBlue.MP2.View
import EroikoBlue.MP2.Accesses
import EroikoBlue.MP2.Sandbox
import EroikoBlue.MP2.Arithmetic
import EroikoBlue.MP2.Unaligned
import EroikoBlue.MP2.Placement
import EroikoBlue.MP2.Computer
import EroikoBlue.MP2.Multiprogram
import EroikoBlue.Pthread.TSQueue
import EroikoBlue.Pthread.Monitor
import EroikoBlue.Pthread.Controller
import EroikoBlue.Pthread.Transformer
import EroikoBlue.Pthread.Pipeline
import EroikoBlue.Pthread.Progress
import EroikoBlue.Pthread.Record
import EroikoBlue.Pthread.Verify
