import SimpleFileSystem.Library.ByteCodec
import SimpleFileSystem.Library.Run
import SimpleFileSystem.Library.LinkedList
import SimpleFileSystem.Library.Execution
import SimpleFileSystem.Library.Pool
import SimpleFileSystem.Library.Stack
import SimpleFileSystem.Library.Store
import SimpleFileSystem.Library.FirstFit
import SimpleFileSystem.Library.Sweep
import SimpleFileSystem.Library.Tiling
import SimpleFileSystem.Layout
import SimpleFileSystem.Machine
import SimpleFileSystem.Fs
import SimpleFileSystem.FreeChain
import SimpleFileSystem.BlockPool
import SimpleFileSystem.InodeTable
import SimpleFileSystem.Ownership
import SimpleFileSystem.BlockWrite
import SimpleFileSystem.ExclusiveBlocks
import SimpleFileSystem.WriteLaw
import SimpleFileSystem.Format
import SimpleFileSystem.FormatSpec
import SimpleFileSystem.FreshDisk
import SimpleFileSystem.IndexLayout
import SimpleFileSystem.InodeList
import SimpleFileSystem.Reopen
import SimpleFileSystem.Reclaim
import SimpleFileSystem.CacheFaults
import SimpleFileSystem.CacheMemory
import SimpleFileSystem.TornWrites
import SimpleFileSystem.CacheLabel
import SimpleFileSystem.Opening
import SimpleFileSystem.FileDescriptor
import SimpleFileSystem.FdPool
import SimpleFileSystem.FdOrder
import SimpleFileSystem.Dir
import SimpleFileSystem.DirIteration
import SimpleFileSystem.Handlers
import SimpleFileSystem.ReadWrite
import SimpleFileSystem.Locking
import SimpleFileSystem.RequestView
import SimpleFileSystem.Directories
import SimpleFileSystem.DirEntries
import SimpleFileSystem.DirSessions
import SimpleFileSystem.Sessions
import SimpleFileSystem.FreedMemory
import SimpleFileSystem.LinkCounts
import SimpleFileSystem.NameMap
import SimpleFileSystem.SlotReuse
import SimpleFileSystem.DirSweep
import SimpleFileSystem.RootEntries
import SimpleFileSystem.Paths
import SimpleFileSystem.PathTokens
import SimpleFileSystem.Ledger
import SimpleFileSystem.NameRequests
import SimpleFileSystem.HandleRequests
import SimpleFileSystem.OpenFile
import SimpleFileSystem.BlockRanges
import SimpleFileSystem.BlockSlices
import SimpleFileSystem.FileArray
import SimpleFileSystem.FileBytes
import SimpleFileSystem.ReadBytes
import SimpleFileSystem.MappedFile
import SimpleFileSystem.BufferBounds
import SimpleFileSystem.FailedWrites
import SimpleFileSystem.Metadata
import SimpleFileSystem.AllocateFaults
import SimpleFileSystem.FreeFaults
import SimpleFileSystem.AtomicAllocators
import SimpleFileSystem.DiskDirectory
import SimpleFileSystem.DirectoryGrowth
import SimpleFileSystem.FailedRequests
import SimpleFileSystem.WriteFrame
import SimpleFileSystem.Library.Table
import SimpleFileSystem.FileStore
import SimpleFileSystem.Library.Agreement
import SimpleFileSystem.LeftAlone
import SimpleFileSystem.Mirror
import SimpleFileSystem.MirrorCalls
import SimpleFileSystem.MirrorEntries
import SimpleFileSystem.MirrorRequests
import SimpleFileSystem.NextBlocks
import SimpleFileSystem.SoundDisk
import SimpleFileSystem.DiskSessions
import SimpleFileSystem.DiskTransfers
import SimpleFileSystem.Volumes
import SimpleFileSystem.DirHandles
import SimpleFileSystem.FileSizes
import SimpleFileSystem.Mounts
import SimpleFileSystem.NewDisk
import SimpleFileSystem.ReadBack
