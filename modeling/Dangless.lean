import Dangless.LibRun
import Dangless.LibSpanList
import Dangless.LibTableTree
import Dangless.Mem
import Dangless.VirtmemAlloc
import Dangless.VirtmemAllocSpec
import Dangless.VirtmemAllocRefine
import Dangless.Virtmem
import Dangless.VirtmemWalk
import Dangless.VirtmemSpec
import Dangless.Sysmalloc
import Dangless.VirtualRemap
import Dangless.DanglessMalloc
import Dangless.SysContract
import Dangless.RemapInv
import Dangless.DanglessSpec
import Dangless.VirtmemInvalidate
import Dangless.BumpAllocator
import Dangless.LibPaging
import Dangless.VirtmemMmu
import Dangless.VirtmemRights
import Dangless.DanglessRelease
import Dangless.Client
import Dangless.TemporalSafety
import Dangless.DoubleRelease
import Dangless.BlockAccounting
import Dangless.PosixMemalign
import Dangless.VmcallFixup
import Dangless.LibSimulation
import Dangless.VmcallSpace
import Dangless.VmcallSlots
import Dangless.VmcallFixupSpec
import Dangless.VmcallRestore
import Dangless.VmcallHost
import Dangless.Dedication
import Dangless.AutoDedicate
import Dangless.VirtmemAllocCanonical
import Dangless.VmcallBrk
import Dangless.VmcallRestoreBuffer
import Dangless.VmcallThreads
import Dangless.LibTextBuffer
import Dangless.PrintfNomalloc
import Dangless.PrintfLanguage
import Dangless.PrintfNomallocSpec
import Dangless.PrintfOutput
import Dangless.LibRegions
import Dangless.VirtmemChartLayout
import Dangless.VirtmemChartSpec
import Dangless.HookRuns
import Dangless.OwnPointers
import Dangless.PrintfNumbers
import Dangless.RumprunRemap
import Dangless.LibPool
import Dangless.RumprunPhysmem
import Dangless.RumprunPhysmemSpec
import Dangless.DumpMappings
import Dangless.DumpMappingsScan
import Dangless.DumpMappingsSpec
import Dangless.DumpMappingsExact
import Dangless.LibLinkedList
import Dangless.Queue
import Dangless.VirtmemAllocHeap
import Dangless.VirtmemAllocHeapSpec
import Dangless.LibLock
import Dangless.VirtmemAllocThreads
import Dangless.LibTlb
import Dangless.PageTableOps
import Dangless.PageTableOpsSpec
import Dangless.PageTableTrace
import Dangless.ClientTrace
import Dangless.PagefaultHandler
import Dangless.LibRely
import Dangless.PageTableThreads
import Dangless.PageTableThreadsSpec
import Dangless.PageTableCalls
import Dangless.DanglessThreads
import Dangless.DanglessThreadsAlone
import Dangless.DanglessThreadsCalls
import Dangless.DanglessThreadsRuns
import Dangless.TemporalSafetyThreads
import Dangless.LibRunLength
import Dangless.DumpTables
import Dangless.LibTailList
import Dangless.Statistics
import Dangless.StatisticsSpec
import Dangless.RumprunResolve
