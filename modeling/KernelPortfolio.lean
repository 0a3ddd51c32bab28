import KernelPortfolio.Lib.BitField
import KernelPortfolio.Lib.Align
import KernelPortfolio.Lib.Loop
import KernelPortfolio.Lib.Radix
import KernelPortfolio.Lib.SignExtend
import KernelPortfolio.Lib.Ledger
import KernelPortfolio.Lib.Schedule
import KernelPortfolio.Lib.Counted
import KernelPortfolio.Lib.Trace
import KernelPortfolio.Machine
import KernelPortfolio.Paging.Hardware
import KernelPortfolio.Paging.WalkVa
import KernelPortfolio.Paging.RawWalk
import KernelPortfolio.Paging.HugeScan
import KernelPortfolio.Paging.ScanWalk
import KernelPortfolio.Paging.Walk2mb
import KernelPortfolio.Headers.Pgtable
import KernelPortfolio.Paging.Present
import KernelPortfolio.Inspect.Kernel
import KernelPortfolio.Inspect.MmAxiom
import KernelPortfolio.Inspect.AxiomWalk
import KernelPortfolio.Inspect.PhysProof
import KernelPortfolio.Inspect.Canonical
import KernelPortfolio.Paging.Indices
import KernelPortfolio.Inspect.VmaLookup
import KernelPortfolio.Inspect.Leaks
import KernelPortfolio.Inspect.StructPage
import KernelPortfolio.Inspect.PageMapping
import KernelPortfolio.Inspect.PinDrivers
import KernelPortfolio.User.Pagemap
import KernelPortfolio.User.PagemapReaders
import KernelPortfolio.User.MappingUser
import KernelPortfolio.Inspect.Lifetime
import KernelPortfolio.Pages.Refcount
import KernelPortfolio.Inspect.PidNamespace
import KernelPortfolio.Inspect.RamBytes
import KernelPortfolio.Pages.PageArray
import KernelPortfolio.Pages.Buddy
import KernelPortfolio.Lib.Stdio
import KernelPortfolio.Proc.MapsFormat
import KernelPortfolio.Proc.MapsReaders
import KernelPortfolio.Proc.LibcTrace
import KernelPortfolio.Proc.ReverseMap
import KernelPortfolio.Proc.GotProof
import KernelPortfolio.Proc.SmapsFormat
import KernelPortfolio.Proc.SmapsReaders
import KernelPortfolio.Headers.PteOps
import KernelPortfolio.Lib.Bounded
import KernelPortfolio.Lib.Cursor
import KernelPortfolio.Lib.Runs
import KernelPortfolio.Lib.Tally
import KernelPortfolio.Proc.MapsSeq
import KernelPortfolio.Proc.ClearRefs
import KernelPortfolio.Proc.PagemapProtect
import KernelPortfolio.Proc.PagemapWords
import KernelPortfolio.Proc.ProcmapQuery
import KernelPortfolio.Proc.SmapsRollup
