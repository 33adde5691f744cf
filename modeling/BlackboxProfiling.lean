import BlackboxProfiling.AddressWalk
import BlackboxProfiling.ByteMemory
import BlackboxProfiling.EventRun
import BlackboxProfiling.NulTable
import BlackboxProfiling.StutterRun
import BlackboxProfiling.Kernel.AddressSpace
import BlackboxProfiling.Kernel.Processes
import BlackboxProfiling.Kernel.Populate
import BlackboxProfiling.Kernel.PageModifier
import BlackboxProfiling.Kernel.BothMultiple
import BlackboxProfiling.Kernel.FunctimeKernelModule
import BlackboxProfiling.Kernel.LaterFaults
import BlackboxProfiling.Kernel.AllCacheableExceptOne
import BlackboxProfiling.Kernel.SdVbs
import BlackboxProfiling.Kernel.ModuleAgreement
import BlackboxProfiling.Functime.ProfilePhase
import BlackboxProfiling.Functime.ProcMaps
import BlackboxProfiling.Functime.Ptrace
import BlackboxProfiling.Functime.TraceEvent
import BlackboxProfiling.Functime.StopSignals
import BlackboxProfiling.Functime.TraceeSequence
import BlackboxProfiling.Functime.Transparency
import BlackboxProfiling.Elf.Libelf
import BlackboxProfiling.Elf.ElfManipulator
import BlackboxProfiling.Elf.UpdateProfile
import BlackboxProfiling.Elf.Reprofile
import BlackboxProfiling.ComparisonSort
import BlackboxProfiling.Functime.SecondPhase
import BlackboxProfiling.ByteRanges
import BlackboxProfiling.Elf.Elfie
import BlackboxProfiling.Elf.ElfieLayout
import BlackboxProfiling.Elf.ElfieProfile
import BlackboxProfiling.Elf.LoadedSegments
import BlackboxProfiling.Functime.ChildEvents
import BlackboxProfiling.Functime.RequestPids
import BlackboxProfiling.BlockMemory
import BlackboxProfiling.Kernel.WriteSteps
import BlackboxProfiling.Kernel.ConcurrentWrites
import BlackboxProfiling.Kernel.FillingParams
import BlackboxProfiling.Kernel.FailedCopies
import BlackboxProfiling.CacheMaintenance
import BlackboxProfiling.Kernel.CacheLines
import BlackboxProfiling.Kernel.RangeSplitting
import BlackboxProfiling.Kernel.PteFlags
import BlackboxProfiling.Kernel.RequestOrder
import BlackboxProfiling.Functime.ChildLoop
import BlackboxProfiling.Functime.SampleMean
import BlackboxProfiling.Kernel.MappedPages
import BlackboxProfiling.Kernel.BufferIndices
import BlackboxProfiling.Functime.PtraceFailures
import BlackboxProfiling.CallTrace
import BlackboxProfiling.Functime.MeasuredCall
import BlackboxProfiling.Elf.SectionEnd
import BlackboxProfiling.Elf.HandleLifetimes
import BlackboxProfiling.Elf.ProfileReads
import BlackboxProfiling.Kernel.HeapFrame
import BlackboxProfiling.Functime.DriverArrays
import BlackboxProfiling.Functime.ResolveSymbol
import BlackboxProfiling.Functime.MapsText
import BlackboxProfiling.Functime.MapsReadings
import BlackboxProfiling.CountingSort
import BlackboxProfiling.DisjointSets
import BlackboxProfiling.Functime.Experiment
import BlackboxProfiling.SdVbs.Images
import BlackboxProfiling.SdVbs.Mser
import BlackboxProfiling.SdVbs.MserAreas
import BlackboxProfiling.ForestSums
import BlackboxProfiling.SdVbs.MserEllipses
import BlackboxProfiling.SdVbs.MserResult
import BlackboxProfiling.GreedySelection
import BlackboxProfiling.SdVbs.Anms
import BlackboxProfiling.SdVbs.SegmentGraph
import BlackboxProfiling.SdVbs.SegmentImage
import BlackboxProfiling.ByteStream
import BlackboxProfiling.IntegerText
import BlackboxProfiling.SdVbs.Bitmaps
import BlackboxProfiling.SdVbs.ScriptMser
import BlackboxProfiling.SdVbs.SelfCheck
import BlackboxProfiling.SdVbs.Timing
