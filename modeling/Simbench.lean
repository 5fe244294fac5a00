import Simbench.Analysis.Armv8Refinement
import Simbench.Analysis.Armv8Provenance
import Simbench.Analysis.Armv8TableCount
import Simbench.Analysis.X86Refinement
import Simbench.Analysis.X86DecodeDisplacement
import Simbench.Analysis.PrintfNumerals
import Simbench.Analysis.HostOutput
import Simbench.Analysis.ArmSectionRuns
import Simbench.Analysis.HarnessFraming
import Simbench.Analysis.X86HeapStack
import Simbench.Analysis.X86HeapUse
import Simbench.Analysis.X86TrapFrames
import Simbench.Analysis.Armv8VectorWrites
import Simbench.Analysis.ArmCoreVersion
import Simbench.Analysis.Armv8IrqMask
import Simbench.Analysis.Armv8HandlerHistory
import Simbench.Analysis.Armv8MemoryRuns
import Simbench.Analysis.PrintfTruncation
import Simbench.Analysis.ArmSectionRequests
import Simbench.Analysis.RegionLoops
import Simbench.Analysis.Armv8Permissions
import Simbench.Analysis.HarnessIterations
import Simbench.Analysis.X86DecodeFields
import Simbench.Analysis.MappingStatus
import Simbench.Analysis.X86IdentityMap
import Simbench.Analysis.ConsoleAttributes
import Simbench.Analysis.CmdlineWords
import Simbench.Analysis.PrintfConversions
import Simbench.Analysis.PrintfComposition
import Simbench.Analysis.MemoryCopies
import Simbench.Analysis.HarnessBrackets
import Simbench.Analysis.MemoryKernelPages
import Simbench.Analysis.HostTermination
import Simbench.Analysis.X86BootPaths
import Simbench.Analysis.ArmCacheLines
import Simbench.Analysis.ArmExceptionHandlers
import Simbench.Analysis.X86Interrupts
import Simbench.Analysis.X86BenchmarkRuns
