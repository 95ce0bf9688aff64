import ConstructionKit.NDRange.Legal
import ConstructionKit.Printf.Printing
import ConstructionKit.Mangling.SingleTypes
import ConstructionKit.Image.Bounds
import ConstructionKit.Mem.Overlap
import ConstructionKit.Queue.Orphans
import ConstructionKit.Queue.Order
import ConstructionKit.Binary.RoundTrip
import ConstructionKit.Args.Agreement
import ConstructionKit.Loader.Branch
import ConstructionKit.Loader.StubSpace
import ConstructionKit.Hal.Sound
import ConstructionKit.Metadata.Keys
import ConstructionKit.Metadata.Bounds
import ConstructionKit.Metadata.RoundTrip
import ConstructionKit.Metadata.Records
import ConstructionKit.Host.EntryHook
import ConstructionKit.Compiler.Recursion
import ConstructionKit.Compiler.SubGroups
import ConstructionKit.Compiler.WorkGroupScan
import ConstructionKit.Host.Failure
import ConstructionKit.Host.WorkQueue
import ConstructionKit.Riscv.Dependencies
import ConstructionKit.Host.FillBuffer
import ConstructionKit.Mux.Clones
import ConstructionKit.Mux.KernelVariants
import ConstructionKit.Cargo.SmallVectorRuns
import ConstructionKit.Cargo.Comparison
import ConstructionKit.Cargo.RingBuffer
import ConstructionKit.Cl.RefCountRuns
import ConstructionKit.Clik.Steps
import ConstructionKit.Ur.Dependencies
import ConstructionKit.Ur.Coherence
import ConstructionKit.Cl.Coherence
import ConstructionKit.Khr.ExecutionTracking
import ConstructionKit.Khr.MutableUpdates
import ConstructionKit.Khr.CommandHandles
import ConstructionKit.Usm.BlockingFree
import ConstructionKit.Compiler.AlignedOffsets
import ConstructionKit.Vecz.StrideSoundness
import ConstructionKit.Image.CopyOverlap
import ConstructionKit.ClBuffer.CopyOverlap
import ConstructionKit.ClBuffer.RectRanges
import ConstructionKit.Printf.Specifiers
import ConstructionKit.Vk.DynamicOffsets
import ConstructionKit.Spirv.Iterator
import ConstructionKit.Vecz.FunctionNames
import ConstructionKit.Hal.ElfSymbols
import ConstructionKit.Hal.Upload
