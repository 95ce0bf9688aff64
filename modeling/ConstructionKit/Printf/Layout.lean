import ConstructionKit.NDRange.Enqueue

/-! How the printf buffer is cut into one chunk for each work-group.  Three pieces of code compute
it: the function that `PrintfReplacementPass::rewritePrintfCall` generates for the device, in
32-bit arithmetic; `createPrintfBuffer` (`source/cl/source/printf.cpp`), which initialises the
chunks; and `builtins::printf::print`, which reads them.  The host computes in `size_t`, and the
device has 64-bit pointers. -/

namespace ConstructionKit.Printf

open NDRange (Dim3)

/-! ### The device -/

/-- The index of a work-group in the buffer.  `nums` and `id` are the results of `get_num_groups`
and `get_group_id`, which the generated code truncates to `i32`. -/
def groupAddr (nums id : Dim3) : UInt32 :=
  (id 0).toUInt32 + ((nums 0).toUInt32 * (id 1).toUInt32 +
    (id 2).toUInt32 * ((nums 1).toUInt32 * (nums 2).toUInt32))

/-- The bytes available to a work-group, rounded down to a multiple of 4. -/
def groupBufferSize (printfBufferSize : UInt64) (nums : Dim3) : UInt32 :=
  (printfBufferSize.toUInt32 /
    ((nums 0).toUInt32 * ((nums 1).toUInt32 * (nums 2).toUInt32))) &&& ~~~3

/-- The bytes by which `getelementptr i8` with an `i32` index moves a 64-bit pointer: the index is
sign-extended. -/
def gepOffset (index : UInt32) : Int := index.toBitVec.toInt

/-- Offset and size of the chunk that the generated code uses. -/
def deviceChunk (printfBufferSize : UInt64) (nums id : Dim3) : Int × Nat :=
  (gepOffset (groupAddr nums id * groupBufferSize printfBufferSize nums),
    (groupBufferSize printfBufferSize nums).toNat)

/-! ### The host -/

/-- The number of work-groups, the bytes for each, and the `uint32_t` stores, as pairs of an index
and a value, that `createPrintfBuffer` makes in the mapped buffer. -/
structure PrintfBuffer where
  numGroups : UInt64
  bufferGroupSize : UInt64
  stores : List (UInt64 × UInt32)

/-- The stores of one iteration of the loop over the work-groups: 8 bytes of length, no overflow. -/
def initStores (bufferGroupSize groupId : UInt64) : List (UInt64 × UInt32) :=
  let index := groupId * bufferGroupSize / 4
  [(index, 8), (index + 1, 0)]

/-- `none` is `CL_OUT_OF_RESOURCES` for want of space; the allocations of the device succeed. -/
def createPrintfBuffer (printfBufferSize : UInt64) (localWorkSize globalWorkSize : Dim3) :
    Option PrintfBuffer :=
  let numGroups := globalWorkSize 0 * globalWorkSize 1 * globalWorkSize 2 /
    (localWorkSize 0 * localWorkSize 1 * localWorkSize 2)
  -- `~3u` is 32 bits wide, so it clears the upper half of a `size_t` too
  let bufferGroupSize := printfBufferSize / numGroups &&& 0xFFFFFFFC
  if bufferGroupSize < 8 then none
  else some ⟨numGroups, bufferGroupSize,
    (List.range numGroups.toNat).flatMap fun groupId =>
      initStores bufferGroupSize (UInt64.ofNat groupId)⟩

/-- Offset and size of the chunk that `print` reads in iteration `i`, with
`max_length = buffer_group_size`. -/
def printChunk (buffer : PrintfBuffer) (i : UInt64) : Int × Nat :=
  ((i * buffer.bufferGroupSize).toNat, buffer.bufferGroupSize.toNat)

/-- The chunks that `print` reads: `group_offsets` has one element for each work-group. -/
def printChunks (buffer : PrintfBuffer) : List (Int × Nat) :=
  (List.range buffer.numGroups.toNat).map fun i => printChunk buffer (UInt64.ofNat i)

end ConstructionKit.Printf
