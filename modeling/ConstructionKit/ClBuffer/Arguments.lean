import Mathlib.Data.UInt
import ConstructionKit.ProofKit.MixedRadix

/-! The checks that the entry points for buffers make of their arguments
(`source/cl/source/buffer.cpp`, `source/cl/source/validate.cpp`).  Offsets, sizes and pitches are
`size_t` of 64 bits, so that sums and products wrap.  A handle is a number, `none` is null;
the context of a queue or a buffer is not null. -/

namespace ConstructionKit.ClBuffer

inductive Code where
  | invalidCommandQueue | invalidContext | invalidMemObject | invalidValue | invalidBufferSize
  | invalidOperation | misalignedSubBufferOffset | memCopyOverlap
  | invalidEventWaitList | execStatusErrorForEventsInWaitList
deriving DecidableEq, Repr

/-- `OCL_CHECK(condition, return code)`. -/
def oclCheck (condition : Prop) [Decidable condition] (code : Code) : Except Code Unit :=
  if condition then .error code else .ok ()

section

variable {condition : Prop} [Decidable condition] {code : Code} {α : Type}
  {rest : Unit → Except Code α} {a : α}

@[simp] theorem oclCheck_eq_ok_iff : oclCheck condition code = .ok () ↔ ¬condition := by
  unfold oclCheck
  split <;> simp_all

/-- The checks of a call pass if and only if none of their conditions holds. -/
@[simp] theorem oclCheck_bind_eq_ok_iff :
    (oclCheck condition code >>= rest) = .ok a ↔ ¬condition ∧ rest () = .ok a := by
  unfold oclCheck
  split
  · next h => exact iff_of_false (by rintro ⟨⟩) fun h' => h'.1 h
  · next h => exact ⟨fun h' => ⟨h, h'⟩, fun h' => h'.2⟩

theorem oclCheck_bind_of_not (h : ¬condition) : (oclCheck condition code >>= rest) = rest () := by
  rw [oclCheck, if_neg h]
  rfl

theorem oclCheck_eq_error_iff : oclCheck condition code = .error code ↔ condition := by
  unfold oclCheck
  split <;> simp_all

end

/-! ### Objects -/

/-- A `_cl_mem_buffer`, without the objects of the device library. -/
structure Buffer where
  context : Nat
  flags : UInt64
  size : UInt64
  optionalParent : Option Nat
  offset : UInt64
deriving DecidableEq, Repr

def memReadWrite : UInt64 := 1
def memWriteOnly : UInt64 := 2
def memReadOnly : UInt64 := 4
def memUseHostPtr : UInt64 := 8
def memAllocHostPtr : UInt64 := 16
def memCopyHostPtr : UInt64 := 32
def memHostWriteOnly : UInt64 := 128
def memHostReadOnly : UInt64 := 256
def memHostNoAccess : UInt64 := 512

/-- `CL_BUFFER_CREATE_TYPE_REGION` -/
def bufferCreateTypeRegion : UInt32 := 0x1220

/-- `cl::validate::IsInBitSet` -/
def isInBitSet {w : Nat} (bitset value : BitVec w) : Bool := value == (value &&& bitset)

def Buffer.has (buffer : Buffer) (flag : UInt64) : Bool :=
  isInBitSet buffer.flags.toBitVec flag.toBitVec

abbrev Triple := Fin 3 → UInt64

/-! ### Linear ranges -/

/-- The checks of a `cl_buffer_region` in `cl::CreateSubBuffer`. -/
def createSubBufferRange (bufferSize origin size : UInt64) : Except Code Unit := do
  oclCheck (origin + size > bufferSize) .invalidValue
  oclCheck (0 = size) .invalidBufferSize

/-- The flags that are missing are those of the parent. -/
def inheritFlags (flags mask parentFlags : UInt64) : UInt64 :=
  if mask &&& flags = 0 then flags ||| (mask &&& parentFlags) else flags

/-- The checks of `cl::CreateSubBuffer`, which give the flags of the sub-buffer.  `aligns` are the
`mem_base_addr_align` of the devices of the context, `info` is the origin and the size. -/
def createSubBufferArguments (objects : Nat → Buffer) (aligns : List UInt32) (buffer : Option Nat)
    (flags : UInt64) (bufferCreateType : UInt32) (info : Option (UInt64 × UInt64)) :
    Except Code UInt64 := do
  let some buffer := buffer | .error .invalidMemObject
  let parent := objects buffer
  let flags := inheritFlags flags (memReadWrite ||| memReadOnly ||| memWriteOnly) parent.flags
  let ptrMask := memUseHostPtr ||| memAllocHostPtr ||| memCopyHostPtr
  oclCheck (ptrMask &&& flags ≠ 0) .invalidValue
  let flags := inheritFlags flags ptrMask parent.flags
  let flags := inheritFlags flags (memHostWriteOnly ||| memHostReadOnly ||| memHostNoAccess)
    parent.flags
  let given (flag : UInt64) : Bool := isInBitSet flags.toBitVec flag.toBitVec
  oclCheck (parent.has memWriteOnly ∧ (given memReadWrite ∨ given memReadOnly)) .invalidValue
  oclCheck (parent.has memReadOnly ∧ (given memReadWrite ∨ given memWriteOnly)) .invalidValue
  oclCheck (parent.has memHostWriteOnly ∧ given memHostReadOnly) .invalidValue
  oclCheck (parent.has memHostReadOnly ∧ given memHostWriteOnly) .invalidValue
  oclCheck (parent.has memHostNoAccess ∧ (given memHostReadOnly ∨ given memHostWriteOnly))
    .invalidValue
  oclCheck (¬isInBitSet bufferCreateType.toBitVec bufferCreateTypeRegion.toBitVec) .invalidValue
  let some (origin, size) := info | .error .invalidValue
  createSubBufferRange parent.size origin size
  oclCheck (aligns.all fun align => origin &&& (align / 8 - 1).toUInt64 != 0)
    .misalignedSubBufferOffset
  return flags

/-- The checks of the range in `cl::EnqueueMapBuffer`. -/
def enqueueMapBufferRange (bufferSize offset size : UInt64) : Except Code Unit := do
  oclCheck (offset > bufferSize) .invalidValue
  oclCheck (offset + size > bufferSize) .invalidValue
  oclCheck (0 = size) .invalidValue

/-- The checks of the range and the pointer that reading and writing share. -/
def transferRange (bufferSize offset size : UInt64) (ptr : Nat) : Except Code Unit := do
  oclCheck (bufferSize < offset + size) .invalidValue
  oclCheck (ptr = 0) .invalidValue
  oclCheck (0 = size) .invalidValue

/-- The checks that reading and writing share; `hostDenied` is the flag that forbids the access.
`eventWaitList` is the result of `cl::validate::EventWaitList`. -/
def transferArguments (hostDenied : UInt64) (objects : Nat → Buffer) (commandQueue : Option Nat)
    (buffer : Option Nat) (offset size : UInt64) (ptr : Nat) (eventWaitList : Except Code Unit) :
    Except Code Unit := do
  let some context := commandQueue | .error .invalidCommandQueue
  let some buffer := buffer | .error .invalidMemObject
  oclCheck (context ≠ (objects buffer).context) .invalidContext
  transferRange (objects buffer).size offset size ptr
  oclCheck ((objects buffer).has hostDenied) .invalidOperation
  oclCheck ((objects buffer).has memHostNoAccess) .invalidOperation
  eventWaitList

/-- The checks of `cl::EnqueueWriteBuffer`.  `commandQueue` is the context of the queue. -/
def enqueueWriteBufferArguments := transferArguments memHostReadOnly

/-- The checks of `cl::EnqueueReadBuffer`. -/
def enqueueReadBufferArguments := transferArguments memHostWriteOnly

/-- The checks of the range in `FillBufferArguments`. -/
def fillBufferRange (bufferSize offset size : UInt64) : Except Code Unit := do
  oclCheck (offset > bufferSize) .invalidValue
  oclCheck (offset + size > bufferSize) .invalidValue

/-- `cl::validate::FillBufferArguments`.  `context` is that of the queue. -/
def fillBufferArguments (objects : Nat → Buffer) (context : Nat) (buffer : Option Nat)
    (pattern : Nat) (patternSize offset size : UInt64) : Except Code Unit := do
  let some buffer := buffer | .error .invalidMemObject
  oclCheck (context ≠ (objects buffer).context) .invalidContext
  oclCheck (pattern = 0) .invalidValue
  fillBufferRange (objects buffer).size offset size
  oclCheck (patternSize = 0) .invalidValue
  oclCheck (patternSize ∉ [1, 2, 4, 8, 16, 32, 64, 128]) .invalidValue
  oclCheck (offset % patternSize ≠ 0) .invalidValue
  oclCheck (size % patternSize ≠ 0) .invalidValue

/-- The checks of the ranges in `CopyBufferArguments`. -/
def copyBufferRange (srcSize dstSize srcOffset dstOffset size : UInt64) : Except Code Unit := do
  oclCheck (srcOffset > srcSize) .invalidValue
  oclCheck (dstOffset > dstSize) .invalidValue
  oclCheck (size > srcSize ∨ size > dstSize) .invalidValue
  oclCheck (srcOffset + size > srcSize) .invalidValue
  oclCheck (dstOffset + size > dstSize) .invalidValue
  oclCheck (size = 0) .invalidValue

/-- `IN_RANGE` -/
def inRange (x start stop : UInt64) : Bool := x ≥ start && x < stop

/-- `RANGES_OVERLAP` -/
def rangesOverlap (startX endX startY endY : UInt64) : Bool :=
  inRange startY startX endX || inRange (endY - 1) startX endX

/-- Where two copies of `CopyBufferArguments` start, and the sizes of the buffers that they are
in, which are 0 if it takes the buffers for unrelated. -/
structure Extents where
  srcStart : UInt64
  dstStart : UInt64
  srcBufferSize : UInt64
  dstBufferSize : UInt64
deriving DecidableEq, Repr

/-- The cases that `CopyBufferArguments` makes of the relation between the two buffers. -/
def copyExtents (objects : Nat → Buffer) (src dst : Nat) (srcOffset dstOffset : UInt64) : Extents :=
  let parentSize (buffer : Nat) : UInt64 :=
    ((objects buffer).optionalParent.map fun parent => (objects parent).size).getD 0
  if src = dst then ⟨srcOffset, dstOffset, (objects src).size, (objects dst).size⟩
  else if (objects dst).optionalParent = some src then
    ⟨srcOffset, dstOffset + (objects dst).offset, (objects src).size, parentSize dst⟩
  else if (objects src).optionalParent = some dst then
    ⟨srcOffset + (objects src).offset, dstOffset, parentSize src, (objects dst).size⟩
  else if (objects src).optionalParent.isSome ∧ (objects dst).optionalParent.isSome ∧
      (objects src).optionalParent = (objects dst).optionalParent then
    ⟨srcOffset + (objects src).offset, dstOffset + (objects dst).offset, parentSize src,
      parentSize dst⟩
  else ⟨srcOffset, dstOffset, 0, 0⟩

/-- `cl::validate::CopyBufferArguments`.  `context` is that of the queue. -/
def copyBufferArguments (objects : Nat → Buffer) (context : Nat) (srcBuffer dstBuffer : Option Nat)
    (srcOffset dstOffset size : UInt64) : Except Code Unit := do
  let some src := srcBuffer | .error .invalidMemObject
  let some dst := dstBuffer | .error .invalidMemObject
  oclCheck ((objects dst).context ≠ (objects src).context) .invalidContext
  oclCheck (context ≠ (objects src).context) .invalidContext
  copyBufferRange (objects src).size (objects dst).size srcOffset dstOffset size
  let e := copyExtents objects src dst srcOffset dstOffset
  oclCheck (e.srcBufferSize ≠ 0 ∧ e.dstBufferSize ≠ 0 ∧
      rangesOverlap e.srcStart (e.srcStart + size) e.dstStart (e.dstStart + size))
    .memCopyOverlap

/-! ### Rectangles -/

/-- A row and a slice pitch. -/
structure Pitches where
  row : UInt64
  slice : UInt64
deriving DecidableEq, Repr

/-- A pitch of 0 stands for the packed one. -/
def Pitches.orDefault (pitches : Pitches) (region : Triple) : Pitches :=
  let row := if pitches.row = 0 then region 0 else pitches.row
  ⟨row, if pitches.slice = 0 then region 1 * row else pitches.slice⟩

/-- Where the last row of a region ends. -/
def rectEnd (origin region : Triple) (pitches : Pitches) : UInt64 :=
  (origin 2 + region 2 - 1) * pitches.slice + (origin 1 + region 1 - 1) * pitches.row +
    (origin 0 + region 0)

def volume (sides : Triple) : UInt64 := sides 0 * sides 1 * sides 2

/-- The checks of origin, region and pitches that `cl::EnqueueReadBufferRect` and
`cl::EnqueueWriteBufferRect` share, after the pitches have got their defaults. -/
def transferRectBounds (bufferSize : UInt64) (origin region : Triple) (buffer host : Pitches) :
    Except Code Unit := do
  oclCheck (region 0 = 0 ∨ region 1 = 0 ∨ region 2 = 0) .invalidValue
  oclCheck (volume region > bufferSize) .invalidValue
  oclCheck (volume origin > bufferSize) .invalidValue
  oclCheck (volume (origin + region) > bufferSize) .invalidValue
  oclCheck (rectEnd origin region buffer > bufferSize) .invalidValue
  oclCheck (buffer.row > bufferSize) .invalidValue
  oclCheck (buffer.slice > bufferSize) .invalidValue
  oclCheck (buffer.row ≠ 0 ∧ buffer.row < region 0) .invalidValue
  oclCheck (host.row ≠ 0 ∧ host.row < region 0) .invalidValue
  oclCheck (buffer.slice ≠ 0 ∧ buffer.slice < region 1 * buffer.row) .invalidValue
  oclCheck (buffer.slice ≠ 0 ∧ buffer.slice % buffer.row ≠ 0) .invalidValue
  oclCheck (host.slice ≠ 0 ∧ host.slice < region 1 * host.row) .invalidValue
  oclCheck (host.slice ≠ 0 ∧ host.slice % host.row ≠ 0) .invalidValue

/-- The checks that the two share.  `arrays` tells whether `buffer_origin`, `host_origin` and
`region` are given. -/
def transferRectArguments (hostDenied : UInt64) (objects : Nat → Buffer)
    (commandQueue buffer : Option Nat) (arrays : Bool) (origin region : Triple)
    (bufferPitches hostPitches : Pitches) (ptr : Nat) (eventWaitList : Except Code Unit) :
    Except Code Unit := do
  let some context := commandQueue | .error .invalidCommandQueue
  let some buffer := buffer | .error .invalidMemObject
  oclCheck (¬arrays ∨ ptr = 0) .invalidValue
  transferRectBounds (objects buffer).size origin region (bufferPitches.orDefault region)
    (hostPitches.orDefault region)
  oclCheck (context ≠ (objects buffer).context) .invalidContext
  eventWaitList
  oclCheck ((objects buffer).has hostDenied) .invalidOperation
  oclCheck ((objects buffer).has memHostNoAccess) .invalidOperation

/-- The checks of `cl::EnqueueWriteBufferRect`. -/
def enqueueWriteBufferRectArguments := transferRectArguments memHostReadOnly

/-- The checks of `cl::EnqueueReadBufferRect`. -/
def enqueueReadBufferRectArguments := transferRectArguments memHostWriteOnly

/-- The checks of origins, region and pitches in `CopyBufferRectArguments`. -/
def copyRectBounds (srcSize dstSize : UInt64) (srcOrigin dstOrigin region : Triple)
    (src dst : Pitches) : Except Code Unit := do
  oclCheck (region 0 = 0 ∨ region 1 = 0 ∨ region 2 = 0) .invalidValue
  oclCheck (src.row = 0 ∨ src.slice = 0 ∨ dst.row = 0 ∨ dst.slice = 0) .invalidValue
  oclCheck (rectEnd srcOrigin region src > srcSize) .invalidValue
  oclCheck (rectEnd dstOrigin region dst > dstSize) .invalidValue
  oclCheck (volume region > srcSize) .invalidValue
  oclCheck (volume region > dstSize) .invalidValue
  oclCheck (volume (srcOrigin + region) > srcSize) .invalidValue
  oclCheck (volume (dstOrigin + region) > dstSize) .invalidValue
  oclCheck (src.row ≠ 0 ∧ src.row < region 0) .invalidValue
  oclCheck (dst.row ≠ 0 ∧ dst.row < region 0) .invalidValue
  oclCheck (src.slice ≠ 0 ∧ src.slice < region 1 * src.row) .invalidValue
  oclCheck (dst.slice ≠ 0 ∧ dst.slice < region 1 * dst.row) .invalidValue
  oclCheck (src.slice ≠ 0 ∧ src.slice % src.row ≠ 0) .invalidValue
  oclCheck (dst.slice ≠ 0 ∧ dst.slice % dst.row ≠ 0) .invalidValue

/-- `cl::validate::CopyBufferRectArguments`, with the defaults that `cl::EnqueueCopyBufferRect`
gives to the pitches before.  `context` is that of the queue. -/
def copyBufferRectArguments (objects : Nat → Buffer) (context : Nat)
    (srcBuffer dstBuffer : Option Nat) (arrays : Bool) (srcOrigin dstOrigin region : Triple)
    (srcPitches dstPitches : Pitches) : Except Code Unit := do
  let some src := srcBuffer | .error .invalidMemObject
  let some dst := dstBuffer | .error .invalidMemObject
  oclCheck (¬arrays) .invalidValue
  oclCheck (context ≠ (objects src).context) .invalidContext
  oclCheck (context ≠ (objects dst).context) .invalidContext
  let srcPitches := srcPitches.orDefault region
  let dstPitches := dstPitches.orDefault region
  copyRectBounds (objects src).size (objects dst).size srcOrigin dstOrigin region srcPitches
    dstPitches
  oclCheck (src = dst ∧ (srcPitches.row ≠ dstPitches.row ∨ srcPitches.slice ≠ dstPitches.slice))
    .invalidValue

end ConstructionKit.ClBuffer
