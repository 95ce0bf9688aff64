import Mathlib.Logic.Function.Basic

/-! Unified shared memory of a context (`extension/intel_unified_shared_memory`): its allocations, the
kernels and commands that use them, and the events that the allocations keep for a blocking free. -/

namespace ConstructionKit.Usm

open Function

/-- `host_allocation_info`, `device_allocation_info` or `shared_allocation_info`, with its device. -/
inductive Placement where
  | host
  | device (device : Nat)
  | shared (device : Option Nat)
deriving DecidableEq, Repr

/-- `allocation_info`, with the identity of the object.  Its `queued_commands` are in the context. -/
structure AllocationInfo where
  id : Nat
  placement : Placement
  basePtr : Nat
  size : Nat
deriving DecidableEq, Repr

namespace AllocationInfo

def getDevice (a : AllocationInfo) : Option Nat :=
  match a.placement with
  | .host => none
  | .device device => some device
  | .shared device => device

def isOwnerOf (a : AllocationInfo) (ptr : Nat) : Bool := a.basePtr ≤ ptr && ptr < a.basePtr + a.size

/-- Whether `getMuxBufferForDevice` has a buffer; `supportsHost` is `deviceSupportsHostAllocations`. -/
def hasMuxBufferForDevice (a : AllocationInfo) (supportsHost : Nat → Bool) (queryDevice : Nat) : Bool :=
  match a.placement with
  | .host => supportsHost queryDevice
  | .device device => queryDevice = device
  | .shared none => false
  | .shared (some device) => queryDevice = device

end AllocationInfo

/-- The fields of `_cl_kernel` about unified shared memory: the arguments that
`clSetKernelArgMemPointerINTEL` has set, the allocations that `clSetKernelExecInfo` has listed, and
`kernel_exec_info_usm_flags`. -/
structure Kernel where
  savedArgs : Nat → Option Nat
  indirectUsmAllocs : List (Option Nat)
  indirectHostAccess : Bool
  indirectDeviceAccess : Bool
  indirectSharedAccess : Bool

/-- A context; `finished` are the events whose `command_status` is `CL_COMPLETE` or an error. -/
structure Context where
  supportsHost : Nat → Bool
  usmAllocations : List AllocationInfo
  queuedCommands : Nat → List Nat
  kernels : Nat → Kernel
  finished : Nat → Bool
  nextAllocation : Nat
  nextEvent : Nat

namespace Context

def create (supportsHost : Nat → Bool) : Context where
  supportsHost
  usmAllocations := []
  queuedCommands _ := []
  kernels _ := ⟨fun _ => none, [], false, false, false⟩
  finished _ := false
  nextAllocation := 0
  nextEvent := 0

variable (s : Context)

def findAllocation (ptr : Nat) : Option AllocationInfo :=
  s.usmAllocations.find? (·.isOwnerOf ptr)

/-- `allocation_info::record_event` -/
def recordEvent (id event : Nat) : Context :=
  { s with queuedCommands := update s.queuedCommands id (s.queuedCommands id ++ [event]) }

def recordEvents (ids : List Nat) (event : Nat) : Context :=
  ids.foldl (fun s id => s.recordEvent id event) s

/-- `_cl_event::complete` -/
def complete (event : Nat) : Context :=
  { s with finished := update s.finished event true }

/-- `_cl_event::create` -/
def createEvent : Nat × Context := (s.nextEvent, { s with nextEvent := s.nextEvent + 1 })

/-! ### Allocations -/

/-- `clHostMemAllocINTEL`, `clDeviceMemAllocINTEL` and `clSharedMemAllocINTEL`; what they allocate is at
`basePtr`, outside of the other allocations. -/
def memAlloc (placement : Placement) (basePtr size : Nat) : Context :=
  if size = 0 ∨ basePtr = 0 ∨
      ¬s.usmAllocations.all fun a => a.basePtr + a.size ≤ basePtr || basePtr + size ≤ a.basePtr then s
  else { s with
    usmAllocations := s.usmAllocations ++ [⟨s.nextAllocation, placement, basePtr, size⟩]
    nextAllocation := s.nextAllocation + 1 }

/-- `clMemFreeINTEL` -/
def memFree (ptr : Nat) : Context :=
  if ptr = 0 then s else { s with usmAllocations := s.usmAllocations.eraseP (·.basePtr = ptr) }

/-- `clMemBlockingFreeINTEL`, which returns once the events of the allocation are finished. -/
def memBlockingFree (ptr : Nat) : Option Context :=
  if ptr = 0 then some s
  else match s.usmAllocations.find? (·.basePtr = ptr) with
    | none => some s
    | some a =>
      if (s.queuedCommands a.id).all s.finished then
        some { s with usmAllocations := s.usmAllocations.eraseP (·.basePtr = ptr) }
      else none

/-! ### Kernels -/

def setKernel (kernel : Nat) (value : Kernel) : Context :=
  { s with kernels := update s.kernels kernel value }

/-- `clSetKernelArgMemPointerINTEL`, and none for the other ways to set an argument. -/
def setKernelArg (kernel argIndex : Nat) (ptr : Option Nat) : Context :=
  let k := s.kernels kernel
  s.setKernel kernel { k with savedArgs := update k.savedArgs argIndex ptr }

/-- `CL_KERNEL_EXEC_INFO_USM_PTRS_INTEL` of `SetKernelExecInfo`. -/
def setUsmPtrs (kernel : Nat) (usmPointers : List Nat) : Context :=
  s.setKernel kernel { s.kernels kernel with
    indirectUsmAllocs := usmPointers.map fun ptr => (s.findAllocation ptr).map (·.id) }

/-- The flags of `SetKernelExecInfo`. -/
def setIndirectAccess (kernel : Nat) (host device shared : Bool) : Context :=
  s.setKernel kernel { s.kernels kernel with
    indirectHostAccess := host
    indirectDeviceAccess := device
    indirectSharedAccess := shared }

/-- The allocations that `createBlockingEventForKernel` takes for ones that are used indirectly. -/
def isIndirectAlloc (k : Kernel) (a : AllocationInfo) : Bool :=
  let hostAlloc := a.getDevice.isNone
  (hostAlloc && k.indirectHostAccess) || (!hostAlloc && k.indirectDeviceAccess)

/-- `createBlockingEventForKernel` with the event it has created. -/
def createBlockingEventForKernel (kernel event : Nat) : Context :=
  let k := s.kernels kernel
  let s := s.recordEvents (k.indirectUsmAllocs.filterMap fun alloc => alloc) event
  if k.indirectHostAccess || k.indirectDeviceAccess || k.indirectSharedAccess then
    s.recordEvents ((s.usmAllocations.filter (isIndirectAlloc k)).map (·.id)) event
  else s

/-! ### Commands: whether they are enqueued, and the context after the call -/

/-- `EnqueueNDRangeKernel`; `accepted` is that `PushExecuteKernel` succeeds. -/
def enqueueNDRangeKernel (kernel : Nat) (accepted : Bool) : Bool × Context :=
  let (event, s) := s.createEvent
  (accepted, s.createBlockingEventForKernel kernel event)

/-- `ExamineUSMAlloc`: whether there is a buffer. -/
def examineUSMAlloc (a : AllocationInfo) (queueDevice event : Nat) : Bool × Context :=
  (a.hasMuxBufferForDevice s.supportsHost (a.getDevice.getD queueDevice), s.recordEvent a.id event)

/-- An operand of a copy; other memory of the application gets a buffer of its own. -/
def examineOperand (ptr queueDevice event : Nat) : Bool × Context :=
  match s.findAllocation ptr with
  | none => (true, s)
  | some a => s.examineUSMAlloc a queueDevice event

/-- `MemFillImpl`; `accepted` is that the mux command is.  Without a buffer the event is never
completed. -/
def memFill (queueDevice dstPtr : Nat) (accepted : Bool) : Bool × Context :=
  let (event, s) := s.createEvent
  let (hasBuffer, s) := s.examineOperand dstPtr queueDevice event
  if !hasBuffer then (false, s)
  else if accepted then (true, s)
  else (false, s.complete event)

/-- The check for `CL_MEM_COPY_OVERLAP`. -/
def copyOverlap (dstPtr srcPtr size : Nat) : Bool :=
  if dstPtr < srcPtr then srcPtr < dstPtr + size else dstPtr < srcPtr + size

/-- `clEnqueueMemcpyINTEL` -/
def memcpy (queueDevice dstPtr srcPtr size : Nat) (accepted : Bool) : Bool × Context :=
  if copyOverlap dstPtr srcPtr size then (false, s)
  else
    let (event, s) := s.createEvent
    let (hasSrc, s) := s.examineOperand srcPtr queueDevice event
    let (hasDst, s) := s.examineOperand dstPtr queueDevice event
    if hasSrc && hasDst && accepted then (true, s) else (false, s.complete event)

/-- `clEnqueueMigrateMemINTEL` -/
def migrateMem (ptr size : Nat) : Bool × Context :=
  let (event, s) := s.createEvent
  match s.findAllocation ptr with
  | none => (false, s)
  | some a =>
    if a.size - (ptr - a.basePtr) < size then (false, s) else (true, s.recordEvent a.id event)

end Context

inductive Step where
  | memAlloc (placement : Placement) (basePtr size : Nat)
  | memFree (ptr : Nat)
  | memBlockingFree (ptr : Nat)
  | setKernelArg (kernel argIndex : Nat) (ptr : Option Nat)
  | setUsmPtrs (kernel : Nat) (usmPointers : List Nat)
  | setIndirectAccess (kernel : Nat) (host device shared : Bool)
  | ndRangeKernel (kernel : Nat) (accepted : Bool)
  | memFill (queueDevice dstPtr : Nat) (accepted : Bool)
  | memcpy (queueDevice dstPtr srcPtr size : Nat) (accepted : Bool)
  | migrateMem (ptr size : Nat)
  | complete (event : Nat)
deriving DecidableEq, Repr

/-- A step, and whether it enqueues a command.  A blocking free that still waits has no result. -/
def Context.step (s : Context) : Step → Option (Bool × Context)
  | .memAlloc placement basePtr size => some (false, s.memAlloc placement basePtr size)
  | .memFree ptr => some (false, s.memFree ptr)
  | .memBlockingFree ptr => (s.memBlockingFree ptr).map (false, ·)
  | .setKernelArg kernel argIndex ptr => some (false, s.setKernelArg kernel argIndex ptr)
  | .setUsmPtrs kernel usmPointers => some (false, s.setUsmPtrs kernel usmPointers)
  | .setIndirectAccess kernel host device shared =>
    some (false, s.setIndirectAccess kernel host device shared)
  | .ndRangeKernel kernel accepted => some (s.enqueueNDRangeKernel kernel accepted)
  | .memFill queueDevice dstPtr accepted => some (s.memFill queueDevice dstPtr accepted)
  | .memcpy queueDevice dstPtr srcPtr size accepted =>
    some (s.memcpy queueDevice dstPtr srcPtr size accepted)
  | .migrateMem ptr size => some (s.migrateMem ptr size)
  | .complete event => some (false, s.complete event)

end ConstructionKit.Usm
