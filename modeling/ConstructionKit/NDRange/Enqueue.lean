import Mathlib.Data.UInt
import ConstructionKit.ProofKit.MixedRadix
import ConstructionKit.Compiler.Info

/-! The size checks of `clEnqueueNDRangeKernel` (`source/cl/source/kernel.cpp`): the required
work-group size of the kernel, the limits of the device, and the local size that the runtime picks
when the user gives none.  Sizes are `size_t`, so products wrap modulo `2^64`. -/

namespace ConstructionKit.NDRange

open Compiler

/-- A `std::array<size_t, 3>`, or the array that a `const size_t *` argument points to, of which
the code reads the first `work_dim` elements. -/
abbrev Dim3 := Fin 3 → UInt64

/-- The error codes that the modelled checks return. -/
inductive Error where
  | invalidWorkDimension
  | invalidGlobalWorkSize
  | invalidWorkGroupSize
  | invalidWorkItemSize
  | invalidGlobalOffset
  | invalidKernelArgs
  | invalidEventWaitList
  | invalidContext
deriving DecidableEq, Repr

/-- The limits of a `_cl_device_id`. -/
structure Device where
  maxWorkItemDimensions : UInt32
  maxWorkGroupSize : UInt64
  maxWorkItemSizes : Dim3

/-- The fields of a `_cl_kernel` that the checks read.  `preferredLocalSize` is that of the
`mux_kernel_t` for the device of the queue. -/
structure Kernel where
  reqdWorkGroupSize : Option Dim3
  preferredLocalSize : Dim3
  savedArgs : List ArgumentKind

/-- The arguments of `clEnqueueNDRangeKernel`, with `none` for a null pointer.  `eventWaitList` is
the result of `cl::validate::EventWaitList`, which reads no size. -/
structure Request where
  workDim : UInt32
  globalWorkOffset : Option Dim3
  globalWorkSize : Option Dim3
  localWorkSize : Option Dim3
  eventWaitList : Except Error Unit

/-- The sizes that `PushExecuteKernel` receives. -/
structure Launch where
  globalOffset : Dim3
  globalSize : Dim3
  localSize : Dim3

/-- The outcome of a call.  `diverges` is a halving loop that has not ended within the number of
iterations given to it. -/
inductive Outcome (α : Type) where
  | ok (value : α)
  | error (code : Error)
  | diverges

def Outcome.bind {α β : Type} : Outcome α → (α → Outcome β) → Outcome β
  | .ok a, f => f a
  | .error e, _ => .error e
  | .diverges, _ => .diverges

/-- The dimensions that a loop `for (cl_uint i = 0; i < work_dim; ++i)` visits. -/
def dims (workDim : UInt32) : List (Fin 3) := [0, 1, 2].take workDim.toNat

/-- `OCL_CHECK(fails, return code)`. -/
def oclCheck (fails : Prop) [Decidable fails] (code : Error) : Except Error Unit :=
  if fails then .error code else .ok ()

/-- The first loop condition that fails, in the order of the loop. -/
def checkAll (check : Fin 3 → Except Error Unit) : List (Fin 3) → Except Error Unit
  | [] => .ok ()
  | i :: is => match check i with
    | .ok () => checkAll check is
    | .error e => .error e

/-- `_cl_kernel::checkReqdWorkGroupSize`: the local size to use from here on. -/
def checkReqdWorkGroupSize (kernel : Kernel) (workDim : UInt32) (localWorkSize : Option Dim3) :
    Except Error (Option Dim3) :=
  match kernel.reqdWorkGroupSize with
  | none => .ok localWorkSize
  | some reqd =>
    let localSize := localWorkSize.getD reqd
    match checkAll (fun i => oclCheck (localSize i ≠ reqd i) .invalidWorkGroupSize)
        (dims workDim) with
    | .ok () => .ok (some localSize)
    | .error e => .error e

/-- The checks on dimension `i` in `_cl_kernel::checkWorkSizes`.  `version21` tells whether
`CL_VERSION_2_1` is defined. -/
def checkWorkSize (version21 : Bool) (device : Device) (offset globalSize localSize : Option Dim3)
    (i : Fin 3) : Except Error Unit := do
  oclCheck (version21 = false ∧ ∃ g ∈ globalSize, g i = 0) .invalidGlobalWorkSize
  oclCheck (∃ l ∈ localSize, l i = 0) .invalidWorkGroupSize
  oclCheck (∃ l ∈ localSize, ∃ g ∈ globalSize, g i % l i ≠ 0) .invalidWorkGroupSize
  oclCheck (∃ l ∈ localSize, device.maxWorkGroupSize < l i) .invalidWorkGroupSize
  oclCheck (∃ l ∈ localSize, device.maxWorkItemSizes i < l i) .invalidWorkItemSize
  oclCheck (∃ g ∈ globalSize, ∃ o ∈ offset, g i + o i < g i) .invalidGlobalOffset

/-- The `totalWorkGroupSize` that `_cl_kernel::checkWorkSizes` accumulates, modulo `2^64`. -/
def totalWorkGroupSize : Option Dim3 → List (Fin 3) → UInt64
  | none, _ => 1
  | some l, is => is.foldl (fun total i => total * l i) 1

/-- `_cl_kernel::checkWorkSizes`. -/
def checkWorkSizes (version21 : Bool) (device : Device) (workDim : UInt32)
    (offset globalSize localSize : Option Dim3) : Except Error Unit :=
  match checkAll (checkWorkSize version21 device offset globalSize localSize) (dims workDim) with
  | .ok () =>
    oclCheck (device.maxWorkGroupSize < totalWorkGroupSize localSize (dims workDim))
      .invalidWorkGroupSize
  | .error e => .error e

/-- The loop of `_cl_kernel::getDefaultLocalSize`, which halves `alternative` until it divides the
global size.  `fuel` bounds the iterations. -/
def halvePreferredSize : Nat → UInt64 → UInt64 → Option UInt64
  | 0, _, _ => none
  | fuel + 1, globalSize, alternative =>
    if globalSize % alternative = 0 then some alternative
    else halvePreferredSize fuel globalSize (alternative / 2)

/-- The default local size of dimension `i`.  The loop runs at most once for each bit. -/
def defaultLocalSize (kernel : Kernel) (globalSize : Dim3) (i : Fin 3) : Option UInt64 :=
  if globalSize i % kernel.preferredLocalSize i = 0 then some (kernel.preferredLocalSize i)
  else halvePreferredSize 64 (globalSize i) (kernel.preferredLocalSize i)

/-- The `for` loop of `_cl_kernel::getDefaultLocalSize` over the dimensions `is`. -/
def defaultLocalSizes (kernel : Kernel) (globalSize : Dim3) : List (Fin 3) → Dim3 → Outcome Dim3
  | [], sizes => .ok sizes
  | i :: is, sizes => match defaultLocalSize kernel globalSize i with
    | some size => defaultLocalSizes kernel globalSize is (Function.update sizes i size)
    | none => .diverges

/-- `_cl_kernel::getDefaultLocalSize`. -/
def getDefaultLocalSize (kernel : Kernel) (globalSize : Option Dim3) (workDim : UInt32) :
    Outcome Dim3 :=
  match globalSize with
  | none => .ok kernel.preferredLocalSize
  | some g => defaultLocalSizes kernel g (dims workDim) fun _ => 1

/-- `_cl_kernel::checkKernelArgs`. -/
def checkKernelArgs (kernel : Kernel) : Except Error Unit :=
  oclCheck (.unknown ∈ kernel.savedArgs) .invalidKernelArgs

/-- `std::copy_n(from, work_dim, std::begin(to))` into an array filled with `fill`. -/
def copyN (source : Dim3) (workDim : UInt32) (fill : UInt64) : Dim3 :=
  fun i => if i.val < workDim.toNat then source i else fill

/-- `final_local_work_size`: the size given or required, or the default. -/
def finalLocalSize (kernel : Kernel) (globalSize : Dim3) (workDim : UInt32) :
    Option Dim3 → Outcome Dim3
  | some l => .ok (copyN l workDim 1)
  | none => getDefaultLocalSize kernel (some globalSize) workDim

/-- An `Except` as the outcome of a call that always returns. -/
def Outcome.ofExcept {α : Type} : Except Error α → Outcome α
  | .ok a => .ok a
  | .error e => .error e

/-- `cl::EnqueueNDRangeKernel`, from the check of `work_dim` to the call of `PushExecuteKernel`. -/
def enqueueNDRangeKernel (version21 : Bool) (device : Device) (kernel : Kernel) (req : Request) :
    Outcome Launch :=
  if req.workDim = 0 ∨ 3 < req.workDim ∨ device.maxWorkItemDimensions < req.workDim then
    .error .invalidWorkDimension
  else match req.globalWorkSize with
  | none => .error .invalidGlobalWorkSize
  | some globalSize =>
    (Outcome.ofExcept (checkReqdWorkGroupSize kernel req.workDim req.localWorkSize)).bind
      fun localWorkSize =>
    (Outcome.ofExcept (checkWorkSizes version21 device req.workDim req.globalWorkOffset
      (some globalSize) localWorkSize)).bind fun _ =>
    (finalLocalSize kernel globalSize req.workDim localWorkSize).bind fun localSize =>
    (Outcome.ofExcept (checkKernelArgs kernel)).bind fun _ =>
    (Outcome.ofExcept req.eventWaitList).bind fun _ =>
    .ok { globalOffset := (req.globalWorkOffset.map (copyN · req.workDim 0)).getD fun _ => 0
          globalSize := copyN globalSize req.workDim 1
          localSize }

end ConstructionKit.NDRange
