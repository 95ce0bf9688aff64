import ConstructionKit.Mux.CommandBuffer

/-! The ND-range commands of the command buffers of the RISC-V target
(`mux/targets/riscv/source/command_buffer.cpp`): their arguments, the updates of these, and clones.
Allocations succeed. -/

namespace ConstructionKit.Riscv.CommandBuffer

open ProofKit Mux
open Args (ArgKind AddrSpace)

/-- The union of a `hal_arg_t`: an address, or a pointer into a block of plain old data. -/
inductive Payload where
  | unset
  | address (address : UInt64)
  | podData (block offset : Nat)
deriving DecidableEq, Repr

/-- `hal_arg_t`, which points to its plain old data. -/
structure HalArg where
  kind : ArgKind
  space : AddrSpace
  size : UInt64
  payload : Payload
deriving DecidableEq, Repr

/-- The arrays that commands point to: `kernel_arg_allocs` and `pod_data_allocs` of all command
buffers. -/
structure Heap where
  kernelArgs : List (List HalArg)
  podData : List (List UInt8)

/-- `command_ndrange_s` -/
structure NDRange where
  kernel : Nat
  kernelArgs : Nat
  descriptors : List Descriptor
  numKernelArgs : UInt32
  podData : Nat
  sizes : Sizes

/-! ### The arguments that a command executes with -/

/-- What `hal_argpack_t::add_arg` reads of an argument. -/
inductive ArgValue where
  | address (payload : Payload)
  | bytes (bytes : Option (List UInt8))
  | localSize (size : UInt64)
  | notImplemented
deriving DecidableEq, Repr

namespace Heap

def load (h : Heap) (payload : Payload) (size : UInt64) : Option (List UInt8) :=
  match payload with
  | .podData block offset => loadAt h.podData block offset size.toNat
  | _ => none

def value (h : Heap) (arg : HalArg) : ArgValue :=
  match arg.space, arg.kind with
  | .globalSpace, .address => .address arg.payload
  | .globalSpace, .value => .bytes (h.load arg.payload arg.size)
  | .localSpace, .address => .localSize arg.size
  | .localSpace, .value => .notImplemented

def args (h : Heap) (n : NDRange) : List HalArg :=
  ((h.kernelArgs[n.kernelArgs]?).getD []).take n.numKernelArgs.toNat

/-- The values of the arguments that an ND-range executes with. -/
def values (h : Heap) (n : NDRange) : List ArgValue := (h.args n).map h.value

end Heap

/-! ### New commands -/

def calcPodDataSize (descriptors : List Descriptor) : UInt32 :=
  descriptors.foldl (fun size descriptor =>
    match descriptor with
    | .plainOldData _ length => size + length.toUInt32
    | _ => size) 0

/-- The argument of a descriptor, with the plain old data and the write point behind it.  The union
of a local argument stays unset; so does all of an argument of the remaining types, of which zeros
stand for what the allocation holds. -/
def setHALArg (wordSize : UInt32) (block : Nat) (podData : List UInt8) (writePoint : UInt32) :
    Descriptor → Option (HalArg × List UInt8 × UInt32)
  | .buffer data offset => some
      (⟨.address, .globalSpace, (wordSize / 8).toUInt64, .address (data + offset)⟩, podData, writePoint)
  | .plainOldData data length => do
    let podData ← Args.memcpy podData writePoint.toNat (← takeExactly data length.toNat)
    return (⟨.value, .globalSpace, length, .podData block writePoint.toNat⟩, podData,
      writePoint + length.toUInt32)
  | .sharedLocalBuffer size => some (⟨.address, .localSpace, size, .unset⟩, podData, writePoint)
  | .nullBuffer => some (⟨.address, .globalSpace, 0, .address 0⟩, podData, writePoint)
  | _ => some (⟨.address, .localSpace, 0, .unset⟩, podData, writePoint)

def setHALArgs (wordSize : UInt32) (block : Nat) (podData : List UInt8) (writePoint : UInt32) :
    List Descriptor → Option (List HalArg × List UInt8)
  | [] => some ([], podData)
  | descriptor :: descriptors => do
    let (arg, podData, writePoint) ← setHALArg wordSize block podData writePoint descriptor
    let (args, podData) ← setHALArgs wordSize block podData writePoint descriptors
    return (arg :: args, podData)

/-- Without plain old data there is no block for it; an empty one stands for that. -/
def commandNDRange (wordSize : UInt32) (h : Heap) (kernel : Nat) (options : NDRangeOptions) :
    Option (Heap × NDRange) := do
  let podData := .replicate (calcPodDataSize options.descriptors).toNat 0
  let (args, podData) ← setHALArgs wordSize h.podData.length podData 0 options.descriptors
  return (⟨h.kernelArgs ++ [args], h.podData ++ [podData]⟩,
    { kernel, kernelArgs := h.kernelArgs.length, descriptors := options.descriptors,
      numKernelArgs := UInt32.ofNat options.descriptors.length,
      podData := h.podData.length, sizes := options.sizes })

/-! ### Updates -/

namespace Heap

def setArg (h : Heap) (array index : Nat) (arg : HalArg) : Heap :=
  { h with kernelArgs := h.kernelArgs.modify array (·.set index arg) }

/-- An update of one argument, which has not a result yet if the loop goes on. -/
def updateArg (h : Heap) (array index : Nat) (descriptor : Descriptor) :
    Option (Heap × Option Result) := do
  let arg ← (← h.kernelArgs[array]?)[index]?
  match descriptor with
  | .buffer data offset =>
    return (h.setArg array index { arg with payload := .address (data + offset) }, none)
  | .plainOldData data _ =>
    match arg.payload with
    | .podData block offset =>
      let podData ← storeAt h.podData block offset (← takeExactly data arg.size.toNat)
      return ({ h with podData }, none)
    | _ => none
  | .sharedLocalBuffer size => return (h.setArg array index { arg with size }, none)
  | .nullBuffer => return (h.setArg array index { arg with size := 0, payload := .address 0 }, none)
  | _ => return (h, some .invalidValue)

/-- The loop of `riscvUpdateDescriptors`. -/
def updateArgs (h : Heap) (n : NDRange) : List (Nat × Descriptor) → Option (Heap × Result)
  | [] => some (h, .success)
  | (index, descriptor) :: args => do
    match ← h.updateArg n.kernelArgs index descriptor with
    | (h, some result) => return (h, result)
    | (h, none) => h.updateArgs n args

/-! ### Clones -/

/-- The new block of plain old data is as the allocation holds it, and the arguments are copied with
their pointers. -/
def cloneNDRangeCommand (h : Heap) (original : NDRange) : Heap × NDRange :=
  (⟨h.kernelArgs ++ [h.args original],
      h.podData ++ [.replicate (calcPodDataSize original.descriptors).toNat 0]⟩,
    { original with kernelArgs := h.kernelArgs.length, podData := h.podData.length })

end Heap

/-- The RISC-V target: its update and clone are `riscvUpdateDescriptors` and
`riscvCloneCommandBuffer`. -/
def target (wordSize : UInt32) : Target Heap NDRange where
  empty := ⟨[], []⟩
  commandNDRange := commandNDRange wordSize
  updateArgs := Heap.updateArgs
  cloneNDRange := Heap.cloneNDRangeCommand

end ConstructionKit.Riscv.CommandBuffer
