import ConstructionKit.Mux.CommandBuffer

/-! The ND-range commands of the command buffers of the host target
(`mux/targets/host/source/command_buffer.cpp`): their packed arguments, the updates of these, and
clones.  Allocations succeed. -/

namespace ConstructionKit.Host.CommandBuffer

open ProofKit Mux

/-- A pointer into a block. -/
structure Pointer where
  block : Nat
  offset : Nat
deriving DecidableEq, Repr

/-- `ndrange_info_s` with the kernel of its command.  It points to the block of its packed
arguments. -/
structure NDRange where
  kernel : Nat
  packedArgs : Nat
  argAddresses : List Pointer
  descriptors : List Descriptor
  sizes : Sizes

/-- The blocks of packed arguments of all command buffers. -/
abbrev Heap : Type := List (List UInt8)

/-- The bytes of a pointer or a `size_t`. -/
def word (w : UInt64) : List UInt8 := leBytes 8 w.toNat

/-! ### New commands -/

def packedSize : Descriptor → UInt64
  | .plainOldData _ length => length
  | .customBuffer => 0
  | _ => 8

/-- `calcPackedArgsAllocSize`: the offsets of the arguments, and the size of all of them. -/
def calcPackedArgsAllocSize (offset : UInt64) : List Descriptor → List UInt64 × UInt64
  | [] => ([], offset)
  | descriptor :: descriptors =>
    let (offsets, size) := calcPackedArgsAllocSize (offset + packedSize descriptor) descriptors
    (offset :: offsets, size)

/-- The bytes that `populatePackedArgs` copies for a descriptor, and how far it moves the offset.
Images and samplers need `HOST_IMAGE_SUPPORT`. -/
def packedArg (imageSupport : Bool) : Descriptor → Option (List UInt8 × UInt64)
  | .buffer data offset => some (word (data + offset), 8)
  | .image pointer => some (if imageSupport then (word pointer, 8) else ([], 0))
  | .sampler value => some (if imageSupport then (word value, 8) else ([], 0))
  | .plainOldData data length => do return (← takeExactly data length.toNat, length)
  | .sharedLocalBuffer size => some (word size, 8)
  | .nullBuffer => some (word 0, 8)
  | .customBuffer => some ([], 0)

def populatePackedArgs (imageSupport : Bool) (packedArgs : List UInt8) (offset : UInt64) :
    List Descriptor → Option (List UInt8)
  | [] => some packedArgs
  | descriptor :: descriptors => do
    let (bytes, size) ← packedArg imageSupport descriptor
    let packedArgs ← Args.memcpy packedArgs offset.toNat bytes
    populatePackedArgs imageSupport packedArgs (offset + size) descriptors

def storeArgAddresses (block : Nat) (descriptors : List Descriptor) : List Pointer :=
  (calcPackedArgsAllocSize 0 descriptors).1.map fun offset => ⟨block, offset.toNat⟩

/-- Zeros stand for what the allocation holds. -/
def commandNDRange (imageSupport : Bool) (h : Heap) (kernel : Nat) (options : NDRangeOptions) :
    Option (Heap × NDRange) := do
  let size := (calcPackedArgsAllocSize 0 options.descriptors).2
  let packedArgs ← populatePackedArgs imageSupport (.replicate size.toNat 0) 0 options.descriptors
  return (h ++ [packedArgs],
    { kernel, packedArgs := h.length, argAddresses := storeArgAddresses h.length options.descriptors,
      descriptors := options.descriptors, sizes := options.sizes })

/-! ### Updates -/

/-- The bytes that an update copies, or nothing for the types that cannot be updated. -/
def updatedArg : Descriptor → Option (Option (List UInt8))
  | .buffer data offset => some (some (word (data + offset)))
  | .plainOldData data length => do return some (← takeExactly data length.toNat)
  | .sharedLocalBuffer size => some (some (word size))
  | .nullBuffer => some (some (word 0))
  | _ => some none

/-- The loop of `hostUpdateDescriptors`. -/
def updateArgs (h : Heap) (n : NDRange) : List (Nat × Descriptor) → Option (Heap × Result)
  | [] => some (h, .success)
  | (index, descriptor) :: args => do
    let address ← n.argAddresses[index]?
    match ← updatedArg descriptor with
    | none => return (h, .invalidValue)
    | some bytes => updateArgs (← storeAt h address.block address.offset bytes) n args

/-! ### Clones -/

/-- The packed arguments that a command executes with. -/
def packed (h : Heap) (n : NDRange) : List UInt8 := (h[n.packedArgs]?).getD []

/-- `ndrange_info_s::clone` -/
def NDRange.clone (h : Heap) (n : NDRange) : Heap × NDRange :=
  (h ++ [(packed h n).take (calcPackedArgsAllocSize 0 n.descriptors).2.toNat],
    { n with packedArgs := h.length, argAddresses := storeArgAddresses h.length n.descriptors })

/-- The host target: its update and clone are `hostUpdateDescriptors` and
`hostCloneCommandBuffer`. -/
def target (imageSupport : Bool) : Target Heap NDRange where
  empty := []
  commandNDRange := commandNDRange imageSupport
  updateArgs := updateArgs
  cloneNDRange := NDRange.clone

end ConstructionKit.Host.CommandBuffer
