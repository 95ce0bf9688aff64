import ConstructionKit.ProofKit.Alignment

/-! The struct of packed kernel arguments that `AddKernelWrapperPass::createNewFunctionArgTypes`
builds (`compiler/utils/source/add_kernel_wrapper_pass.cpp`). -/

namespace ConstructionKit.Args

open ProofKit

/-- What the pass reads of a type.  `isLocalBuffer` is a pointer to the local address space. -/
structure Ty where
  allocSizeInBits : UInt64
  isLocalBuffer : Bool
deriving DecidableEq, Repr

structure Argument where
  type : Ty
  byValType : Option Ty
  schedParam : Option Nat
deriving DecidableEq, Repr

structure KernelArgMapping where
  oldArgIdx : Nat
  newArgIdx : Int
  schedParamIdx : Int
  packedStructFieldIdx : Int
deriving DecidableEq, Repr

/-- An element of the struct: an array of padding bytes or an argument. -/
inductive Field where
  | padding (bytes : UInt32)
  | packed (ty : Ty)
deriving DecidableEq, Repr

structure AddKernelWrapperPass where
  isPacked : Bool
  passLocalBuffersBySize : Bool
deriving DecidableEq, Repr

/-- The variables of the loop.  `argTypes` are the parameters behind the pointer to the struct. -/
structure ArgTypes where
  index : UInt32
  unpackedArgIndex : Nat
  packedArgTypes : List Field
  argMappings : List KernelArgMapping
  argTypes : List Ty
deriving DecidableEq, Repr

def ArgTypes.init : ArgTypes := ⟨0, 1, [], [], []⟩

/-- The least power of two that is not below a number, or 0 if it has more than 64 bits. -/
def powerOf2Ceil (a : UInt64) : UInt64 := if a = 0 then 0 else .ofNat (ceilPow2 a.toNat)

/-- At least 1 byte. -/
def Ty.size (ty : Ty) : UInt64 := if ty.allocSizeInBits / 8 < 1 then 1 else ty.allocSizeInBits / 8

def alignSize (size : UInt64) : UInt32 :=
  (if powerOf2Ceil size < 128 then powerOf2Ceil size else 128).toUInt32

/-- Room for a value of a type, behind padding if the index is not aligned. -/
def ArgTypes.reserve (state : ArgTypes) (addType : Ty) : ArgTypes :=
  let size := addType.size
  let alignSize := alignSize size
  let remainder := state.index % alignSize
  if remainder ≠ 0 then
    let padding := alignSize - remainder
    { state with
      packedArgTypes := state.packedArgTypes ++ [.padding padding]
      index := state.index + padding + size.toUInt32 }
  else { state with index := state.index + size.toUInt32 }

namespace AddKernelWrapperPass

/-- Local buffers are passed as a `size_t`. -/
def addType (pass : AddKernelWrapperPass) (sizeType : Ty) (arg : Argument) : Ty :=
  if pass.passLocalBuffersBySize && arg.type.isLocalBuffer then sizeType
  else arg.byValType.getD arg.type

/-- One argument of the function.  `schedParamInfo` tells which scheduling parameters are passed
externally. -/
def addArgument (pass : AddKernelWrapperPass) (sizeType : Ty) (schedParamInfo : List Bool)
    (state : ArgTypes) (arg : Argument × Nat) : ArgTypes :=
  match arg.1.schedParam with
  | some idx =>
    if schedParamInfo.getD idx true then
      { state with
        argTypes := state.argTypes ++ [arg.1.type]
        argMappings := state.argMappings ++ [⟨arg.2, state.unpackedArgIndex, idx, -1⟩]
        unpackedArgIndex := state.unpackedArgIndex + 1 }
    else { state with argMappings := state.argMappings ++ [⟨arg.2, -1, idx, -1⟩] }
  | none =>
    let addType := pass.addType sizeType arg.1
    let state := if pass.isPacked then state else state.reserve addType
    { state with
      argMappings := state.argMappings ++ [⟨arg.2, 0, -1, state.packedArgTypes.length⟩]
      packedArgTypes := state.packedArgTypes ++ [.packed addType] }

def createNewFunctionArgTypes (pass : AddKernelWrapperPass) (sizeType : Ty)
    (schedParamInfo : List Bool) (args : List Argument) : ArgTypes :=
  args.zipIdx.foldl (pass.addArgument sizeType schedParamInfo) .init

end AddKernelWrapperPass

/-! ### Offsets

The natural layout of the struct is taken to add no padding of its own. -/

def Field.size : Field → Nat
  | padding bytes => bytes.toNat
  | packed ty => (ty.allocSizeInBits / 8).toNat

def fieldOffset (fields : List Field) (idx : Nat) : Nat := ((fields.take idx).map Field.size).sum

/-- The offsets at which the packed arguments are loaded. -/
def ArgTypes.offsets (state : ArgTypes) : List Nat :=
  state.argMappings.filterMap fun mapping =>
    if 0 ≤ mapping.packedStructFieldIdx then
      some (fieldOffset state.packedArgTypes mapping.packedStructFieldIdx.toNat)
    else none

end ConstructionKit.Args
