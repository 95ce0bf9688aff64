import ConstructionKit.Compiler.Info
import ConstructionKit.Metadata.Context
import ConstructionKit.Metadata.Format

/-! OpenCL program binaries (`source/cl/source/binary/source/binary.cpp`): a program is written to the
blocks of a metadata context and read back from them.  Strings are lists of bytes. -/

namespace ConstructionKit.Binary

open Compiler Metadata

/-! ### Programs -/

/-- The fields of `compiler::ArgumentType` that are written. -/
structure ArgumentType where
  kind : ArgumentKind
  addressSpace : UInt32
deriving DecidableEq, Repr

def ArgumentType.default : ArgumentType := ⟨.unknown, 0⟩

/-- The underlying type of `KernelArgAccess` is `int`. -/
structure ArgumentInfo where
  addressQual : UInt32
  accessQual : Int32
  typeQual : UInt32
  typeName : List UInt8
  name : List UInt8
deriving DecidableEq, Repr

def ArgumentInfo.default : ArgumentInfo := ⟨0, 0, 0, [], []⟩

structure KernelInfo where
  name : List UInt8
  argumentTypes : List ArgumentType
  argumentInfo : Option (List ArgumentInfo)
  reqdWorkGroupSize : Option (UInt64 × UInt64 × UInt64)
  reqdSubGroupSize : Option UInt64
deriving DecidableEq, Repr

/-- `builtins::printf::descriptor`.  The underlying type of `builtins::printf::type` is `int`. -/
structure Descriptor where
  formatString : List UInt8
  types : List Int32
  strings : List (List UInt8)
deriving DecidableEq, Repr

structure Program where
  executable : List UInt8
  printfCalls : List Descriptor
  kernels : List KernelInfo
deriving DecidableEq, Repr

def bytesOf (name : String) : List UInt8 := name.toList.map fun c => UInt8.ofNat c.toNat

def executableBlock : List UInt8 := bytesOf "OpenCL_executable"

def isExecutableBlock : List UInt8 := bytesOf "OpenCL_is_executable"

def printfInfoBlock : List UInt8 := bytesOf "OpenCL_printf_info"

def programInfoBlock : List UInt8 := bytesOf "OpenCL_program_info"

/-! ### Writing -/

/-- A value is pushed, appended to an array, and popped. -/
def appendPushed (arr : Nat) (pushed : Except Err Nat × Stack) : Result Stack := do
  let (idx, stack) ← check pushed
  let (_, stack) ← check (stack.arrAppend arr idx)
  return stack.pop.2

def appendUint (stack : Stack) (arr : Nat) (value : UInt64) : Result Stack :=
  appendPushed arr (stack.pushUnsigned value)

def appendZstr (stack : Stack) (arr : Nat) (text : List UInt8) : Result Stack :=
  appendPushed arr (stack.pushZstr text)

/-- An array is pushed, filled, appended to another array, and popped. -/
def appendArray (stack : Stack) (arr : Nat) (fill : Nat → Stack → Result Stack) : Result Stack := do
  let (idx, stack) ← check stack.pushArr
  let stack ← fill idx stack
  let (_, stack) ← check (stack.arrAppend arr idx)
  return stack.pop.2

/-- `md_finalize_block`. -/
def finalizeBlock (stack : Stack) : Result Stack :=
  match stack.freezeStack with
  | .ok stack => .ok stack
  | .error err => .error (.code err)

/-- `compilerModule` is what a compiler module serializes to. -/
def serializeExecutable (ctx : Context) (muxBinary : List UInt8)
    (compilerModule : Option (List UInt8)) : Result Context :=
  ctx.createBlock executableBlock fun stack => do
    let (_, stack) ← check (stack.pushBytes (compilerModule.getD muxBinary))
    finalizeBlock stack

/-- This block is not finalized. -/
def serializeIsExecutable (ctx : Context) (isExecutable : Bool) : Result Context :=
  ctx.createBlock isExecutableBlock fun stack => do
    let stack := stack.setOutFmt .msgpack
    let (_, stack) ← check (stack.pushUnsigned (if isExecutable then 1 else 0))
    return stack

def serializePrintfCall (arr : Nat) (stack : Stack) (call : Descriptor) : Result Stack := do
  let stack ← appendZstr stack arr call.formatString
  let stack ← appendArray stack arr fun idx stack =>
    call.types.foldlM (fun stack type => appendUint stack idx type.toInt64.toUInt64) stack
  appendArray stack arr fun idx stack =>
    call.strings.foldlM (fun stack str => appendZstr stack idx str) stack

def serializePrintfInfo (ctx : Context) (printfCalls : List Descriptor) : Result Context :=
  ctx.createBlock printfInfoBlock fun stack => do
    let stack := stack.setOutFmt .msgpack
    let (arr, stack) ← check stack.pushArr
    let stack ← printfCalls.foldlM (serializePrintfCall arr) stack
    finalizeBlock stack

/-- The information on an argument is taken by its index. -/
def serializeArgument (kernel : KernelInfo) (storeArgMetadata : Bool) (arr : Nat) (stack : Stack)
    (arg : ArgumentType × Nat) : Result Stack := do
  let stack ← appendUint stack arr arg.1.kind.value.toUInt64
  let stack ← appendUint stack arr arg.1.addressSpace.toUInt64
  if storeArgMetadata then
    match kernel.argumentInfo.bind (·[arg.2]?) with
    | none => throw .undefined
    | some info =>
      let stack ← appendUint stack arr info.addressQual.toUInt64
      let stack ← appendUint stack arr info.accessQual.toInt64.toUInt64
      let stack ← appendUint stack arr info.typeQual.toUInt64
      let stack ← appendZstr stack arr info.typeName
      appendZstr stack arr info.name
  else return stack

def KernelInfo.getReqdWGSizeOrZero (kernel : KernelInfo) : UInt64 × UInt64 × UInt64 :=
  kernel.reqdWorkGroupSize.getD (0, 0, 0)

def serializeKernel (hasKernelArgInfo : Bool) (arr : Nat) (stack : Stack) (kernel : KernelInfo) :
    Result Stack :=
  appendArray stack arr fun idx stack => do
    let stack ← appendUint stack idx (.ofNat kernel.argumentTypes.length)
    let storeArgMetadata := hasKernelArgInfo && kernel.argumentInfo.isSome
    let stack ← appendUint stack idx (if storeArgMetadata then 1 else 0)
    let stack ← appendArray stack idx fun args stack =>
      kernel.argumentTypes.zipIdx.foldlM (serializeArgument kernel storeArgMetadata args) stack
    let stack ← appendArray stack idx fun sizes stack => do
      let stack ← appendUint stack sizes kernel.getReqdWGSizeOrZero.1
      let stack ← appendUint stack sizes kernel.getReqdWGSizeOrZero.2.1
      appendUint stack sizes kernel.getReqdWGSizeOrZero.2.2
    let stack ← appendUint stack idx (kernel.reqdSubGroupSize.getD 0)
    appendZstr stack idx kernel.name

def serializeProgramInfo (ctx : Context) (kernels : List KernelInfo) (hasKernelArgInfo : Bool) :
    Result Context :=
  ctx.createBlock programInfoBlock fun stack => do
    let stack := stack.setOutFmt .msgpack
    let (arr, stack) ← check stack.pushArr
    let stack ← kernels.foldlM (serializeKernel hasKernelArgInfo arr) stack
    finalizeBlock stack

/-- A program is executable when there is no compiler module. -/
def serializeBinary (program : Program) (kernelArgInfo : Bool)
    (compilerModule : Option (List UInt8)) : Result (List UInt8) := do
  let isExecutable := compilerModule.isNone
  let ctx ← serializeExecutable .init program.executable compilerModule
  let ctx ← serializeIsExecutable ctx isExecutable
  if isExecutable then
    let ctx ← serializePrintfInfo ctx program.printfCalls
    let ctx ← serializeProgramInfo ctx program.kernels kernelArgInfo
    ctx.finalize
  else ctx.finalize

/-! ### Reading -/

/-- `md_get_array_idx` and `md_get_uint`. -/
def arrayUint (heap : List Cell) (array idx : Nat) : Result UInt64 := do
  getUint heap (← getArrayIdx heap array idx)

/-- `md_get_array_idx` and `md_get_zstr`, whose buffer becomes a string of the length of the
buffer. -/
def arrayZstr (heap : List Cell) (array idx : Nat) : Result (List UInt8) := do
  getZstr heap (← getArrayIdx heap array idx)

/-- `md_get_block`; `none` is a null pointer. -/
def getBlock (ctx : Context) (name : List UInt8) : Result Stack :=
  match ctx.getBlock name with
  | .ok stack => .ok stack
  | .error err => .error (.code err)

def deserializeExecutable (ctx : Context) : Result (List UInt8) := do
  match ← loadf (← getBlock ctx executableBlock) ['s'] with
  | [.bytes data] => return data
  | _ => throw .undefined

def deserializeIsExecutable (ctx : Context) : Result Bool := do
  match ← loadf (← getBlock ctx isExecutableBlock) ['u'] with
  | [.uint value] => return value == 1
  | _ => throw .undefined

/-- The elements of an array, one after the other. -/
def readArray {α : Type} (heap : List Cell) (array : Nat) (read : Nat → Result α) :
    Result (List α) := do
  (List.range (← getArraySize heap array)).mapM read

/-- The descriptor whose parts start at an index. -/
def deserializePrintfCall (heap : List Cell) (arr idx : Nat) : Result Descriptor := do
  let formatString ← arrayZstr heap arr idx
  let typesArr ← getArrayIdx heap arr (idx + 1)
  let types ← readArray heap typesArr fun j => do
    return (← arrayUint heap typesArr j).toInt64.toInt32
  let stringsArr ← getArrayIdx heap arr (idx + 2)
  let strings ← readArray heap stringsArr (arrayZstr heap stringsArr)
  return ⟨formatString, types, strings⟩

/-- The `while` loop, which advances the index by 3. -/
def printfLoop (heap : List Cell) (arr size : Nat) : Nat → Nat → Result (List Descriptor)
  | 0, _ => .error .undefined
  | fuel + 1, idx =>
    if idx < size then do
      let descriptor ← deserializePrintfCall heap arr idx
      return descriptor :: (← printfLoop heap arr size fuel (idx + 3))
    else .ok []

/-- The pointer to the array is not checked. -/
def deserializePrintfCalls (ctx : Context) : Result (List Descriptor) := do
  let stack ← getBlock ctx printfInfoBlock
  match getValue stack 0 with
  | none => throw .undefined
  | some arr =>
    let size ← getArraySize stack.heap arr
    printfLoop stack.heap arr size (size + 1) 0

/-- A write to an array. -/
def setAt {α : Type} (items : List α) (idx : Nat) (item : α) : Result (List α) :=
  if idx < items.length then .ok (items.set idx item) else .error .undefined

/-- The arguments of a kernel while they are read. -/
structure Arguments where
  types : List ArgumentType
  infos : List ArgumentInfo

/-- One argument, and the index behind it. -/
def deserializeArgument (heap : List Cell) (arr : Nat) (hasArgMetadata : Bool) (cur argIdx : Nat)
    (args : Arguments) : Result (Nat × Arguments) := do
  let kind : ArgumentKind := ⟨(← arrayUint heap arr cur).toUInt32⟩
  let types ← setAt args.types argIdx { args.types.getD argIdx .default with kind }
  let addressSpace := (← arrayUint heap arr (cur + 1)).toUInt32
  let types ← setAt types argIdx { types.getD argIdx .default with addressSpace }
  if hasArgMetadata then
    let addressQual := (← arrayUint heap arr (cur + 2)).toUInt32
    let accessQual := (← arrayUint heap arr (cur + 3)).toInt64.toInt32
    let typeQual := (← arrayUint heap arr (cur + 4)).toUInt32
    let typeName ← arrayZstr heap arr (cur + 5)
    let name ← arrayZstr heap arr (cur + 6)
    let infos ← setAt args.infos argIdx ⟨addressQual, accessQual, typeQual, typeName, name⟩
    return (cur + 7, ⟨types, infos⟩)
  else return (cur + 2, ⟨types, args.infos⟩)

def argumentLoop (heap : List Cell) (arr len : Nat) (hasArgMetadata : Bool) :
    Nat → Nat → Nat → Arguments → Result Arguments
  | 0, _, _, _ => .error .undefined
  | fuel + 1, cur, argIdx, args =>
    if cur < len then do
      let (cur, args) ← deserializeArgument heap arr hasArgMetadata cur argIdx args
      argumentLoop heap arr len hasArgMetadata fuel cur (argIdx + 1) args
    else .ok args

def deserializeKernel (heap : List Cell) (kernel : Nat) : Result KernelInfo := do
  let numArguments := (← arrayUint heap kernel 0).toNat
  let hasArgMetadata := (← arrayUint heap kernel 1) == 1
  let argsArr ← getArrayIdx heap kernel 2
  let len ← getArraySize heap argsArr
  let args ← argumentLoop heap argsArr len hasArgMetadata (len + 1) 0 0
    ⟨.replicate numArguments .default,
      if hasArgMetadata then .replicate numArguments .default else []⟩
  let sizesArr ← getArrayIdx heap kernel 3
  let x ← arrayUint heap sizesArr 0
  let y ← arrayUint heap sizesArr 1
  let z ← arrayUint heap sizesArr 2
  let reqdSubGroupSize ← arrayUint heap kernel 4
  let name ← arrayZstr heap kernel 5
  return {
    name
    argumentTypes := args.types
    argumentInfo := if hasArgMetadata then some args.infos else none
    reqdWorkGroupSize := if x = 0 ∧ y = 0 ∧ z = 0 then none else some (x, y, z)
    reqdSubGroupSize := if reqdSubGroupSize = 0 then none else some reqdSubGroupSize }

def deserializeProgramInfo (ctx : Context) : Result (List KernelInfo) := do
  let stack ← getBlock ctx programInfoBlock
  match getValue stack 0 with
  | none => throw (.code .stackCorrupt)
  | some kernels =>
    readArray stack.heap kernels fun idx => do
      deserializeKernel stack.heap (← getArrayIdx stack.heap kernels idx)

/-- The program, and whether it is executable.  Any error is the result `false`. -/
def deserializeBinary (binary : List UInt8) : Result (Program × Bool) := do
  let ctx ← Context.decodeBinary binary
  let executable ← deserializeExecutable ctx
  let isExecutable ← deserializeIsExecutable ctx
  if isExecutable then
    let printfCalls ← deserializePrintfCalls ctx
    let kernels ← deserializeProgramInfo ctx
    return (⟨executable, printfCalls, kernels⟩, true)
  else return (⟨executable, [], []⟩, false)

end ConstructionKit.Binary
