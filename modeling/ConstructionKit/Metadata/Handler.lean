import ConstructionKit.Metadata.Context
import ConstructionKit.Metadata.Format

/-! The handlers of kernel metadata (`metadata/handler/generic_metadata.h`,
`vectorize_info_metadata.h`).  Where
`init` and `finalize` of the source return `false` they have no value here. -/

namespace ConstructionKit.Metadata

/-- `GenericMetadata`. -/
def genericMdBlockName : List UInt8 :=
  [0x47, 0x65, 0x6e, 0x65, 0x72, 0x69, 0x63, 0x4d, 0x65, 0x74, 0x61, 0x64, 0x61, 0x74, 0x61]

/-- `VectorizeMetadata`. -/
def vectorizeMdBlockName : List UInt8 :=
  [0x56, 0x65, 0x63, 0x74, 0x6f, 0x72, 0x69, 0x7a, 0x65, 0x4d, 0x65, 0x74, 0x61, 0x64, 0x61, 0x74,
    0x61]

/-- `FixedOrScalableQuantity<uint32_t>`. -/
structure Quantity where
  knownMinValue : UInt32
  scalable : Bool
deriving DecidableEq, Repr

structure GenericMetadata where
  kernelName : List UInt8
  sourceName : List UInt8
  localMemoryUsage : UInt64
  subGroupSize : Quantity
deriving DecidableEq, Repr

structure VectorizeInfoMetadata extends GenericMetadata where
  minWorkItemFactor : Quantity
  prefWorkItemFactor : Quantity
deriving DecidableEq, Repr

structure GenericMetadataHandler where
  ctx : Context
  data : List UInt8
  offset : Nat
deriving DecidableEq, Repr

structure VectorizeInfoMetadataHandler extends GenericMetadataHandler where
  vecData : List UInt8
  vecOffset : Nat
deriving DecidableEq, Repr

/-! ### Writing -/

/-- `MD_CHECK_ERR` on the index of a push, which is returned as an `int`. -/
def checkErr : Except Err Nat → Bool
  | .error _ => true
  | .ok idx => idx % 2 ^ 32 ≥ 2 ^ 31

/-- Pushes up to the first whose result is an error, and whether there was none. -/
def pushAll (stack : Stack) : List (Stack → Except Err Nat × Stack) → Bool × Stack
  | [] => (true, stack)
  | push :: pushes =>
    let (result, stack) := push stack
    if checkErr result then (false, stack) else pushAll stack pushes

def Quantity.pushes (q : Quantity) : List (Stack → Except Err Nat × Stack) :=
  [(·.pushUnsigned q.knownMinValue.toUInt64), (·.pushUnsigned (if q.scalable then 1 else 0))]

def GenericMetadata.pushes (md : GenericMetadata) : List (Stack → Except Err Nat × Stack) :=
  [(·.pushZstr md.kernelName), (·.pushZstr md.sourceName), (·.pushUnsigned md.localMemoryUsage)] ++
    md.subGroupSize.pushes

def pushBlock (ctx : Context) (name : List UInt8)
    (pushes : List (Stack → Except Err Nat × Stack)) : Bool × Context :=
  match ctx.getBlock name with
  | .error _ => (false, ctx)
  | .ok stack =>
    let (done, stack) := pushAll stack pushes
    (done, ctx.updateBlock name fun _ => stack)

/-- `md_finalize_block`. -/
def freezeBlock (ctx : Context) (name : List UInt8) : Option Context :=
  match ctx.getBlock name with
  | .error _ => none
  | .ok stack =>
    match stack.freezeStack with
    | .error _ => none
    | .ok stack => some (ctx.updateBlock name fun _ => stack)

def GenericMetadataHandler.write (handler : GenericMetadataHandler) (md : GenericMetadata) :
    Bool × GenericMetadataHandler :=
  let (done, ctx) := pushBlock handler.ctx genericMdBlockName md.pushes
  (done, { handler with ctx })

/-- The bytes for the write hook. -/
def GenericMetadataHandler.finalize (handler : GenericMetadataHandler) :
    Result (Option (List UInt8)) :=
  match freezeBlock handler.ctx genericMdBlockName with
  | none => .ok none
  | some ctx => some <$> ctx.finalize

def VectorizeInfoMetadataHandler.write (handler : VectorizeInfoMetadataHandler)
    (md : VectorizeInfoMetadata) : Bool × VectorizeInfoMetadataHandler :=
  let (done, generic) := handler.toGenericMetadataHandler.write md.toGenericMetadata
  let handler := { handler with toGenericMetadataHandler := generic }
  if !done then (false, handler)
  else
    let (done, ctx) := pushBlock handler.ctx vectorizeMdBlockName
      (md.minWorkItemFactor.pushes ++ md.prefWorkItemFactor.pushes)
    (done, { handler with ctx })

def VectorizeInfoMetadataHandler.finalize (handler : VectorizeInfoMetadataHandler) :
    Result (Option (List UInt8)) :=
  match freezeBlock handler.ctx vectorizeMdBlockName with
  | none => .ok none
  | some ctx => { handler with ctx }.toGenericMetadataHandler.finalize

/-! ### Reading -/

/-- `md_init`.  Without a map hook nothing is decoded. -/
def mdInit (map : Option (List UInt8)) : Result (Option Context) :=
  match map with
  | none => .ok (some .init)
  | some binary =>
    match Context.decodeBinary binary with
    | .ok ctx => .ok (some ctx)
    | .error (.code _) => .ok none
    | .error fault => .error fault

def openBlock (ctx : Context) (name : List UInt8) : Option Context :=
  match ctx.getBlock name with
  | .ok _ => some ctx
  | .error _ => ctx.insert name (.empty .rawBytes)

/-- `md_loadf` with the format `s`, if there is a map hook. -/
def loadBlock (map : Option (List UInt8)) (ctx : Context) (name : List UInt8) :
    Result (Option (List UInt8)) :=
  match map with
  | none => .ok (some [])
  | some _ =>
    match ctx.getBlock name with
    | .error _ => .error .undefined
    | .ok stack =>
      match loadf stack ['s'] with
      | .ok [.bytes data] => .ok (some data)
      | .ok _ => .error .undefined
      | .error (.code _) => .ok none
      | .error fault => .error fault

/-- What the map hook returns, if there is one. -/
def GenericMetadataHandler.init (map : Option (List UInt8)) :
    Result (Option GenericMetadataHandler) := do
  let some ctx ← mdInit map | return none
  let some ctx := openBlock ctx genericMdBlockName | return none
  let some data ← loadBlock map ctx genericMdBlockName | return none
  return some ⟨ctx, data, 0⟩

def VectorizeInfoMetadataHandler.init (map : Option (List UInt8)) :
    Result (Option VectorizeInfoMetadataHandler) := do
  let some generic ← GenericMetadataHandler.init map | return none
  let some ctx := openBlock generic.ctx vectorizeMdBlockName | return none
  let some vecData ← loadBlock map ctx vectorizeMdBlockName | return none
  return some ⟨{ generic with ctx }, vecData, 0⟩

/-- A string that starts at a pointer, which has to end in the data. -/
def readZstr (data : List UInt8) : Result (List UInt8) :=
  if (0 : UInt8) ∈ data then .ok (cString data) else .error .undefined

def readUint64 (data : List UInt8) (endianness : Endian) : Result UInt64 := do
  let (bytes, _) ← readBytes 8 data
  return .ofNat (readValue bytes endianness)

/-- The value is cast to 32 bits. -/
def readQuantity (data : List UInt8) (endianness : Endian) : Result Quantity := do
  let quantity ← readUint64 data endianness
  let scalable ← readUint64 (data.drop 8) endianness
  return ⟨quantity.toUInt32, scalable == 1⟩

/-- No metadata if `read` returns `false`. -/
def GenericMetadataHandler.read (handler : GenericMetadataHandler) :
    Result (Option GenericMetadata × GenericMetadataHandler) :=
  if handler.offset ≥ handler.data.length then .ok (none, handler)
  else do
    let kernelName ← readZstr (handler.data.drop handler.offset)
    let offset := handler.offset + (kernelName.length + 1)
    let sourceName ← readZstr (handler.data.drop offset)
    let offset := offset + (sourceName.length + 1)
    let localMemoryUsed ← readUint64 (handler.data.drop offset) handler.ctx.endianness
    let offset := offset + 8
    let subGroupSize ← readQuantity (handler.data.drop offset) handler.ctx.endianness
    return (some ⟨kernelName, sourceName, localMemoryUsed, subGroupSize⟩,
      { handler with offset := offset + 16 })

def VectorizeInfoMetadataHandler.read (handler : VectorizeInfoMetadataHandler) :
    Result (Option VectorizeInfoMetadata × VectorizeInfoMetadataHandler) := do
  let (md, generic) ← handler.toGenericMetadataHandler.read
  let handler := { handler with toGenericMetadataHandler := generic }
  match md with
  | none => return (none, handler)
  | some md =>
    if handler.vecOffset ≥ handler.vecData.length then return (none, handler)
    else
      let endianness := handler.ctx.endianness
      let minWorkItemFactor ← readQuantity (handler.vecData.drop handler.vecOffset) endianness
      let prefWorkItemFactor ←
        readQuantity (handler.vecData.drop (handler.vecOffset + 16)) endianness
      return (some ⟨md, minWorkItemFactor, prefWorkItemFactor⟩,
        { handler with vecOffset := handler.vecOffset + 32 })

end ConstructionKit.Metadata
