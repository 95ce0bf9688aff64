import ConstructionKit.Metadata.Serializer

/-! Metadata contexts (`metadata/detail/md_ctx.h`) and the binary format of their blocks
(`metadata_impl.h`, `utils.cpp`).  `size_t` has 64 bits. -/

namespace ConstructionKit.Metadata

open ProofKit

def headerSize : Nat := 16

def blockInfoSize : Nat := 24

/-- `CAMD`. -/
def magic : List UInt8 := [0x43, 0x41, 0x4d, 0x44]

structure Header where
  endianness : Endian
  blockListOffset : UInt32
  nBlocks : UInt32
deriving DecidableEq, Repr

structure BlockInfo where
  offset : UInt64
  size : UInt64
  nameIdx : UInt32
  flags : UInt32
deriving DecidableEq, Repr

/-! ### Writing -/

def Endian.byte : Endian → UInt8
  | little => 1
  | big => 2

/-- An integer is read in the wanted order from its bytes in the order of the host. -/
def serializeInt (width val : Nat) (endianness : Endian) : List UInt8 :=
  leBytes width (readValue (leBytes width val) endianness)

/-- The version is 1, and two bytes are unused. -/
def serializeMdHeader (header : Header) : List UInt8 :=
  magic ++ [header.endianness.byte, 1, 0, 0] ++
    serializeInt 4 header.blockListOffset.toNat header.endianness ++
    serializeInt 4 header.nBlocks.toNat header.endianness

def serializeBlockInfo (info : BlockInfo) (endianness : Endian) : List UInt8 :=
  serializeInt 8 info.offset.toNat endianness ++ serializeInt 8 info.size.toNat endianness ++
    serializeInt 4 info.nameIdx.toNat endianness ++ serializeInt 4 info.flags.toNat endianness

def padToAlignment (binary : List UInt8) : List UInt8 :=
  binary ++ List.replicate ((8 - binary.length % 8) % 8) 0

def Fmt.code : Fmt → UInt32
  | rawBytes => 0
  | msgpack => 1
  | json => 2
  | llvmBcMd => 3
  | llvmTextMd => 4

/-- `get_flags` without an encoding. -/
def getFlags (fmt : Fmt) : UInt32 := (fmt.code ||| ((0 : UInt32) <<< 8)) &&& 0x0000ffff

/-- The named stacks of a context, in the order in which they were created. -/
structure Context where
  stackMap : List (List UInt8 × Stack)
  endianness : Endian
deriving DecidableEq, Repr

namespace Context

def init : Context := ⟨[], .little⟩

variable (ctx : Context)

/-- `basic_map::find`. -/
def find (name : List UInt8) : Option Stack := ctx.stackMap.lookup name

def getBlock (name : List UInt8) : Except Err Stack :=
  match ctx.find name with
  | some stack => .ok stack
  | none => .error .stackNotRegistered

/-- `basic_map::insert`. -/
def insert (name : List UInt8) (stack : Stack) : Option Context :=
  if (ctx.find name).isSome then none
  else some { ctx with stackMap := ctx.stackMap ++ [(name, stack)] }

/-- Create a block and fill its stack.  The source fills it through the pointer that
`create_block` returns. -/
def createBlock (name : List UInt8) (fill : Stack → Result Stack) : Result Context :=
  match ctx.insert name (.empty .rawBytes) with
  | none => .error (.code .stackAlreadyRegistered)
  | some _ => do
    let stack ← fill (.empty .rawBytes)
    return { ctx with stackMap := ctx.stackMap ++ [(name, stack)] }

/-- An operation through the pointer to a block. -/
def updateBlock (name : List UInt8) (f : Stack → Stack) : Context :=
  { ctx with stackMap :=
      ctx.stackMap.map fun item => if item.1 = name then (item.1, f item.2) else item }

/-- `basic_stack::finalize`.  The other formats are not supported, and nothing is written for them. -/
def finalizeStack (stack : Stack) (endianness : Endian) : Result (List UInt8) :=
  match stack.outFmt with
  | .rawBytes => serializeRaw stack endianness
  | .msgpack => serializeMsgPack stack
  | _ => .ok []

/-- The binary so far, which is built from its end and reversed, the string table and the block
infos, whose offsets count from the end. -/
structure Output where
  binary : List UInt8
  stringTable : List UInt8
  blockInfos : List BlockInfo

def addStack (endianness : Endian) (output : Output) (item : List UInt8 × Stack) :
    Result Output := do
  let stackBytes ← finalizeStack item.2 endianness
  let padded := padToAlignment stackBytes
  let info : BlockInfo :=
    ⟨.ofNat (output.binary.length + padded.length), .ofNat stackBytes.length,
      .ofNat headerSize + .ofNat output.stringTable.length, getFlags item.2.outFmt⟩
  return ⟨output.binary ++ padded.reverse, output.stringTable ++ item.1 ++ [0],
    output.blockInfos ++ [info]⟩

/-- The bytes that `finalize` hands to the write hook. -/
def finalize : Result (List UInt8) := do
  let output ← ctx.stackMap.foldlM (addStack ctx.endianness) ⟨[], [], []⟩
  let stringTable := padToAlignment output.stringTable
  let lengthOfBinary : UInt64 := .ofNat
    (headerSize + stringTable.length + blockInfoSize * output.blockInfos.length +
      output.binary.length)
  let binary := output.blockInfos.foldl (fun binary info =>
    binary ++ (serializeBlockInfo { info with offset := lengthOfBinary - info.offset }
      ctx.endianness).reverse) output.binary
  let binary := binary ++ stringTable.reverse
  let header : Header := ⟨ctx.endianness, .ofNat (headerSize + stringTable.length),
    .ofNat output.blockInfos.length⟩
  return (binary ++ (serializeMdHeader header).reverse).reverse

end Context

/-! ### Reading -/

def decodeMdHeader (binary : List UInt8) : Result Header :=
  if binary.length < headerSize then .error (.text "Invalid Binary Size.")
  else if binary.take 4 ≠ magic then .error (.text "Invalid Magic Number.")
  else match [Endian.little, Endian.big].find? (·.byte = binary.getD 4 0) with
  | none => .error (.text "Invalid Endian Format.")
  | some endianness =>
    if binary.getD 5 0 ≠ 1 then .error (.text "Invalid Version.")
    else
      let blockListOffset := readValue ((binary.drop 8).take 4) endianness
      if blockListOffset < 16 ∨ blockListOffset ≥ binary.length then
        .error (.text "Invalid block-list offset.")
      else .ok ⟨endianness, .ofNat blockListOffset,
        .ofNat (readValue ((binary.drop 12).take 4) endianness)⟩

def getEnc (flags : UInt32) : Except Err UInt32 :=
  let enc := (flags >>> 8) &&& 0xff
  if enc ≥ 4 then .error .invalidFlags else .ok enc

def getFmt (flags : UInt32) : Except Err Fmt :=
  let fmt := flags &&& 0xff
  match [Fmt.rawBytes, .msgpack, .json, .llvmBcMd, .llvmTextMd].find? (·.code = fmt) with
  | some fmt => .ok fmt
  | none => .error .invalidFlags

/-- The block info at a pointer.  The bound on the offset is a number of 32 bits. -/
def decodeMdBlockInfo (start : List UInt8) (header : Header) (binSize : Nat) : Result BlockInfo := do
  let (bytes, start) ← readBytes 8 start
  let offset : UInt64 := .ofNat (readValue bytes header.endianness)
  let minValidBlockOffset := header.blockListOffset + .ofNat blockInfoSize * header.nBlocks
  if offset < minValidBlockOffset.toUInt64 then throw (.text "Invalid block offset value.")
  let (bytes, start) ← readBytes 8 start
  let size : UInt64 := .ofNat (readValue bytes header.endianness)
  if (offset + size).toNat > binSize then throw (.text "Invalid Block size")
  let (bytes, start) ← readBytes 4 start
  let nameIdx : UInt32 := .ofNat (readValue bytes header.endianness)
  if nameIdx > header.blockListOffset then throw (.text "Invalid name index value.")
  let (bytes, _) ← readBytes 4 start
  let flags : UInt32 := .ofNat (readValue bytes header.endianness)
  if !((getEnc flags).isOk || (getFmt flags).isOk) then throw (.text "Invalid flags field.")
  return ⟨offset, size, nameIdx, flags⟩

def decodeMdBlockInfoList (header : Header) (binSize : Nat) :
    Nat → List UInt8 → Result (List BlockInfo)
  | 0, _ => .ok []
  | n + 1, start => do
    let info ← decodeMdBlockInfo start header binSize
    return info :: (← decodeMdBlockInfoList header binSize n (start.drop blockInfoSize))

/-- The string at an offset, which has to end inside the binary. -/
def getBlockInfoName (binary : List UInt8) (info : BlockInfo) : Result (List UInt8) :=
  let text := binary.drop info.nameIdx.toNat
  if (0 : UInt8) ∈ text then .ok (cString text) else .error .undefined

/-- The stack of a block.  The other formats are not supported. -/
def deserializeBlock (fmt : Fmt) (block : List UInt8) (size : Nat) : Result Stack :=
  match fmt with
  | .rawBytes => deserializeRaw (.empty fmt) block size
  | .msgpack => deserializeMsgPack (.empty fmt) block size
  | _ => .error (.code .invalidBinary)

namespace Context

def addBlockFromBlockInfo (ctx : Context) (info : BlockInfo) (binary : List UInt8) :
    Result Context :=
  match getFmt info.flags with
  | .error _ => .error (.code .invalidBinary)
  | .ok fmt => do
    let stackName ← getBlockInfoName binary info
    let stack ← deserializeBlock fmt (binary.drop info.offset.toNat) info.size.toNat
    match ctx.insert stackName stack with
    | some ctx => .ok ctx
    | none => .error (.code .invalidBinary)

/-- The texts of decoding errors are dropped. -/
def orInvalidBinary {α : Type} : Result α → Result α
  | .error (.text _) => .error (.code .invalidBinary)
  | result => result

/-- What the map hook of a new context returns is decoded. -/
def decodeBinary (binary : List UInt8) : Result Context := do
  let header ← orInvalidBinary (decodeMdHeader binary)
  let infos ← orInvalidBinary (decodeMdBlockInfoList header binary.length header.nBlocks.toNat
    (binary.drop header.blockListOffset.toNat))
  infos.foldlM (fun ctx info => ctx.addBlockFromBlockInfo info binary) ⟨[], header.endianness⟩

end Context

end ConstructionKit.Metadata
