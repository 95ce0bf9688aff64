import ConstructionKit.Metadata.Stack
import ConstructionKit.ProofKit.Bytes

/-! The serializers of a stack (`metadata/detail/stack_serializer.h`) on a little-endian host.  A
pointer into a binary is the list of the bytes from there on; a read that they do not cover is
undefined. -/

namespace ConstructionKit.Metadata

open ProofKit

/-- `MD_ENDIAN`. -/
inductive Endian where
  | little | big
deriving DecidableEq, Repr

/-- The bytes of a number of `width` bytes, reversed if the host's order is not the wanted one. -/
def serializeNumber (width num : Nat) (endianness : Endian) : List UInt8 :=
  let data := leBytes width num
  if endianness ≠ .little then data.reverse else data

/-- `read_value`: a big-endian read is a little-endian one with the bytes swapped. -/
def readValue (bytes : List UInt8) (endianness : Endian) : Nat :=
  match endianness with
  | .big => leNat bytes.reverse
  | .little => leNat bytes

/-- The bytes at a pointer, and the pointer behind them. -/
def readBytes (width : Nat) (data : List UInt8) : Result (List UInt8 × List UInt8) :=
  if width ≤ data.length then .ok (data.take width, data.drop width) else .error .undefined

/-! ### `RawStackSerializer`

The recursion follows references, so its depth is bounded by the number of storage cells as long as
no value contains itself. -/

def rawScalar (endianness : Endian) : Scalar → List UInt8
  | .sint value => serializeNumber 8 value.toUInt64.toNat endianness
  | .uint value => serializeNumber 8 value.toNat endianness
  | .real bits => serializeNumber 8 bits.toNat endianness
  | .zstr text => text ++ [0]
  | .bytes data => data

def rawElement (heap : List Cell) (endianness : Endian) : Nat → Nat → Result (List UInt8)
  | 0, _ => .error .undefined
  | depth + 1, elem =>
    match heap[elem]? with
    | none => .error .undefined
    | some (.scalar value) => .ok (rawScalar endianness value)
    | some (.array items) => List.flatten <$> items.mapM (rawElement heap endianness depth)
    | some (.hash entries) => List.flatten <$> entries.mapM fun (key, val) => do
      return (← rawElement heap endianness depth key) ++ (← rawElement heap endianness depth val)

def serializeRaw (stack : Stack) (endianness : Endian) : Result (List UInt8) :=
  List.flatten <$> stack.elems.mapM (rawElement stack.heap endianness stack.heap.length)

def deserializeRaw (stack : Stack) (block : List UInt8) (blockLen : Nat) : Result Stack := do
  let (data, _) ← readBytes blockLen block
  return (stack.pushBytes data).2

/-! ### `BasicMsgPackStackSerializer` -/

namespace MsgPackFmt

def uint64 : UInt8 := 0xcf
def int64 : UInt8 := 0xd3
def double : UInt8 := 0xcb
def str16 : UInt8 := 0xda
def bin16 : UInt8 := 0xc5
def bin32 : UInt8 := 0xc6
def arr16 : UInt8 := 0xdc
def map16 : UInt8 := 0xde

end MsgPackFmt

/-- The lengths are cast to 16 or 32 bits. -/
def msgPackScalar : Scalar → List UInt8
  | .uint value => MsgPackFmt.uint64 :: serializeNumber 8 value.toNat .big
  | .sint value => MsgPackFmt.int64 :: serializeNumber 8 value.toUInt64.toNat .big
  | .real bits => MsgPackFmt.double :: serializeNumber 8 bits.toNat .big
  | .zstr text => MsgPackFmt.str16 :: serializeNumber 2 text.length .big ++ text
  | .bytes data =>
    if data.length ≥ 0xffff then MsgPackFmt.bin32 :: serializeNumber 4 data.length .big ++ data
    else MsgPackFmt.bin16 :: serializeNumber 2 data.length .big ++ data

def serializeElement (heap : List Cell) : Nat → Nat → Result (List UInt8)
  | 0, _ => .error .undefined
  | depth + 1, elem =>
    match heap[elem]? with
    | none => .error .undefined
    | some (.scalar value) => .ok (msgPackScalar value)
    | some (.array items) => do
      let parts ← items.mapM (serializeElement heap depth)
      return MsgPackFmt.arr16 :: serializeNumber 2 items.length .big ++ parts.flatten
    | some (.hash entries) => do
      let parts ← entries.mapM fun (key, val) => do
        return (← serializeElement heap depth key) ++ (← serializeElement heap depth val)
      return MsgPackFmt.map16 :: serializeNumber 2 entries.length .big ++ parts.flatten

def serializeMsgPack (stack : Stack) : Result (List UInt8) :=
  List.flatten <$> stack.elems.mapM (serializeElement stack.heap stack.heap.length)

/-- `f`, `n` times. -/
def repeatM {σ : Type} (f : σ → Result σ) : Nat → σ → Result σ
  | 0, state => .ok state
  | n + 1, state => do repeatM f n (← f state)

/-- A big-endian number at a pointer, and the pointer behind it. -/
def readBig (width : Nat) (data : List UInt8) : Result (Nat × List UInt8) := do
  let (bytes, data) ← readBytes width data
  return (readValue bytes .big, data)

/-- `cargo::expected::value`, which is not to be called on an error. -/
def value {α : Type} : Except Err α → Result α
  | .ok result => .ok result
  | .error _ => .error .undefined

/-- A tag, and the element that it announces. -/
def nextElement (element : Stack → UInt8 → List UInt8 → Result (Stack × List UInt8))
    (state : Stack × List UInt8) : Result (Stack × List UInt8) :=
  match state.2 with
  | [] => .error .undefined
  | tag :: data => element state.1 tag data

/-- The results of the operations on the stack are not looked at. -/
def arrayItem (next : Stack × List UInt8 → Result (Stack × List UInt8)) (arrIdx : Nat)
    (state : Stack × List UInt8) : Result (Stack × List UInt8) := do
  let (stack, data) ← next state
  let stack := (stack.arrAppend arrIdx (← value stack.top)).2
  return (stack.pop.2, data)

def mapEntry (next : Stack × List UInt8 → Result (Stack × List UInt8)) (mapIdx : Nat)
    (state : Stack × List UInt8) : Result (Stack × List UInt8) := do
  let (stack, data) ← next (← next state)
  let top ← value stack.top
  let stack := (stack.hashSetKv mapIdx (top - 1) top).2
  return (stack.pop.2.pop.2, data)

def deserializeElement : Nat → Stack → UInt8 → List UInt8 → Result (Stack × List UInt8)
  | 0, _, _, _ => .error .undefined
  | depth + 1, stack, fmt, data =>
    if fmt = MsgPackFmt.uint64 then do
      let (val, data) ← readBig 8 data
      return ((stack.pushUnsigned (.ofNat val)).2, data)
    else if fmt = MsgPackFmt.int64 then do
      let (val, data) ← readBig 8 data
      return ((stack.pushSigned (.ofUInt64 (.ofNat val))).2, data)
    else if fmt = MsgPackFmt.double then do
      let (val, data) ← readBig 8 data
      return ((stack.pushReal (.ofNat val)).2, data)
    else if fmt = MsgPackFmt.bin16 then do
      let (binLen, data) ← readBig 2 data
      let (bytes, data) ← readBytes binLen data
      return ((stack.pushBytes bytes).2, data)
    else if fmt = MsgPackFmt.bin32 then do
      let (binLen, data) ← readBig 4 data
      let (bytes, data) ← readBytes binLen data
      return ((stack.pushBytes bytes).2, data)
    else if fmt = MsgPackFmt.str16 then do
      let (strLen, data) ← readBig 2 data
      let (str, data) ← readBytes strLen data
      return ((stack.pushZstr str).2, data)
    else if fmt = MsgPackFmt.arr16 then do
      let (arrLen, data) ← readBig 2 data
      let (pushed, stack) := stack.pushArr
      let arrIdx ← value pushed
      repeatM (arrayItem (nextElement (deserializeElement depth)) arrIdx) arrLen (stack, data)
    else if fmt = MsgPackFmt.map16 then do
      let (mapLen, data) ← readBig 2 data
      let (pushed, stack) := stack.pushMap
      let mapIdx ← value pushed
      repeatM (mapEntry (nextElement (deserializeElement depth)) mapIdx) mapLen (stack, data)
    else .error .undefined

/-- The loop of `deserialize`, which stops when `blockLen` bytes are read. -/
def deserializeLoop (block : List UInt8) (blockLen : Nat) :
    Nat → Stack → List UInt8 → Result Stack
  | 0, _, _ => .error .undefined
  | fuel + 1, stack, data =>
    if block.length - data.length < blockLen then do
      let (stack, data) ← nextElement (deserializeElement data.length) (stack, data)
      deserializeLoop block blockLen fuel stack data
    else .ok stack

/-- An element takes at least one byte. -/
def deserializeMsgPack (stack : Stack) (block : List UInt8) (blockLen : Nat) : Result Stack :=
  deserializeLoop block blockLen (block.length + 1) stack block

end ConstructionKit.Metadata
