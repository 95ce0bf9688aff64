import ConstructionKit.ProofKit.Bytes

/-! The argument packer of the HAL (`hal/source/arg_pack.cpp`) on a little-endian host. -/

namespace ConstructionKit.Args

open ProofKit

inductive ArgKind where
  | address | value
deriving DecidableEq, Repr

inductive AddrSpace where
  | localSpace | globalSpace
deriving DecidableEq, Repr

/-- `hal_arg_t`, with both members of its union. -/
structure HalArg where
  kind : ArgKind
  space : AddrSpace
  size : UInt64
  address : UInt64
  podData : List UInt8
deriving DecidableEq, Repr

def roundUpPower2 (v : UInt64) : UInt64 :=
  let v := v - 1
  let v := v ||| v >>> 1
  let v := v ||| v >>> 2
  let v := v ||| v >>> 4
  let v := v ||| v >>> 8
  let v := v ||| v >>> 16
  let v := v ||| v >>> 32
  v + 1

def roundToMultipleP2 (val mult : UInt64) : UInt64 := (val + (mult - 1)) &&& ~~~(mult - 1)

def calcPadding (writePoint alignSize : UInt64) : UInt64 :=
  roundToMultipleP2 writePoint alignSize - writePoint

/-- `std::vector::resize`, which throws when the size is more than the largest one. -/
def expand (pack : List UInt8) (numBytes : UInt64) : Option (List UInt8) :=
  let size := (UInt64.ofNat pack.length + numBytes).toNat
  if size < 2 ^ 63 then some (pack.take size ++ .replicate (size - pack.length) 0) else none

def memcpy (pack : List UInt8) (dest : Nat) (src : List UInt8) : Option (List UInt8) :=
  if dest + src.length ≤ pack.length then
    some (pack.take dest ++ src ++ pack.drop (dest + src.length))
  else none

/-- The cases of `add_arg` are alike: the pack is expanded by some bytes and the padding to an
alignment, and the bytes are copied behind the padding.  The result has the write point. -/
def addBytes (pack : List UInt8) (alignSize size : UInt64) (src : List UInt8) :
    Option (Nat × List UInt8) := do
  let writePoint := UInt64.ofNat pack.length
  let padding := calcPadding writePoint alignSize
  let pack ← expand pack (size + padding)
  let writePoint := (writePoint + padding).toNat
  return (writePoint, ← memcpy pack writePoint src)

/-- `none` is a failure, or reads bytes that are not there. -/
def addArg (wordSize : UInt32) (pack : List UInt8) (arg : HalArg) : Option (Nat × List UInt8) :=
  match arg.space, arg.kind with
  | .globalSpace, .address => addBytes pack 8 8 (leBytes 8 arg.address.toNat)
  | .globalSpace, .value =>
    if arg.size.toNat ≤ arg.podData.length then
      addBytes pack (roundUpPower2 arg.size) arg.size (arg.podData.take arg.size.toNat)
    else none
  | .localSpace, .address =>
    if wordSize = 64 then addBytes pack 8 8 (leBytes 8 arg.size.toNat)
    else if wordSize = 32 then addBytes pack 4 4 (leBytes 4 arg.size.toUInt32.toNat)
    else none
  | .localSpace, .value => none

/-- The write points of the arguments, and the pack. -/
def build (wordSize : UInt32) (args : List HalArg) : Option (List Nat × List UInt8) :=
  args.foldlM (fun (writePoints, pack) arg => do
    let (writePoint, pack) ← addArg wordSize pack arg
    return (writePoints ++ [writePoint], pack)) ([], [])

end ConstructionKit.Args
