import ConstructionKit.Printf.Layout
import ConstructionKit.ProofKit.Bytes

/-! A printf call as `PrintfReplacementPass::rewritePrintfCall` compiles it, and the loop of
`builtins::printf::print` that reads the records back from the chunk of one work-group.  Device and
host are little-endian, and the device has 64-bit pointers.  The text that `print` makes of a
record is not modelled. -/

namespace ConstructionKit.Printf

open ProofKit

/-- `builtins::printf::type`. -/
inductive PrintfType where
  | double | float | long | int | short | char | string
deriving DecidableEq, Repr

/-- `builtins::printf::descriptor`, without the format string. -/
structure Descriptor where
  types : List PrintfType
  strings : List String
deriving DecidableEq, Repr

/-! ### The compiled call -/

/-- The types of the scalar arguments that the pass accepts; a constant string comes with its
text. -/
inductive ArgType where
  | constantString (text : String)
  | pointer | double | float | half | i64 | i32 | i16 | i8
deriving DecidableEq, Repr

/-- The entry of the descriptor for an argument. -/
def ArgType.printfType (doubleSupport : Bool) : ArgType → PrintfType
  | constantString _ => .string
  | pointer => .long
  | double | float | half => if doubleSupport then .double else .float
  | i64 => .long
  | i32 => .int
  | i16 => .short
  | i8 => .char

/-- The text that a constant string adds to the strings of the descriptor. -/
def ArgType.text : ArgType → Option String
  | constantString text => some text
  | _ => none

/-- The width of the argument that the new function takes in its place, if it takes one. -/
def ArgType.sizeInBits (doubleSupport : Bool) : ArgType → Option Nat
  | constantString _ => none
  | pointer => some 64
  | double | float | half => some (if doubleSupport then 64 else 32)
  | i64 => some 64
  | i32 => some 32
  | i16 => some 16
  | i8 => some 8

/-- The bytes that the store of an argument takes. -/
def ArgType.storeSize (doubleSupport : Bool) (type : ArgType) : Nat :=
  ((type.sizeInBits doubleSupport).getD 0) / 8

/-- An argument with the bytes of its value, none for a constant string. -/
structure Arg (doubleSupport : Bool) where
  type : ArgType
  bytes : List UInt8
  length_bytes : bytes.length = type.storeSize doubleSupport

/-- An execution of a call: the index of its descriptor, and its arguments. -/
structure Call (doubleSupport : Bool) where
  id : UInt32
  args : List (Arg doubleSupport)

variable {doubleSupport : Bool}

/-- What the pass appends to `printf_calls` for the call. -/
def Call.descriptor (call : Call doubleSupport) : Descriptor where
  types := call.args.map fun arg => arg.type.printfType doubleSupport
  strings := call.args.filterMap fun arg => arg.type.text

/-- The stores of the arguments, at offsets from the start of the record. -/
def argStores (offset : Nat) : List (Arg doubleSupport) → List (Nat × List UInt8)
  | [] => []
  | arg :: args =>
    match arg.type.sizeInBits doubleSupport with
    | none => argStores offset args
    | some bits => (offset, arg.bytes) :: argStores (offset + bits / 8) args

/-- The stores of the store block: the id, then the arguments. -/
def Call.stores (call : Call doubleSupport) : List (Nat × List UInt8) :=
  (0, wordBytes call.id) :: argStores 4 call.args

/-- The final value of `offset`: the bytes that the call asks for. -/
def Call.offset (call : Call doubleSupport) : Nat :=
  4 + (call.args.map fun arg => arg.type.storeSize doubleSupport).sum

/-- Where a running call is.  `old` is the result of its first atomic add. -/
inductive Phase where
  /-- The bounds test is next. -/
  | test
  /-- In the store block, with `done` stores made. -/
  | store (done : Nat)
  /-- In the early return block. -/
  | overflow
  | returned (code : Int)
deriving DecidableEq, Repr

structure Thread (doubleSupport : Bool) where
  call : Call doubleSupport
  old : UInt32
  phase : Phase

/-- The first atomic add: it returns the old length. -/
def lengthAdd (mem : Memory) (call : Call doubleSupport) : Memory × Thread doubleSupport :=
  let old := mem.readWord 0
  (mem.writeWord 0 (old + UInt32.ofNat call.offset), ⟨call, old, .test⟩)

/-- The next atomic step of a call in a chunk of `size` bytes. -/
def advance (size : UInt32) (mem : Memory) (thread : Thread doubleSupport) :
    Memory × Thread doubleSupport :=
  match thread.phase with
  | .test =>
    let phase := if thread.old + UInt32.ofNat thread.call.offset > size then .overflow else .store 0
    (mem, { thread with phase })
  | .store done =>
    match thread.call.stores[done]? with
    | some (offset, bytes) =>
      (mem.write (gepOffset (thread.old + UInt32.ofNat offset)) bytes,
        { thread with phase := .store (done + 1) })
    | none => (mem, { thread with phase := .returned 0 })
  | .overflow =>
    let at4 := gepOffset 4
    (mem.writeWord at4 (mem.readWord at4 + UInt32.ofNat thread.call.offset),
      { thread with phase := .returned (-1) })
  | .returned _ => (mem, thread)

/-! ### The reader -/

/-- The bytes that `print` copies for an argument. -/
def PrintfType.size : PrintfType → Nat
  | double | long => 8
  | float | int => 4
  | short => 2
  | char => 1
  | string => 0

inductive Value where
  | bytes (type : PrintfType) (bytes : List UInt8)
  | text (string : String)
deriving DecidableEq, Repr

/-- A record as `print` reads it. -/
structure Printed where
  id : UInt32
  values : List Value
deriving DecidableEq, Repr

/-- `memcpy(&value, data + read, n)`; `none` is a read that is not inside the chunk. -/
def copyFrom (maxLength : Nat) (data : Memory) (read : UInt32) (n : Nat) : Option (List UInt8) :=
  if read.toNat + n ≤ maxLength then some (data.read read.toNat n) else none

/-- The loop over the types of a descriptor.  `none` also stands for a string index that is out of
range. -/
def readValues (maxLength : Nat) (data : Memory) (strings : List String) :
    List PrintfType → UInt32 → Nat → Option (List Value × UInt32)
  | [], read, _ => some ([], read)
  | .string :: types, read, stringIndex => do
    let string ← strings[stringIndex]?
    let (values, read) ← readValues maxLength data strings types read (stringIndex + 1)
    return (.text string :: values, read)
  | type :: types, read, stringIndex => do
    let bytes ← copyFrom maxLength data read type.size
    let (values, read) ← readValues maxLength data strings types (read + UInt32.ofNat type.size)
      stringIndex
    return (.bytes type bytes :: values, read)

/-- How the iteration of `print` for one work-group ends. -/
inductive PrintResult where
  /-- The loop has ended, and `groupOffset` is saved. -/
  | finished (records : List Printed) (groupOffset : UInt32)
  /-- A check has failed, after some records were printed. -/
  | corrupt (records : List Printed)
  | outOfBounds
  /-- The loop has not ended within the iterations given to it. -/
  | outOfFuel
deriving DecidableEq, Repr

/-- `while (read < size)`, with the records printed so far. -/
def printLoop (printfCalls : List Descriptor) (maxLength : Nat) (data : Memory) (size : UInt32) :
    Nat → UInt32 → List Printed → PrintResult
  | 0, _, _ => .outOfFuel
  | fuel + 1, read, records =>
    if read < size then
      match copyFrom maxLength data read 4 with
      | none => .outOfBounds
      | some bytes =>
        let id := wordOfBytes bytes
        match printfCalls[id.toNat]? with
        | none => .corrupt records
        | some desc =>
          match readValues maxLength data desc.strings desc.types (read + 4) 0 with
          | none => .outOfBounds
          | some (values, read) =>
            printLoop printfCalls maxLength data size fuel read (records ++ [⟨id, values⟩])
    else .finished records read

/-- The iteration of `print` for the work-group whose chunk is `data`. -/
def printGroup (printfCalls : List Descriptor) (maxLength : Nat) (data : Memory)
    (groupOffset : UInt32) : PrintResult :=
  match copyFrom maxLength data 0 4, copyFrom maxLength data 4 4 with
  | some size, some overflow =>
    let size := wordOfBytes size
    let overflow := wordOfBytes overflow
    if size < overflow then .corrupt []
    else
      let size := size - overflow
      if size.toNat > maxLength then .corrupt []
      else
        -- an iteration reads at least the 4 bytes of an id, so `size` iterations are enough
        printLoop printfCalls maxLength data size (size.toNat + 1)
          (if groupOffset = 0 then 8 else groupOffset) []
  | _, _ => .outOfBounds

end ConstructionKit.Printf
