/-! Stacks of metadata values (`metadata/detail/md_stack.h`, `md_value.h`) and the functions of
`metadata.cpp` that read values.  A value is a reference to storage that its copies share, so a stack
comes with the storage that its values have allocated, and a value is an address there. -/

namespace ConstructionKit.Metadata

/-! ### Results -/

/-- The error codes of `md_err`. -/
inductive Err where
  | oom | typeErr | rangeErr | indexErr | keyErr | duplicateKey | precisionErr | emptyStack
  | stackCorrupt | invalidFmtStr | invalidBinary | invalidKey | noHooks | invalidFlags
  | stackNotRegistered | stackAlreadyRegistered | stackFinalized
deriving DecidableEq, Repr

/-- Why a call has no value: an error code, the text of a decoding error, or that the behaviour of
the source is undefined there. -/
inductive Fault where
  | code (err : Err)
  | text (message : String)
  | undefined
deriving DecidableEq, Repr

abbrev Result (α : Type) := Except Fault α

/-- `md_fmt`. -/
inductive Fmt where
  | rawBytes | msgpack | json | llvmBcMd | llvmTextMd
deriving DecidableEq, Repr

/-! ### Values -/

/-- A `double` is given by its bits. -/
inductive Scalar where
  | uint (value : UInt64)
  | sint (value : Int64)
  | real (bits : UInt64)
  | zstr (text : List UInt8)
  | bytes (data : List UInt8)
deriving DecidableEq, Repr

/-- What a value's storage holds. -/
inductive Cell where
  | scalar (value : Scalar)
  | array (items : List Nat)
  | hash (entries : List (Nat × Nat))
deriving DecidableEq, Repr

/-- Whether a value can be the key of a hashtable. -/
def Cell.isKey : Cell → Bool
  | scalar (.bytes _) | array _ | hash _ => false
  | scalar _ => true

/-- The string that a `const char *` points to. -/
def cString (text : List UInt8) : List UInt8 := text.takeWhile (· ≠ 0)

/-! ### `basic_stack` -/

structure Stack where
  heap : List Cell
  elems : List Nat
  finalized : Bool
  outFmt : Fmt
deriving DecidableEq, Repr

namespace Stack

def empty (outFmt : Fmt) : Stack := ⟨[], [], false, outFmt⟩

variable (stack : Stack)

def top : Except Err Nat :=
  if stack.elems = [] then .error .emptyStack else .ok (stack.elems.length - 1)

/-- The storage of the element at an index. -/
def cell (idx : Nat) : Option Cell := stack.elems[idx]?.bind (stack.heap[·]?)

/-- The index of the new element, and the stack with it. -/
def push (cell : Cell) : Except Err Nat × Stack :=
  if stack.finalized then (.error .stackFinalized, stack)
  else
    let stack := { stack with
      heap := stack.heap ++ [cell], elems := stack.elems ++ [stack.heap.length] }
    (stack.top, stack)

def pushUnsigned (value : UInt64) : Except Err Nat × Stack :=
  stack.push (.scalar (.uint value))

def pushSigned (value : Int64) : Except Err Nat × Stack :=
  stack.push (.scalar (.sint value))

def pushReal (bits : UInt64) : Except Err Nat × Stack :=
  stack.push (.scalar (.real bits))

def pushZstr (text : List UInt8) : Except Err Nat × Stack :=
  stack.push (.scalar (.zstr (cString text)))

def pushBytes (data : List UInt8) : Except Err Nat × Stack :=
  stack.push (.scalar (.bytes data))

def pushArr : Except Err Nat × Stack := stack.push (.array [])

def pushMap : Except Err Nat × Stack := stack.push (.hash [])

/-- The new top is the result, which is an error when the last element has been removed. -/
def pop : Except Err Nat × Stack :=
  if stack.finalized then (.error .stackFinalized, stack)
  else if stack.elems = [] then (.error .emptyStack, stack)
  else
    let stack := { stack with elems := stack.elems.dropLast }
    (stack.top, stack)

/-- The index of the appended element within the array. -/
def arrAppend (arrIdx elemIdx : Nat) : Except Err Nat × Stack :=
  if stack.finalized then (.error .stackFinalized, stack)
  else match stack.top with
  | .error err => (.error err, stack)
  | .ok top =>
    if elemIdx ≤ arrIdx then (.error .indexErr, stack)
    else if elemIdx > top ∨ arrIdx > top then (.error .indexErr, stack)
    else match stack.elems[arrIdx]?, stack.elems[elemIdx]?, stack.cell arrIdx with
    | some arr, some elem, some (.array items) =>
      (.ok items.length, { stack with heap := stack.heap.set arr (.array (items ++ [elem])) })
    | _, _, _ => (.error .typeErr, stack)

/-- `basic_map::insert` compares keys with `basic_value::operator==`, which compares the references
to the storage. -/
def hashSetKv (mapIdx keyIdx valIdx : Nat) : Except Err Nat × Stack :=
  if stack.finalized then (.error .stackFinalized, stack)
  else match stack.top with
  | .error err => (.error err, stack)
  | .ok top =>
    if keyIdx ≤ mapIdx ∨ valIdx ≤ mapIdx then (.error .indexErr, stack)
    else if mapIdx > top ∨ keyIdx > top ∨ valIdx > top then (.error .indexErr, stack)
    else match stack.elems[mapIdx]?, stack.elems[keyIdx]?, stack.elems[valIdx]?,
        stack.cell mapIdx with
    | some map, some key, some val, some (.hash entries) =>
      if !(stack.cell keyIdx).any (·.isKey) then (.error .keyErr, stack)
      else if entries.any (·.1 = key) then (.error .duplicateKey, stack)
      else (.ok entries.length,
        { stack with heap := stack.heap.set map (.hash (entries ++ [(key, val)])) })
    | _, _, _, _ => (.error .typeErr, stack)

def freezeStack : Except Err Stack :=
  if stack.finalized then .error .stackFinalized else .ok { stack with finalized := true }

def setOutFmt (fmt : Fmt) : Stack := { stack with outFmt := fmt }

end Stack

/-- `MD_CHECK_ERR` on the result of an operation. -/
def check (result : Except Err Nat × Stack) : Result (Nat × Stack) :=
  match result with
  | (.ok idx, stack) => .ok (idx, stack)
  | (.error err, _) => .error (.code err)

/-! ### Reading values

A handle that refers to no value is not to be used. -/

/-- `md_get_value`; `none` is a null pointer. -/
def getValue (stack : Stack) (idx : Nat) : Option Nat :=
  match stack.top with
  | .error _ => none
  | .ok top => if idx > top then none else stack.elems[idx]?

/-- `strncpy`, which stops at a null and fills the rest with nulls. -/
def strncpy (src : List UInt8) (n : Nat) : List UInt8 :=
  let copied := (cString src).take n
  copied ++ List.replicate (n - copied.length) 0

/-- A scalar of the type that `select` is defined on. -/
def getScalar {α : Type} (select : Scalar → Option α) (heap : List Cell) (val : Nat) : Result α :=
  match heap[val]? with
  | some (.scalar value) =>
    match select value with
    | some result => .ok result
    | none => .error (.code .typeErr)
  | some _ => .error (.code .typeErr)
  | none => .error .undefined

def getBytes : List Cell → Nat → Result (List UInt8) := getScalar fun
  | .bytes data => some data
  | _ => none

/-- The buffer of `md_get_zstr`.  Its length is the one of the string and its null. -/
def getZstr : List Cell → Nat → Result (List UInt8) := getScalar fun
  | .zstr text => some (strncpy text (text.length + 1))
  | _ => none

def getReal : List Cell → Nat → Result UInt64 := getScalar fun
  | .real bits => some bits
  | _ => none

def getSint : List Cell → Nat → Result Int64 := getScalar fun
  | .sint value => some value
  | _ => none

def getUint : List Cell → Nat → Result UInt64 := getScalar fun
  | .uint value => some value
  | _ => none

def getArraySize (heap : List Cell) (array : Nat) : Result Nat :=
  match heap[array]? with
  | some (.array items) => .ok items.length
  | some _ => .error (.code .typeErr)
  | none => .error .undefined

def getArrayIdx (heap : List Cell) (array idx : Nat) : Result Nat :=
  match heap[array]? with
  | some (.array items) =>
    match items[idx]? with
    | some val => .ok val
    | none => .error (.code .indexErr)
  | some _ => .error (.code .typeErr)
  | none => .error .undefined

/-- `md_get_hashtable_key`.  `basic_map::find` compares references, as `insert` does.  The storage of a
value of another stack is at an address that is not used here. -/
def getHashtableKey (heap : List Cell) (ht key : Nat) : Result Nat :=
  match heap[ht]? with
  | some (.hash entries) =>
    match entries.find? (·.1 = key) with
    | some (_, val) => .ok val
    | none => .error (.code .invalidKey)
  | some _ => .error (.code .typeErr)
  | none => .error .undefined

end ConstructionKit.Metadata
