import ConstructionKit.Metadata.Stack

/-! `md_loadf` of `metadata.cpp`: a format string says what to read from a stack. -/

namespace ConstructionKit.Metadata

/-- What a specifier stores through its arguments. -/
inductive Loaded where
  | zstr (buffer : List UInt8)
  | uint (value : UInt64)
  | sint (value : Int64)
  | real (bits : UInt64)
  | bytes (buffer : List UInt8)
deriving DecidableEq, Repr

/-- The state of the loop.  `arrayMapStack` starts with its top. -/
structure LoadState where
  arrayMapStack : List (Nat × Nat)
  curStackPointer : Nat
  isKey : Bool
  loaded : List Loaded

/-- The next element of the innermost array or hashtable, or the next one of the stack. -/
def LoadState.getValue (state : LoadState) (stack : Stack) : Result Nat :=
  match state.arrayMapStack with
  | [] =>
    match Metadata.getValue stack state.curStackPointer with
    | some val => .ok val
    | none => .error (.code .indexErr)
  | (value, index) :: _ =>
    match stack.heap[value]? with
    | some (.array items) =>
      match items[index]? with
      | some val => .ok val
      | none => .error (.code .indexErr)
    | some (.hash entries) =>
      match entries[index]? with
      | some (key, val) => .ok (if state.isKey then key else val)
      | none => .error (.code .indexErr)
    | some _ => .error (.code .invalidFmtStr)
    | none => .error .undefined

def LoadState.store (state : LoadState) (value : Loaded) : LoadState :=
  { state with loaded := state.loaded ++ [value] }

/-- When a value is no string, the cleanup frees a pointer that was never set. -/
def freed {α : Type} : Result α → Result α
  | .ok value => .ok value
  | .error _ => .error .undefined

/-- The top of the bookkeeping stack is not to be taken when it is empty. -/
def loadChar (stack : Stack) (state : LoadState) (c : Char) : Result LoadState :=
  if c = '[' then do
    let arr ← state.getValue stack
    match stack.heap[arr]? with
    | some (.array _) => return { state with arrayMapStack := (arr, 0) :: state.arrayMapStack }
    | some _ => throw (.code .typeErr)
    | none => throw .undefined
  else if c = '\x7b' then do
    let hash ← state.getValue stack
    match stack.heap[hash]? with
    | some (.hash _) =>
      return { state with arrayMapStack := (hash, 0) :: state.arrayMapStack, isKey := true }
    | some _ => throw (.code .typeErr)
    | none => throw .undefined
  else if c = ']' ∨ c = '\x7d' then
    match state.arrayMapStack with
    | [] => .error .undefined
    | _ :: rest => .ok { state with arrayMapStack := rest }
  else if c = ',' then
    match state.arrayMapStack with
    | [] => .error .undefined
    | (value, index) :: rest =>
      .ok { state with arrayMapStack := (value, index + 1) :: rest, isKey := true }
  else if c = ':' then .ok { state with isKey := false }
  else if c = 'z' then do
    return state.store (.zstr (← freed (getZstr stack.heap (← state.getValue stack))))
  else if c = 'u' then do
    return state.store (.uint (← getUint stack.heap (← state.getValue stack)))
  else if c = 'i' then do
    return state.store (.sint (← getSint stack.heap (← state.getValue stack)))
  else if c = 'f' then do
    return state.store (.real (← getReal stack.heap (← state.getValue stack)))
  else if c = 's' then do
    return state.store (.bytes (← freed (getBytes stack.heap (← state.getValue stack))))
  else .ok state

/-- Outside of arrays and hashtables, every character moves to the next element. -/
def loadf (stack : Stack) (fmt : List Char) : Result (List Loaded) := do
  let state ← fmt.foldlM (fun state c => do
    let state ← loadChar stack state c
    return if state.arrayMapStack = [] then
      { state with curStackPointer := state.curStackPointer + 1 } else state) ⟨[], 0, true, []⟩
  if state.arrayMapStack ≠ [] then throw (.code .invalidFmtStr)
  match stack.top with
  | .ok _ => return state.loaded
  | .error err => throw (.code err)

end ConstructionKit.Metadata
