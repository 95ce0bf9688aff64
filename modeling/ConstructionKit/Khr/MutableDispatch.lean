import Mathlib.Logic.Function.Basic
import ConstructionKit.Compiler.Info

/-! A mutable command buffer of `cl_khr_command_buffer_mutable_dispatch`
(`khr_command_buffer.cpp`, `command_queue.cpp`): how updates of its ND-range commands are queued, and
which mux command buffer gets them. -/

namespace ConstructionKit.Khr.Mutable

open Compiler

/-- The application's memory: its bytes, and the `cl_mem` that is stored at an address.  The address
and the `cl_mem` 0 are null. -/
structure Memory where
  bytes : Nat → UInt8
  mems : Nat → Nat

/-- `mux_descriptor_info_s`.  A `pointer` is plain old data in the update's own storage,
`plainOldData` in the application's memory. -/
inductive Descriptor where
  | nullBuffer
  | buffer (mem : Nat)
  | sharedLocalBuffer (size : Nat)
  | pointer (value : Nat)
  | plainOldData (data length : Nat)
deriving DecidableEq, Repr

/-- What an ND-range command of a mux command buffer has for an argument. -/
inductive Value where
  | null
  | buffer (mem : Nat)
  | sharedLocalBuffer (size : Nat)
  | pointer (value : Nat)
  | bytes (data : List UInt8)
deriving DecidableEq, Repr

/-- What `muxUpdateDescriptors` copies. -/
def Descriptor.read (memory : Memory) : Descriptor → Value
  | .nullBuffer => .null
  | .buffer mem => .buffer mem
  | .sharedLocalBuffer size => .sharedLocalBuffer size
  | .pointer value => .pointer value
  | .plainOldData data length => .bytes ((List.range length).map fun i => memory.bytes (data + i))

def Descriptor.byValue : Descriptor → Bool
  | .plainOldData .. => true
  | .nullBuffer | .buffer _ | .sharedLocalBuffer _ | .pointer _ => false

/-- The arguments of the ND-range commands of a mux command buffer, by the id of the command and the
index of the argument. -/
abbrev Contents := Nat → Nat → Value

def Contents.set (contents : Contents) (id index : Nat) (value : Value) : Contents :=
  Function.update contents id (Function.update (contents id) index value)

/-- An element of `info->argument_types`, with the size of the value that `saved_args` has. -/
structure ArgumentType where
  kind : ArgumentKind
  addressSpace : Nat
  size : Nat
deriving DecidableEq, Repr

/-- `compiler::AddressSpace`, which may have other values. -/
def AddressSpace.global : Nat := 1
def AddressSpace.constant : Nat := 2
def AddressSpace.local : Nat := 3

/-- `IMAGE2D` to `SAMPLER`. -/
def isImageOrSampler (kind : ArgumentKind) : Bool := 51 ≤ kind.value && kind.value ≤ 57

/-- `INT8` to `STRUCTBYVAL`. -/
def isPlainOldData (kind : ArgumentKind) : Bool := 8 ≤ kind.value && kind.value ≤ 50

/-- `cl_mutable_command_khr` of an ND-range command: the arguments of its kernel, and whether
`updatable_fields` has `CL_MUTABLE_DISPATCH_ARGUMENTS_KHR`. -/
structure MutableCommand where
  argumentTypes : List ArgumentType
  updatableFields : Bool
deriving DecidableEq, Repr

/-- `cl_mutable_dispatch_arg_khr`, also of `arg_svm_list`. -/
structure Arg where
  argIndex : Nat
  argSize : Nat
  argValue : Nat
deriving DecidableEq, Repr

/-- `cl_mutable_dispatch_config_khr`.  `command` is the index of a command of the command buffer, and
none for a null pointer or a command of another one; a list is none for a null pointer. -/
structure Config where
  isDispatchConfig : Bool
  command : Option Nat
  numArgs : Nat
  argList : Option (List Arg)
  numSvmArgs : Nat
  argSvmList : Option (List Arg)
deriving DecidableEq, Repr

/-- `cl_mutable_base_config_khr`; `next` is whether there is one. -/
structure BaseConfig where
  isBaseConfig : Bool
  next : Bool
  mutableDispatchList : List Config
deriving DecidableEq, Repr

inductive Error where
  | invalidOperation
  | invalidValue
  | invalidMutableCommand
  | invalidArgIndex
  | invalidArgSize
  | invalidArgValue
deriving DecidableEq, Repr

/-- `UpdateInfo`: the indices with the descriptors. -/
structure UpdateInfo where
  id : Nat
  args : List (Nat × Descriptor)
deriving DecidableEq, Repr

/-- An execution that is not complete: of the mux command buffer that the command buffer owns, or of a
clone. -/
inductive Execution where
  | original
  | clone (contents : Contents)

/-- `_cl_command_buffer_khr`; `commands` are those that were recorded, with none for one that is not an
ND-range. -/
structure CommandBuffer where
  supportsSimultaneousUse : Bool
  isMutable : Bool
  isFinalized : Bool
  commands : List (Option MutableCommand)
  muxCommandBuffer : Contents
  updates : List UpdateInfo
  executionRefcount : Nat
  executions : List Execution

/-! ### Descriptors -/

/-- `sizeof(cl_mem)` -/
def sizeofMem : Nat := 8

/-- `createArgumentDescriptor`; `isBuffer` says which memory objects are buffers. -/
def createArgumentDescriptor (isBuffer : Nat → Bool) (memory : Memory) (command : MutableCommand)
    (arg : Arg) : Except Error Descriptor :=
  match command.argumentTypes[arg.argIndex]? with
  | none => .error .invalidArgIndex
  | some argType =>
    if isImageOrSampler argType.kind then .error .invalidArgValue
    else if argType.kind = .pointer then
      if argType.addressSpace = AddressSpace.global ∨ argType.addressSpace = AddressSpace.constant then
        if sizeofMem ≠ arg.argSize then .error .invalidArgSize
        else if arg.argValue = 0 ∨ memory.mems arg.argValue = 0 then .ok .nullBuffer
        else if !isBuffer (memory.mems arg.argValue) then .error .invalidArgValue
        else .ok (.buffer (memory.mems arg.argValue))
      else if argType.addressSpace = AddressSpace.local then
        if arg.argValue ≠ 0 then .error .invalidValue
        else if arg.argSize = 0 then .error .invalidArgSize
        else .ok (.sharedLocalBuffer arg.argSize)
      else .error .invalidMutableCommand
    else if isPlainOldData argType.kind then
      if argType.size ≠ arg.argSize then .error .invalidArgSize
      else .ok (.plainOldData arg.argValue arg.argSize)
    else .error .invalidMutableCommand

/-- The body of the loop over `svm_args`. -/
def createSvmDescriptor (command : MutableCommand) (arg : Arg) : Except Error Descriptor :=
  match command.argumentTypes[arg.argIndex]? with
  | none => .error .invalidArgIndex
  | some argType =>
    if argType.kind ≠ .pointer then .error .invalidMutableCommand
    else if ¬(argType.addressSpace = AddressSpace.global ∨
        argType.addressSpace = AddressSpace.constant) then .error .invalidArgValue
    else .ok (.pointer arg.argValue)

/-! ### Updates -/

namespace CommandBuffer

variable (s : CommandBuffer)

/-- The command of a handle. -/
def findCommand (config : Config) : Option (Nat × MutableCommand) := do
  let id ← config.command
  let command ← (← s.commands[id]?)
  return (id, command)

/-- The first loop of `updateCommandBuffer`. -/
def verify (config : Config) : Except Error Unit :=
  if !config.isDispatchConfig then .error .invalidValue
  else match s.findCommand config with
    | none => .error .invalidMutableCommand
    | some (_, command) =>
      if config.argList.isNone ^^ decide (config.numArgs = 0) then .error .invalidValue
      else if config.argSvmList.isNone ^^ decide (config.numSvmArgs = 0) then .error .invalidValue
      else if !command.updatableFields then .error .invalidOperation
      else .ok ()

/-- A round of the second loop of `updateCommandBuffer`. -/
def createUpdate (isBuffer : Nat → Bool) (memory : Memory) (config : Config) :
    Except Error UpdateInfo :=
  match s.findCommand config with
  | none => .error .invalidMutableCommand
  | some (id, command) => do
    let args ← ((config.argList.getD []).take config.numArgs).mapM fun arg => do
      return (arg.argIndex, ← createArgumentDescriptor isBuffer memory command arg)
    let svmArgs ← ((config.argSvmList.getD []).take config.numSvmArgs).mapM fun arg => do
      return (arg.argIndex, ← createSvmDescriptor command arg)
    return ⟨id, args ++ svmArgs⟩

/-- The second loop of `updateCommandBuffer`, with what it has queued when it ends or fails. -/
def createUpdates (s : CommandBuffer) (isBuffer : Nat → Bool) (memory : Memory) :
    List Config → Except Error Unit × List UpdateInfo
  | [] => (.ok (), [])
  | config :: configs =>
    match s.createUpdate isBuffer memory config with
    | .error e => (.error e, [])
    | .ok update =>
      let (result, updates) := createUpdates s isBuffer memory configs
      (result, update :: updates)

def updateCommandBuffer (isBuffer : Nat → Bool) (memory : Memory)
    (configs : List Config) : Except Error Unit × List UpdateInfo :=
  match configs.forM s.verify with
  | .error e => (.error e, [])
  | .ok () => s.createUpdates isBuffer memory configs

/-- `clUpdateMutableCommandsKHR`: the result, and the updates that it queues. -/
def clUpdateMutableCommands (isBuffer : Nat → Bool) (memory : Memory)
    (mutableConfig : Option BaseConfig) : Except Error Unit × List UpdateInfo :=
  if !s.isFinalized then (.error .invalidOperation, [])
  else if !s.supportsSimultaneousUse ∧ 0 < s.executionRefcount then (.error .invalidOperation, [])
  else if !s.isMutable then (.error .invalidOperation, [])
  else match mutableConfig with
    | none => (.error .invalidValue, [])
    | some config =>
      if !config.isBaseConfig ∨ config.next ∨ config.mutableDispatchList = [] then
        (.error .invalidValue, [])
      else s.updateCommandBuffer isBuffer memory config.mutableDispatchList

end CommandBuffer

/-! ### Enqueues -/

/-- The loop of `hostUpdateDescriptors` and `riscvUpdateDescriptors`. -/
def patch (memory : Memory) (contents : Contents) (id : Nat) (args : List (Nat × Descriptor)) :
    Contents :=
  args.foldl (fun contents arg => contents.set id arg.1 (arg.2.read memory)) contents

/-- `muxUpdateDescriptors` -/
def muxUpdateDescriptors (memory : Memory) (contents : Contents) (update : UpdateInfo) :
    Except Error Contents :=
  if update.args.length = 0 then .error .invalidValue
  else .ok (patch memory contents update.id update.args)

/-- The loop of `enqueueCommandBuffer` over the updates, with what it leaves when it ends or fails. -/
def applyUpdates (memory : Memory) (contents : Contents) :
    List UpdateInfo → Except Error Unit × Contents
  | [] => (.ok (), contents)
  | update :: updates =>
    match muxUpdateDescriptors memory contents update with
    | .error e => (.error e, contents)
    | .ok contents => applyUpdates memory contents updates

namespace CommandBuffer

/-- `enqueueCommandBuffer`; the mux command buffer is cloned if it is in use. -/
def enqueueCommandBuffer (s : CommandBuffer) (memory : Memory) : Except Error Unit × CommandBuffer :=
  let (result, contents) := applyUpdates memory s.muxCommandBuffer s.updates
  if 0 < s.executionRefcount then
    match result with
    | .error e => (.error e, s)
    | .ok () => (.ok (), { s with
        updates := []
        executionRefcount := s.executionRefcount + 1
        executions := s.executions ++ [.clone contents] })
  else
    match result with
    | .error e => (.error e, { s with muxCommandBuffer := contents })
    | .ok () => (.ok (), { s with
        muxCommandBuffer := contents
        updates := []
        executionRefcount := s.executionRefcount + 1
        executions := s.executions ++ [.original] })

/-- `clEnqueueCommandBufferKHR` -/
def clEnqueueCommandBuffer (s : CommandBuffer) (memory : Memory) :
    Except Error Unit × CommandBuffer :=
  if !s.isFinalized then (.error .invalidOperation, s)
  else if !s.supportsSimultaneousUse ∧ 0 < s.executionRefcount then (.error .invalidOperation, s)
  else s.enqueueCommandBuffer memory

/-! ### Other calls -/

def create (supportsSimultaneousUse isMutable : Bool) : CommandBuffer where
  supportsSimultaneousUse
  isMutable
  isFinalized := false
  commands := []
  muxCommandBuffer _ _ := .null
  updates := []
  executionRefcount := 0
  executions := []

/-- `clCommandNDRangeKernelKHR`, with the arguments that the kernel has then, and the other commands,
for which there is no `MutableCommand`. -/
def record (s : CommandBuffer) (command : Option MutableCommand) (args : Nat → Value) :
    CommandBuffer :=
  if s.isFinalized then s
  else { s with
    commands := s.commands ++ [command]
    muxCommandBuffer := Function.update s.muxCommandBuffer s.commands.length args }

/-- `clFinalizeCommandBufferKHR` -/
def finalize (s : CommandBuffer) : CommandBuffer := { s with isFinalized := true }

/-- The end of an execution. -/
def complete (s : CommandBuffer) (i : Nat) : CommandBuffer :=
  if i < s.executions.length then
    { s with
      executionRefcount := s.executionRefcount - 1
      executions := s.executions.eraseIdx i }
  else s

/-- What an execution finds in its mux command buffer. -/
def contentsOf (s : CommandBuffer) : Execution → Contents
  | .original => s.muxCommandBuffer
  | .clone contents => contents

end CommandBuffer

end ConstructionKit.Khr.Mutable
