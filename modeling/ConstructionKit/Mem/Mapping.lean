import Mathlib.Data.Finmap

/-! Mapping a buffer and its sub-buffers into host memory (`source/cl/source/mem.cpp`,
`EnqueueMapBuffer` in `source/cl/source/buffer.cpp`): the checks of the two entry points, the table
of write mappings that they keep, and the commands that they enqueue.  Offsets and sizes are
`size_t`; the table holds them as `cl_uint`.  A pointer is a natural number, null is 0.  Calls of
the device library succeed. -/

namespace ConstructionKit.Mem

/-! ### Objects -/

/-- A buffer or a sub-buffer, with its offset in the parent and the flags that mapping reads. -/
structure BufferObject where
  offset : UInt64
  size : UInt64
  hostReadOnly : Bool
  hostWriteOnly : Bool
  hostNoAccess : Bool
deriving DecidableEq, Repr

/-- A buffer with its sub-buffers, and the device of the queue. -/
structure Family (ι : Type) where
  parent : BufferObject
  subBuffer : ι → BufferObject
  /-- `host_ptr` of a buffer with `CL_MEM_USE_HOST_PTR`. -/
  hostPtr : Option Nat
  memBaseAddrAlign : UInt32
  parent_offset : parent.offset = 0

/-- A `cl_mem` argument: the buffer itself, or one of its sub-buffers. -/
abbrev MemObject (ι : Type) := Option ι

variable {ι : Type}

def Family.object (family : Family ι) : MemObject ι → BufferObject
  | none => family.parent
  | some i => family.subBuffer i

/-- `_cl_mem::mapping`. -/
structure WriteMapping where
  offset : UInt32
  size : UInt32
  isActive : Bool
deriving DecidableEq, Repr

/-- `std::unordered_map<void *, mapping>`. -/
abbrev WriteMappings := Finmap fun _ : Nat => WriteMapping

inductive ClError where
  | invalidValue | misalignedSubBufferOffset | invalidOperation
deriving DecidableEq, Repr

/-- The accesses that `map_flags` ask for. -/
structure MapAccess where
  read : Bool
  write : Bool
  writeInvalidateRegion : Bool
deriving DecidableEq, Repr

def MapAccess.writes (access : MapAccess) : Bool := access.write || access.writeInvalidateRegion

/-! ### State -/

/-- A mapping as the application sees it: the object that it mapped, the pointer that it got, and
the bytes of the underlying allocation. -/
structure AppMapping (ι : Type) where
  object : MemObject ι
  ptr : Nat
  offset : Nat
  size : Nat
  writes : Bool
deriving DecidableEq, Repr

/-- The command that a call enqueues.  An unmap command also names the mapping that the application
ends by it, which no function reads. -/
inductive Command (ι : Type) where
  | map (offset size : UInt64) (access : MapAccess)
  | unmap (object : MemObject ι) (ptr : Nat) (ends : Option (AppMapping ι))
deriving DecidableEq, Repr

/-- The fields of the parent, the tables of all objects, and the commands of the queue that have
not been executed. -/
structure State (ι : Type) where
  mapCount : UInt32
  mapBasePointer : Nat
  writeMappings : MemObject ι → WriteMappings
  pending : List (Command ι)

def State.init : State ι := ⟨0, 0, fun _ => ∅, []⟩

/-- What the execution of a command does to the memory.  `copyToHost` and `copyFromHost` are the
copies between `map_base_pointer` and `host_ptr`. -/
inductive Effect where
  | flushFromDevice (offset size : Nat)
  | copyToHost (offset size : Nat)
  | copyFromHost (offset size : Nat)
  | flushToDevice (offset size : Nat)
  | unmapMemory
deriving DecidableEq, Repr

/-! ### `clEnqueueMapBuffer` -/

def mapRead : UInt64 := 1
def mapWrite : UInt64 := 2
def mapWriteInvalidateRegion : UInt64 := 4

/-- The accesses of `map_flags`, where no flag stands for reading and writing. -/
def mapAccess (mapFlags : UInt64) : MapAccess :=
  let mapFlags := if mapFlags = 0 then mapRead ||| mapWrite else mapFlags
  ⟨mapFlags &&& mapRead != 0, mapFlags &&& mapWrite != 0,
    mapFlags &&& mapWriteInvalidateRegion != 0⟩

/-- The checks of `EnqueueMapBuffer` that do not look at other mappings. -/
def checkMapArguments (family : Family ι) (buffer : MemObject ι) (mapFlags offset size : UInt64) :
    Except ClError MapAccess :=
  let object := family.object buffer
  let access := mapAccess mapFlags
  if offset > object.size then .error .invalidValue
  else if offset + size > object.size then .error .invalidValue
  else if size = 0 then .error .invalidValue
  else if mapFlags &&& ~~~(mapRead ||| mapWrite ||| mapWriteInvalidateRegion) ≠ 0 then
    .error .invalidValue
  else if (access.read || access.write) && access.writeInvalidateRegion then .error .invalidValue
  else if buffer.isSome ∧ object.offset % (family.memBaseAddrAlign / 8).toUInt64 ≠ 0 then
    .error .misalignedSubBufferOffset
  else if access.read && (object.hostWriteOnly || object.hostNoAccess) then
    .error .invalidOperation
  else if access.writes && (object.hostReadOnly || object.hostNoAccess) then
    .error .invalidOperation
  else .ok access

/-- The test of `_cl_mem::overlaps` for one record; its end is computed in `cl_uint`. -/
def WriteMapping.overlaps (mapping : WriteMapping) (offset size : UInt64) : Bool :=
  mapping.isActive &&
    ((offset ≥ mapping.offset.toUInt64 && offset < (mapping.offset + mapping.size).toUInt64) ||
      (offset < mapping.offset.toUInt64 && offset + size > mapping.offset.toUInt64))

def overlaps (mappings : WriteMappings) (offset size : UInt64) : Bool :=
  mappings.any fun _ mapping => mapping.overlaps offset size

/-- `insert` of an unordered map keeps the value of a key that is there. -/
def insertMapping (mappings : WriteMappings) (ptr : Nat) (mapping : WriteMapping) :
    WriteMappings :=
  if ptr ∈ mappings then mappings else mappings.insert ptr mapping

/-- The pointer from which mapped pointers are derived. -/
def State.basePointer (family : Family ι) (state : State ι) : Nat :=
  family.hostPtr.getD state.mapBasePointer

/-- `_cl_mem::pushMapMemory`: the first mapping maps the memory of the parent, for which the device
returns `base`. -/
def pushMapMemory [DecidableEq ι] (family : Family ι) (state : State ι) (buffer : MemObject ι)
    (offset size : UInt64) (access : MapAccess) (base : Nat) : Nat × State ι :=
  let offset := offset + (family.object buffer).offset
  let state := if state.mapCount = 0 then { state with mapBasePointer := base } else state
  let mappedPointer := state.basePointer family + offset.toNat
  let table := if access.writes then
      insertMapping (state.writeMappings none) mappedPointer ⟨offset.toUInt32, size.toUInt32, true⟩
    else state.writeMappings none
  (mappedPointer,
    { state with
      mapCount := state.mapCount + 1
      writeMappings := Function.update state.writeMappings none table
      pending := state.pending ++ [.map offset size access] })

def enqueueMapBuffer [DecidableEq ι] (family : Family ι) (state : State ι) (buffer : MemObject ι)
    (mapFlags offset size : UInt64) (base : Nat) : Except ClError (Nat × State ι) :=
  match checkMapArguments family buffer mapFlags offset size with
  | .error e => .error e
  | .ok access =>
    -- the table is that of the object passed, and the offset is relative to it
    if access.writes && overlaps (state.writeMappings buffer) offset size then
      .error .invalidOperation
    else .ok (pushMapMemory family state buffer offset size access base)

/-! ### `clEnqueueUnmapMemObject` -/

def deactivate (mappings : WriteMappings) (ptr : Nat) : WriteMappings :=
  match mappings.lookup ptr with
  | some mapping =>
    if mapping.isActive then mappings.insert ptr { mapping with isActive := false } else mappings
  | none => mappings

def enqueueUnmapMemObject [DecidableEq ι] (family : Family ι) (state : State ι)
    (memobj : MemObject ι) (mappedPtr : Nat) (ends : Option (AppMapping ι)) :
    Except ClError (State ι) :=
  let basePointer := state.basePointer family
  if mappedPtr = 0 then .error .invalidValue
  else if basePointer = 0 then .error .invalidValue
  else if mappedPtr < basePointer ∨ mappedPtr ≥ basePointer + family.parent.size.toNat then
    .error .invalidValue
  else .ok { state with
    writeMappings := Function.update state.writeMappings memobj
      (deactivate (state.writeMappings memobj) mappedPtr)
    pending := state.pending ++ [.unmap memobj mappedPtr ends] }

/-! ### Execution -/

/-- `mapping_state_t::flushMemoryFromDevice`, in the callback of a map command. -/
def mapEffects (family : Family ι) (offset size : UInt64) (access : MapAccess) : List Effect :=
  if access.write || access.read then
    .flushFromDevice offset.toNat size.toNat ::
      (if family.hostPtr.isSome then [.copyToHost offset.toNat size.toNat] else [])
  else []

/-- The part of the callback of an unmap command that looks at the record of its pointer. -/
def publishEffects (family : Family ι) (record : Option WriteMapping) : List Effect :=
  match record with
  | some mapping =>
    (if family.hostPtr.isSome then [.copyFromHost mapping.offset.toNat mapping.size.toNat]
      else []) ++ [.flushToDevice mapping.offset.toNat mapping.size.toNat]
  | none => []

/-- The execution of the first command of the queue. -/
def executeNext [DecidableEq ι] (family : Family ι) (state : State ι) :
    Option (State ι × List Effect) :=
  match state.pending with
  | [] => none
  | .map offset size access :: rest =>
    some ({ state with pending := rest }, mapEffects family offset size access)
  | .unmap _ ptr _ :: rest =>
    let last := state.mapCount = 1
    some
      ({ mapCount := state.mapCount - 1
         mapBasePointer := if last then 0 else state.mapBasePointer
         writeMappings := Function.update state.writeMappings none
           ((state.writeMappings none).erase ptr)
         pending := rest },
        publishEffects family ((state.writeMappings none).lookup ptr) ++
          (if last then [.unmapMemory] else []))

/-! ### Calls and runs -/

/-- The state of the runtime, with the mappings that the application has and has not unmapped. -/
structure System (ι : Type) where
  state : State ι
  live : List (AppMapping ι)

def System.init : System ι := ⟨State.init, []⟩

/-- A call of the application, with the pointer that the device returns if it maps the memory and
the mapping that an unmap call is meant to end, or the execution of the next command. -/
inductive Call (ι : Type) where
  | map (buffer : MemObject ι) (mapFlags offset size : UInt64) (base : Nat)
  | unmap (memobj : MemObject ι) (mappedPtr : Nat) (ends : Option (AppMapping ι))
  | execute

/-- The mapping that a successful call of `enqueueMapBuffer` gives to the application. -/
def appMapping (family : Family ι) (buffer : MemObject ι) (mapFlags offset size : UInt64)
    (ptr : Nat) : AppMapping ι :=
  ⟨buffer, ptr, (family.object buffer).offset.toNat + offset.toNat, size.toNat,
    (mapAccess mapFlags).writes⟩

/-- An accepted call; an unmap call that ends a mapping ends one that the application has. -/
def System.step [DecidableEq ι] (family : Family ι) (s : System ι) : Call ι → Option (System ι)
  | .map buffer mapFlags offset size base =>
    match enqueueMapBuffer family s.state buffer mapFlags offset size base with
    | .error _ => none
    | .ok (ptr, state) =>
      some ⟨state, s.live ++ [appMapping family buffer mapFlags offset size ptr]⟩
  | .unmap memobj mappedPtr ends =>
    match enqueueUnmapMemObject family s.state memobj mappedPtr ends with
    | .error _ => none
    | .ok state =>
      match ends with
      | none => some ⟨state, s.live⟩
      | some m => if m ∈ s.live ∧ m.ptr = mappedPtr then some ⟨state, s.live.erase m⟩ else none
  | .execute => (executeNext family s.state).map fun r => ⟨r.1, s.live⟩

end ConstructionKit.Mem
