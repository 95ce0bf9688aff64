import Mathlib.Logic.Function.Basic

/-! Executions of command buffers of `cl_khr_command_buffer` on the queues of a context
(`source/cl/source/command_queue.cpp`): which mux command buffers the queues dispatch, count, and
destroy.  The dispatches of all queues are in one list of pending and one of running ones, in the
order in which each queue has its own. -/

namespace ConstructionKit.Khr

open Function

/-- `mux_command_buffer_t`: the one that a `cl_command_buffer_khr` owns, or one that a queue created
or cloned. -/
inductive MuxCommandBuffer where
  | owned (commandBuffer : Nat)
  | made (id : Nat)
deriving DecidableEq, Repr

/-- `dispatch_state_t` or an entry of `running_command_buffers`.  `execution` is
`is_user_command_buffer`, with the `cl_command_buffer_khr` that it is an execution of; `waitEvents`
are the user events that it waits on. -/
structure Dispatch (κ : Type) where
  queue : κ
  commandBuffer : MuxCommandBuffer
  waitEvents : List Nat
  execution : Option Nat
  shouldDestroyCommandBuffer : Bool
deriving DecidableEq, Repr

/-- `cl_command_buffer_state_khr` -/
inductive State where
  | recording | executable | pending
deriving DecidableEq, Repr

/-- The queues and the command buffers of a context, and the mux command buffers that queues have
destroyed. -/
structure System (κ : Type) where
  pending : List (Dispatch κ)
  running : List (Dispatch κ)
  userCommandBuffers : κ → MuxCommandBuffer → Option Nat
  cachedCommandBuffers : List (κ × MuxCommandBuffer)
  executionRefcount : Nat → Nat
  isFinalized : Nat → Bool
  supportsSimultaneousUse : Nat → Bool
  next : Nat
  destroyed : List MuxCommandBuffer

variable {κ : Type} [DecidableEq κ]

/-- The room in `cached_command_buffers`. -/
def cacheSize : Nat := 16

variable (s : System κ) (q : κ)

/-- `destroyCommandBuffer`, which caches the command buffer while there is room. -/
def cache (cached : List (κ × MuxCommandBuffer)) (m : MuxCommandBuffer) : List (κ × MuxCommandBuffer) :=
  if (cached.filter (·.1 = q)).length < cacheSize then cached ++ [(q, m)] else cached

namespace System

def create (supportsSimultaneousUse : Nat → Bool) : System κ where
  pending := []
  running := []
  userCommandBuffers _ _ := none
  cachedCommandBuffers := []
  executionRefcount _ := 0
  isFinalized _ := false
  supportsSimultaneousUse
  next := 0
  destroyed := []

/-- `_cl_command_buffer_khr::getState` -/
def getState (commandBuffer : Nat) : State :=
  if !s.isFinalized commandBuffer then .recording
  else if 0 < s.executionRefcount commandBuffer then .pending else .executable

/-- `clFinalizeCommandBufferKHR` -/
def finalize (commandBuffer : Nat) : System κ :=
  { s with isFinalized := update s.isFinalized commandBuffer true }

/-- `enqueueCommandBuffer`; an owned mux command buffer that is in use is cloned. -/
def enqueueCommandBuffer (commandBuffer : Nat) (waitEvents : List Nat) : System κ :=
  let inUse := decide (0 < s.executionRefcount commandBuffer)
  let muxCommandBuffer := if inUse then .made s.next else .owned commandBuffer
  { s with
    pending := s.pending ++ [⟨q, muxCommandBuffer, waitEvents, some commandBuffer, inUse⟩]
    executionRefcount := update s.executionRefcount commandBuffer
      (s.executionRefcount commandBuffer + 1)
    userCommandBuffers := update s.userCommandBuffers q
      (update (s.userCommandBuffers q) muxCommandBuffer (some commandBuffer))
    next := if inUse then s.next + 1 else s.next }

/-- `clEnqueueCommandBufferKHR`; nothing happens if it fails. -/
def clEnqueueCommandBuffer (commandBuffer : Nat) (waitEvents : List Nat) : System κ :=
  if !s.isFinalized commandBuffer then s
  else if !s.supportsSimultaneousUse commandBuffer ∧ 0 < s.executionRefcount commandBuffer then s
  else s.enqueueCommandBuffer q commandBuffer waitEvents

/-- `createCommandBuffer`, for another command. -/
def createCommandBuffer (waitEvents : List Nat) : System κ :=
  match s.cachedCommandBuffers.find? (·.1 = q) with
  | some cached =>
    { s with
      pending := s.pending ++ [⟨q, cached.2, waitEvents, none, true⟩]
      cachedCommandBuffers := s.cachedCommandBuffers.eraseP (·.1 = q) }
  | none =>
    { s with
      pending := s.pending ++ [⟨q, .made s.next, waitEvents, none, true⟩]
      next := s.next + 1 }

/-- The dispatches that `flush` starts. -/
def ready (d : Dispatch κ) : Bool := d.queue = q && d.waitEvents.isEmpty

/-- `flush` after its cleanup. -/
def flush : System κ :=
  { s with
    running := s.running ++ s.pending.filter (ready q)
    pending := s.pending.filter fun d => !ready q d }

/-- The part of a round of `cleanupCompletedCommandBuffers` that destroys the command buffer. -/
def destroyCompleted (completed : Dispatch κ) : System κ :=
  if completed.shouldDestroyCommandBuffer then
    { s with
      cachedCommandBuffers := cache q s.cachedCommandBuffers completed.commandBuffer
      destroyed := s.destroyed ++ [completed.commandBuffer] }
  else s

/-- A round of `cleanupCompletedCommandBuffers`, when the first running command buffer of the queue has
completed or failed.  There is no result if `user_command_buffers` has no entry for it. -/
def cleanup : Option (System κ) :=
  match s.running.find? (·.queue = q) with
  | none => some s
  | some completed =>
    let s := { s with running := s.running.eraseP (·.queue = q) }
    if completed.execution.isSome then
      match s.userCommandBuffers q completed.commandBuffer with
      | none => none
      | some commandBuffer =>
        some ({ s with
          executionRefcount := update s.executionRefcount commandBuffer
            (s.executionRefcount commandBuffer - 1)
          userCommandBuffers := update s.userCommandBuffers q
            (update (s.userCommandBuffers q) completed.commandBuffer none) }.destroyCompleted q
              completed)
    else some (s.destroyCompleted q completed)

/-- `dispatchPending` before its flush: the user event is complete. -/
def removeWaitEvent (userEvent : Nat) : System κ :=
  { s with pending := s.pending.map fun d =>
      if d.queue = q then { d with waitEvents := d.waitEvents.erase userEvent } else d }

/-- The dispatches that wait on a user event. -/
def waitsOn (userEvent : Nat) (d : Dispatch κ) : Bool :=
  d.queue = q && d.waitEvents.contains userEvent

/-- `dropDispatchesPending`: the user event has failed. -/
def dropDispatchesPending (userEvent : Nat) : System κ :=
  let dropped := (s.pending.filter (waitsOn q userEvent)).map (·.commandBuffer)
  { s with
    pending := s.pending.filter fun d => !waitsOn q userEvent d
    cachedCommandBuffers := dropped.foldl (cache q) s.cachedCommandBuffers
    destroyed := s.destroyed ++ dropped }

end System

/-- The steps.  A `flush` of the source is some rounds of `cleanup` and a `flush`, and the callback of
a user event that has failed is `dropDispatchesPending` and what it is for one that is complete. -/
inductive Step (κ : Type) where
  | finalize (commandBuffer : Nat)
  | enqueueCommandBuffer (q : κ) (commandBuffer : Nat) (waitEvents : List Nat)
  | createCommandBuffer (q : κ) (waitEvents : List Nat)
  | flush (q : κ)
  | cleanup (q : κ)
  | removeWaitEvent (q : κ) (userEvent : Nat)
  | dropDispatchesPending (q : κ) (userEvent : Nat)
deriving DecidableEq, Repr

def System.step : Step κ → Option (System κ)
  | .finalize commandBuffer => some (s.finalize commandBuffer)
  | .enqueueCommandBuffer q commandBuffer waitEvents =>
    some (s.clEnqueueCommandBuffer q commandBuffer waitEvents)
  | .createCommandBuffer q waitEvents => some (s.createCommandBuffer q waitEvents)
  | .flush q => some (s.flush q)
  | .cleanup q => s.cleanup q
  | .removeWaitEvent q userEvent => some (s.removeWaitEvent q userEvent)
  | .dropDispatchesPending q userEvent => some (s.dropDispatchesPending q userEvent)

end ConstructionKit.Khr
