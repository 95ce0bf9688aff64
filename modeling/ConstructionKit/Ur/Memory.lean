import ConstructionKit.Mux.Memory
import ConstructionKit.ProofKit.Stores

/-! Buffers of the Unified Runtime in a context of several devices: `ur_mem_handle_t_::sync`
(`source/ur/source/memory.cpp`) and the commands that use it (`source/ur/source/queue.cpp`), each
finished before the next one is enqueued. -/

namespace ConstructionKit.Ur

open Mux ProofKit

variable {β : Type}

/-- `ur_queue_handle_t_`, with the index of its device. -/
structure CommandQueue where
  id : Nat
  device : Nat
deriving DecidableEq, Repr

/-- A context and the buffers in it. -/
structure Context (β : Type) where
  devices : Nat
  size : Nat → Nat
  memory : Memory β
  lastCommandQueue : Nat → Option CommandQueue

namespace Context

def setLastCommandQueue (s : Context β) (b : Nat) (commandQueue : CommandQueue) : Context β :=
  { s with lastCommandQueue := Function.update s.lastCommandQueue b (some commandQueue) }

/-- `ur_mem_handle_t_::sync` -/
def sync (s : Context β) (commandQueue : CommandQueue) (b : Nat) : Context β :=
  if s.devices ≤ 1 then s
  else match s.lastCommandQueue b with
    | none => s.setLastCommandQueue b commandQueue
    | some last =>
      if last = commandQueue then s
      else { s with memory := synchronizeMemory s.memory b (s.size b) last.device commandQueue.device }

end Context

/-- What a command does: the buffers it synchronizes, the bytes it reads from the memory of its
queue's device, and what it stores then, in the memory of which device. -/
structure Command (β : Type) where
  queue : CommandQueue
  syncs : List Nat
  reads : List Mux.Cell
  stores : List β → List (Mux.Cell × β)
  target : Nat

/-- `urEnqueueMemBufferWrite`, which writes `buffers[0]`. -/
def memBufferWrite (queue : CommandQueue) (b offset : Nat) (src : List β) : Command β where
  queue
  syncs := [b]
  reads := []
  stores _ := (range b offset src.length).zip src
  target := 0

/-- `urEnqueueMemBufferRead` -/
def memBufferRead (queue : CommandQueue) (b offset size : Nat) : Command β where
  queue
  syncs := [b]
  reads := range b offset size
  stores _ := []
  target := queue.device

/-- `urEnqueueMemBufferCopy` -/
def memBufferCopy (queue : CommandQueue) (src dst srcOffset dstOffset size : Nat) : Command β where
  queue
  syncs := [src, dst]
  reads := range src srcOffset size
  stores values := (range dst dstOffset size).zip values
  target := queue.device

/-- `urEnqueueKernelLaunch` of a kernel with the buffers `arguments`, which reads `reads` and then
stores what `run` makes of it. -/
def kernelLaunch (queue : CommandQueue) (arguments : List Nat) (reads : List Mux.Cell)
    (run : List β → List (Mux.Cell × β)) : Command β where
  queue
  syncs := arguments
  reads
  stores := run
  target := queue.device

/-- The commands. -/
inductive Enqueue (β : Type) where
  | write (queue : CommandQueue) (b offset : Nat) (src : List β)
  | read (queue : CommandQueue) (b offset size : Nat)
  | copy (queue : CommandQueue) (src dst srcOffset dstOffset size : Nat)
  | kernel (queue : CommandQueue) (arguments : List Nat) (reads : List Mux.Cell)
      (run : List β → List (Mux.Cell × β))

def Enqueue.command : Enqueue β → Command β
  | write queue b offset src => memBufferWrite queue b offset src
  | read queue b offset size => memBufferRead queue b offset size
  | copy queue src dst srcOffset dstOffset size =>
    memBufferCopy queue src dst srcOffset dstOffset size
  | kernel queue arguments reads run => kernelLaunch queue arguments reads run

namespace Context

/-- The context in which a command runs. -/
def synced (s : Context β) (c : Command β) : Context β := c.syncs.foldl (·.sync c.queue) s

/-- What a command observes. -/
def observed (s : Context β) (c : Command β) : List β :=
  c.reads.map ((s.synced c).memory c.queue.device)

def run (s : Context β) (c : Command β) : Context β :=
  let t := s.synced c
  { t with
    memory := Function.update t.memory c.target
      (storeAll (t.memory c.target) (c.stores (s.observed c))) }

end Context

end ConstructionKit.Ur
