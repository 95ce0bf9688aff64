import ConstructionKit.Mux.Memory
import ConstructionKit.ProofKit.Stores

/-! OpenCL buffers in a context of several devices: `_cl_mem_buffer::synchronize`
(`source/cl/source/buffer.cpp`) and the commands that use it, each finished before the next one is
enqueued. -/

namespace ConstructionKit.Cl

open Mux ProofKit

variable {β : Type}

/-- A context and the memory of the buffers in it that have no parent. -/
structure Context (β : Type) where
  devices : Nat
  size : Nat → Nat
  memory : Memory β
  deviceOwner : Nat → Option Nat

/-- `_cl_mem_buffer`: a buffer, or part of its parent, whose memory it has. -/
structure MemBuffer where
  owningBuffer : Nat
  offset : Nat
  size : Nat
deriving DecidableEq, Repr

/-- `_cl_mem_buffer::synchronize`, for a queue of the device. -/
def Context.synchronize (s : Context β) (device owningBuffer : Nat) : Context β :=
  if 1 < s.devices then
    { s with
      memory := match s.deviceOwner owningBuffer with
        | some owner =>
          if owner ≠ device then
            synchronizeMemory s.memory owningBuffer (s.size owningBuffer) owner device
          else s.memory
        | none => s.memory
      deviceOwner := Function.update s.deviceOwner owningBuffer (some device) }
  else s

/-- What a command does: the buffers it synchronizes, the bytes it reads from the memory of its
queue's device, and what it stores there then. -/
structure Command (β : Type) where
  device : Nat
  synchronizes : List Nat
  reads : List Cell
  stores : List β → List (Cell × β)

/-- Bytes of a buffer, as bytes of the one that has the memory. -/
def MemBuffer.range (m : MemBuffer) (offset size : Nat) : List Cell :=
  Mux.range m.owningBuffer (m.offset + offset) size

/-- `cl::EnqueueWriteBuffer` -/
def enqueueWriteBuffer (device : Nat) (buffer : MemBuffer) (offset : Nat) (ptr : List β) :
    Command β where
  device
  synchronizes := [buffer.owningBuffer]
  reads := []
  stores _ := (buffer.range offset ptr.length).zip ptr

/-- `cl::EnqueueReadBuffer` -/
def enqueueReadBuffer (device : Nat) (buffer : MemBuffer) (offset size : Nat) : Command β where
  device
  synchronizes := [buffer.owningBuffer]
  reads := buffer.range offset size
  stores _ := []

/-- `cl::EnqueueCopyBuffer`, which synchronizes the source only. -/
def enqueueCopyBuffer (device : Nat) (srcBuffer dstBuffer : MemBuffer)
    (srcOffset dstOffset size : Nat) : Command β where
  device
  synchronizes := [srcBuffer.owningBuffer]
  reads := srcBuffer.range srcOffset size
  stores values := (dstBuffer.range dstOffset size).zip values

/-- `cl::EnqueueNDRangeKernel` of a kernel with the buffers `args`, which `retainMems` synchronizes;
it reads `reads` and then stores what `run` makes of it. -/
def enqueueNDRangeKernel (device : Nat) (args : List MemBuffer) (reads : List Cell)
    (run : List β → List (Cell × β)) : Command β where
  device
  synchronizes := args.map (·.owningBuffer)
  reads
  stores := run

/-- The commands. -/
inductive Enqueue (β : Type) where
  | write (device : Nat) (buffer : MemBuffer) (offset : Nat) (ptr : List β)
  | read (device : Nat) (buffer : MemBuffer) (offset size : Nat)
  | copy (device : Nat) (srcBuffer dstBuffer : MemBuffer) (srcOffset dstOffset size : Nat)
  | kernel (device : Nat) (args : List MemBuffer) (reads : List Cell)
      (run : List β → List (Cell × β))

def Enqueue.command : Enqueue β → Command β
  | write device buffer offset ptr => enqueueWriteBuffer device buffer offset ptr
  | read device buffer offset size => enqueueReadBuffer device buffer offset size
  | copy device srcBuffer dstBuffer srcOffset dstOffset size =>
    enqueueCopyBuffer device srcBuffer dstBuffer srcOffset dstOffset size
  | kernel device args reads run => enqueueNDRangeKernel device args reads run

namespace Context

/-- The context in which a command runs. -/
def synchronized (s : Context β) (c : Command β) : Context β :=
  c.synchronizes.foldl (·.synchronize c.device) s

/-- What a command observes. -/
def observed (s : Context β) (c : Command β) : List β :=
  c.reads.map ((s.synchronized c).memory c.device)

def run (s : Context β) (c : Command β) : Context β :=
  let t := s.synchronized c
  { t with
    memory := Function.update t.memory c.device
      (storeAll (t.memory c.device) (c.stores (s.observed c))) }

end Context

end ConstructionKit.Cl
