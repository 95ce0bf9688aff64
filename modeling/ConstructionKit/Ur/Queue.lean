import Mathlib.Data.List.Destutter

/-! The dispatches of a queue of the Unified Runtime (`source/ur/source/queue.cpp`) and the semaphores
they wait on.  Each step holds the lock of its queue. -/

namespace ConstructionKit.Ur

/-- `ur_event_handle_t`, by the order of creation.  Each event has a semaphore and a fence of its own,
which it is the name of too. -/
abbrev Event := Nat

/-- `dispatch_state_t` -/
structure Dispatch where
  waitSemaphores : List Event
  signalEvent : Event
deriving DecidableEq, Repr

/-- `ur_queue_handle_t_`, with the events that its cleanup has released. -/
structure Queue where
  pendingDispatches : List Dispatch
  runningDispatches : List Dispatch
  completedEvents : List Event
  released : List Event
deriving DecidableEq, Repr

namespace Queue

def create : Queue := ⟨[], [], [], []⟩

/-- The semaphores that a new dispatch waits on, before repeated neighbours are removed. -/
def waitSemaphores (q : Queue) (waitEvents : List Event) : List Event :=
  (q.pendingDispatches.getLast?.map (·.signalEvent)).toList ++
    q.runningDispatches.map (·.signalEvent) ++ waitEvents

/-- `getCommandBuffer` -/
def getCommandBuffer (q : Queue) (signalEvent : Event) (waitEvents : List Event) : Queue :=
  { q with pendingDispatches := q.pendingDispatches ++
      [⟨(q.waitSemaphores waitEvents).destutter (· ≠ ·), signalEvent⟩] }

/-- `flush` after its cleanup. -/
def flush (q : Queue) : Queue :=
  { q with
    pendingDispatches := []
    runningDispatches := q.runningDispatches ++ q.pendingDispatches }

/-- The completed events that no running dispatch waits on. -/
def deadEvents (running : List Dispatch) (completedEvents : List Event) : List Event :=
  let runningWaitSemaphores := (running.flatMap (·.waitSemaphores)).destutter (· ≠ ·)
  completedEvents.filter (· ∉ runningWaitSemaphores)

/-- One round of the loop of `cleanupCompletedCommandBuffers`; `finished` are the events whose fences
are ready. -/
def cleanup (q : Queue) (finished : List Event) : Queue :=
  match q.runningDispatches with
  | [] => q
  | completed :: running =>
    if completed.signalEvent ∈ finished then
      let completedEvents := q.completedEvents ++ [completed.signalEvent]
      let dead := deadEvents running completedEvents
      { pendingDispatches := q.pendingDispatches.map fun d =>
          { d with waitSemaphores := d.waitSemaphores.erase completed.signalEvent }
        runningDispatches := running
        completedEvents := completedEvents.filter (· ∉ dead)
        released := q.released ++ dead }
    else q

/-- All dispatches, in the order in which they were enqueued. -/
def dispatches (q : Queue) : List Dispatch := q.runningDispatches ++ q.pendingDispatches

end Queue

/-- A command that was enqueued: its queue and the events it waits for. -/
structure Enqueued where
  queue : Nat
  waitEvents : List Event
deriving DecidableEq, Repr

/-- Any number of queues; event `e` is the one of the command `enqueued[e]`. -/
structure System where
  queues : Nat → Queue
  enqueued : List Enqueued
  finished : List Event

def System.create : System := ⟨fun _ => .create, [], []⟩

/-- The steps: a command is enqueued, the device finishes a command, and what the host does in
`cleanupCompletedCommandBuffers` and `flush`. -/
inductive Step where
  | enqueue (queue : Nat) (waitEvents : List Event)
  | finish (queue : Nat) (event : Event)
  | cleanup (queue : Nat)
  | flush (queue : Nat)
deriving DecidableEq, Repr

/-- A step; commands wait for earlier ones, and only running ones finish. -/
def System.step (s : System) : Step → Option System
  | .enqueue k waitEvents =>
    if ∀ e ∈ waitEvents, e < s.enqueued.length then
      some { s with
        queues := Function.update s.queues k
          ((s.queues k).getCommandBuffer s.enqueued.length waitEvents)
        enqueued := s.enqueued ++ [⟨k, waitEvents⟩] }
    else none
  | .finish k e =>
    if e ∈ (s.queues k).runningDispatches.map (·.signalEvent) then
      some { s with finished := e :: s.finished }
    else none
  | .cleanup k => some { s with queues := Function.update s.queues k ((s.queues k).cleanup s.finished) }
  | .flush k => some { s with queues := Function.update s.queues k (s.queues k).flush }

end ConstructionKit.Ur
