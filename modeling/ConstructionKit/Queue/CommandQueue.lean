import Mathlib.Data.Fintype.Card

/-! The command queues of a context (`source/cl/source/command_queue.cpp`): how commands are batched
into command buffers, which semaphores a command buffer waits on, when it is dispatched, and what
becomes of it when an event of its wait list completes or fails.  The device takes the steps of the
commands of dispatched command buffers.  Names are never used twice: a command buffer is named by
its signal semaphore, which is created with it, and a command by its event. -/

namespace ConstructionKit.Queue

/-! ### State -/

inductive Event (κ : Type) where
  | user (id : Nat)
  | command (queue : κ) (id : Nat)
deriving DecidableEq, Repr

/-- `command_status`, where all values above `CL_COMPLETE` are one. -/
inductive Status where
  | incomplete | complete | failed
deriving DecidableEq, Repr

/-- A `dispatch_state_t` or an entry of `running_command_buffers`, with the recorded commands that
have not finished.  The first one may have started. -/
structure Dispatch (κ : Type) where
  signalSemaphore : Nat
  waitSemaphores : List Nat
  waitEvents : List (Event κ)
  signalEvents : List (Event κ)
  isUserCommandBuffer : Bool
  commands : List (Event κ)
  busy : Bool
deriving DecidableEq, Repr

/-- Both lists are in the order of the source's containers. -/
structure CommandQueue (κ : Type) where
  pending : List (Dispatch κ)
  running : List (Dispatch κ)

/-- The queues of a context, the status of the events, the semaphores that are signalled, the
callbacks that queues have registered with user events, the commands that were enqueued with their
wait lists, and those that have finished. -/
structure System (κ : Type) where
  queues : κ → CommandQueue κ
  status : Event κ → Status
  signalled : List Nat
  callbacks : List (Nat × κ)
  next : Nat
  issued : List (Event κ × List (Event κ))
  finished : List (Event κ)

variable {κ : Type}

def System.init : System κ := ⟨fun _ => ⟨[], []⟩, fun _ => .incomplete, [], [], 0, [], []⟩

def Event.isUserEvent : Event κ → Bool
  | user _ => true
  | command _ _ => false

/-! ### `getCommandBufferPending` -/

section

variable [DecidableEq κ]

variable (s : System κ) (q : κ)

def System.setQueue (queue : CommandQueue κ) : System κ :=
  { s with queues := Function.update s.queues q queue }

/-- The pending command buffers that signal an event. -/
def CommandQueue.signallers (queue : CommandQueue κ) (event : Event κ) : List Nat :=
  (queue.pending.filter fun d => event ∈ d.signalEvents).map (·.signalSemaphore)

/-- The dispatches that a command depends on: the last pending one, and those of its wait list. -/
def System.dependentDispatches (waitList : List (Event κ)) : List (Nat × κ) :=
  ((s.queues q).pending.getLast?.toList.map fun d => (d.signalSemaphore, q)) ++
    waitList.flatMap fun event => match event with
      | .user _ => []
      | .command q' _ =>
        ((s.queues q).signallers event).map (·, q') ++
          (if q' ≠ q then ((s.queues q').signallers event).map (·, q') else [])

/-- The other queues that the events of a wait list belong to. -/
def crossQueues (waitList : List (Event κ)) : List κ :=
  (waitList.filterMap fun
    | .user _ => none
    | .command q' _ => if q' ≠ q then some q' else none).eraseDups

def System.canAppendLastDispatch (waitList : List (Event κ)) : Bool :=
  ((s.queues q).pending.getLast?.all fun d => !d.isUserCommandBuffer) &&
    (waitList.all fun event => !(event.isUserEvent && s.status event != .complete)) &&
    (crossQueues q waitList).isEmpty

/-- The semaphores that a new command buffer waits on. -/
def System.dependentSemaphores (waitList : List (Event κ)) (dependents : List (Nat × κ)) : List Nat :=
  (crossQueues q waitList ++ [q]).flatMap fun q' =>
    if dependents.any (·.2 = q') then (dependents.filter (·.2 = q')).map (·.1)
    else (s.queues q').running.map (·.signalSemaphore)

def System.newDispatch (waitSemaphores : List Nat) (isUserCommandBuffer : Bool) : Dispatch κ :=
  ⟨s.next, waitSemaphores, [], [], isUserCommandBuffer, [], false⟩

/-- The command buffer for a new command, and the pending ones with it.  `std::unique` removes
repeated neighbours only. -/
def System.getCommandBufferPending (waitList : List (Event κ)) : Nat × List (Dispatch κ) :=
  let dependents := (s.dependentDispatches q waitList).destutter (· ≠ ·)
  let create := (s.next, (s.queues q).pending ++ [s.newDispatch
    ((s.dependentSemaphores q waitList dependents).destutter (· ≠ ·)) false])
  match dependents with
  | [(commandBuffer, _)] =>
    if s.canAppendLastDispatch q waitList then (commandBuffer, (s.queues q).pending) else create
  | _ => create

/-- `registerEvents`, with the command that is then recorded. -/
def System.register (waitList : List (Event κ)) (event : Event κ) (d : Dispatch κ) : Dispatch κ :=
  { d with
    waitEvents := d.waitEvents ++ waitList.filter fun e => s.status e ≠ .complete
    signalEvents := d.signalEvents ++ [event]
    commands := d.commands ++ [event] }

/-- The callbacks that an enqueue registers, one for each incomplete user event of its list. -/
def System.userCallbacks (waitList : List (Event κ)) : List (Nat × κ) :=
  waitList.filterMap fun event => match event with
    | .user id => if s.status event ≠ .complete then some (id, q) else none
    | .command _ _ => none

/-- The state after a command is recorded in a command buffer of `pending`. -/
def System.record (waitList : List (Event κ)) (commandBuffer : Nat)
    (pending : List (Dispatch κ)) : System κ :=
  let event := Event.command q s.next
  { s.setQueue q ⟨pending.map fun d =>
        if d.signalSemaphore = commandBuffer then s.register waitList event d else d,
      (s.queues q).running⟩ with
    callbacks := s.callbacks ++ s.userCallbacks q waitList
    next := s.next + 1
    issued := s.issued ++ [(event, waitList)] }

def System.enqueue (waitList : List (Event κ)) : System κ :=
  let (commandBuffer, pending) := s.getCommandBufferPending q waitList
  s.record q waitList commandBuffer pending

/-- `enqueueCommandBuffer` of `cl_khr_command_buffer`: the user's command buffer is one command,
which waits on the last pending dispatch and on all running ones. -/
def System.enqueueCommandBuffer (waitList : List (Event κ)) : System κ :=
  let queue := s.queues q
  let waitSemaphores := queue.pending.getLast?.toList.map (·.signalSemaphore) ++
    queue.running.map (·.signalSemaphore)
  s.record q waitList s.next (queue.pending ++ [s.newDispatch waitSemaphores true])

/-! ### `flush` -/

/-- The loop of `cleanupCompletedCommandBuffers` over the running and the pending dispatches.  The
fence of a command buffer is ready when its commands have finished. -/
def cleanupLoop : List (Dispatch κ) → List (Dispatch κ) → CommandQueue κ
  | [], pending => ⟨pending, []⟩
  | completed :: running, pending =>
    if completed.commands = [] then
      cleanupLoop running (pending.map fun d =>
        { d with waitSemaphores := d.waitSemaphores.erase completed.signalSemaphore })
    else ⟨pending, completed :: running⟩

def System.cleanupCompletedCommandBuffers : System κ :=
  s.setQueue q (cleanupLoop (s.queues q).running (s.queues q).pending)

def System.dispatch (commandBuffers : List Nat) : System κ :=
  let queue := s.queues q
  s.setQueue q
    ⟨queue.pending.filter fun d => d.signalSemaphore ∉ commandBuffers,
      queue.running ++ (queue.pending.filter fun d => d.signalSemaphore ∈ commandBuffers).map
        fun d => { d with waitEvents := [] }⟩

/-- The pending dispatches that wait on no user event. -/
def CommandQueue.ready (queue : CommandQueue κ) : List (Dispatch κ) :=
  queue.pending.filter fun d => d.waitEvents.all fun e => !e.isUserEvent

/-- A ready dispatch of `q` has the queue of an incomplete event that it waits on flushed. -/
def System.flushOther (flush : κ → System κ → System κ) (event : Event κ) : System κ :=
  match event with
  | .user _ => s
  | .command q' _ => if s.status event ≠ .complete ∧ q' ≠ q then flush q' s else s

/-- `flush`, which also flushes the queues of the events that a ready dispatch waits on.  `inFlush`
holds the queues whose flag `in_flush` is set, so that calls nest at most once for each queue. -/
def flushFrom : Nat → List κ → κ → System κ → System κ
  | 0, _, _, s => s
  | fuel + 1, inFlush, q, s =>
    if q ∈ inFlush then s
    else
      let s := s.cleanupCompletedCommandBuffers q
      let ready := (s.queues q).ready
      let flushed := (ready.flatMap (·.waitEvents)).foldl
        (fun s event => s.flushOther q (flushFrom fuel (q :: inFlush)) event) s
      flushed.dispatch q (ready.map (·.signalSemaphore))

def System.flush [Fintype κ] (s : System κ) (q : κ) : System κ :=
  flushFrom (Fintype.card κ) [] q s

/-! ### User events -/

def System.dispatchPending [Fintype κ] (s : System κ) (q : κ) (userEvent : Nat) : System κ :=
  (s.setQueue q ⟨(s.queues q).pending.map fun d =>
    { d with waitEvents := d.waitEvents.erase (.user userEvent) }, (s.queues q).running⟩).flush q

def System.setStatus (events : List (Event κ)) (status : Status) : System κ :=
  { s with status := fun e => if e ∈ events then status else s.status e }

def System.dropDispatchesPending (userEvent : Nat) : System κ :=
  let queue := s.queues q
  let dropped := queue.pending.filter fun d => .user userEvent ∈ d.waitEvents
  (s.setStatus (dropped.flatMap (·.signalEvents)) .failed).setQueue q
    ⟨queue.pending.filter fun d => .user userEvent ∉ d.waitEvents, queue.running⟩

/-- The callback that a queue registers with a user event. -/
def System.userEventDispatch [Fintype κ] (s : System κ) (userEvent : Nat) (status : Status)
    (q : κ) : System κ :=
  let s := if status = .failed then s.dropDispatchesPending q userEvent else s
  s.dispatchPending q userEvent

/-- `clSetUserEventStatus`: the status is set, then the callbacks are called in order. -/
def System.setUserEventStatus [Fintype κ] (s : System κ) (userEvent : Nat) (status : Status) :
    System κ :=
  let callbacks := (s.callbacks.filter (·.1 = userEvent)).map (·.2)
  callbacks.foldl (fun s q => s.userEventDispatch userEvent status q)
    { s.setStatus [.user userEvent] status with
      callbacks := s.callbacks.filter (·.1 ≠ userEvent) }

/-! ### The device -/

def CommandQueue.runningDispatch (queue : CommandQueue κ) (semaphore : Nat) :
    Option (Dispatch κ) :=
  queue.running.find? fun d => d.signalSemaphore = semaphore

/-- Replace a running dispatch. -/
def System.setRunning (d : Dispatch κ) : System κ :=
  s.setQueue q ⟨(s.queues q).pending, (s.queues q).running.map fun d' =>
    if d'.signalSemaphore = d.signalSemaphore then d else d'⟩

/-- The command that a running command buffer can start: its wait semaphores are signalled, and
the commands before it have finished. -/
def System.startable (semaphore : Nat) : Option (Dispatch κ × Event κ) :=
  match (s.queues q).runningDispatch semaphore with
  | none => none
  | some d =>
    if d.busy = false ∧ ∀ w ∈ d.waitSemaphores, w ∈ s.signalled then
      d.commands.head?.map (d, ·)
    else none

def System.startCommand (semaphore : Nat) : Option (System κ) :=
  (s.startable q semaphore).map fun (d, _) => s.setRunning q { d with busy := true }

/-- With the last command, the command buffer is complete: its semaphore is signalled and its events
are set to `CL_COMPLETE`. -/
def System.finishCommand (semaphore : Nat) : Option (System κ) :=
  match (s.queues q).runningDispatch semaphore with
  | some ⟨sem, waitSems, waitEvents, signalEvents, isUser, event :: rest, true⟩ =>
    let s := { s.setRunning q ⟨sem, waitSems, waitEvents, signalEvents, isUser, rest, false⟩ with
      finished := s.finished ++ [event] }
    if rest = [] then some { s.setStatus signalEvents .complete with
      signalled := s.signalled ++ [sem] }
    else some s
  | _ => none

/-! ### Steps -/

inductive Call (κ : Type) where
  | enqueue (q : κ) (waitList : List (Event κ))
  | enqueueCommandBuffer (q : κ) (waitList : List (Event κ))
  | flush (q : κ)
  | cleanup (q : κ)
  | setUserEventStatus (userEvent : Nat) (status : Status)
  | start (q : κ) (semaphore : Nat)
  | finish (q : κ) (semaphore : Nat)
deriving DecidableEq, Repr

/-- `cl::validate::EventWaitList`: the events exist and have not failed. -/
def System.validWaitList (waitList : List (Event κ)) : Bool :=
  waitList.all fun event => s.status event != .failed &&
    (event.isUserEvent || s.issued.any (·.1 = event))

def System.step [Fintype κ] (s : System κ) : Call κ → Option (System κ)
  | .enqueue q waitList => if s.validWaitList waitList then some (s.enqueue q waitList) else none
  | .enqueueCommandBuffer q waitList =>
    if s.validWaitList waitList then some (s.enqueueCommandBuffer q waitList) else none
  | .flush q => some (s.flush q)
  | .cleanup q => some (s.cleanupCompletedCommandBuffers q)
  | .setUserEventStatus userEvent status =>
    if s.status (.user userEvent) = .incomplete ∧ status ≠ .incomplete then
      some (s.setUserEventStatus userEvent status)
    else none
  | .start q semaphore => s.startCommand q semaphore
  | .finish q semaphore => s.finishCommand q semaphore

end

end ConstructionKit.Queue
