import Mathlib.Logic.Function.Basic

/-! The asynchronous command queue of clik (`clik/runtime/async/clik_command_queue.cpp`): its worker
thread and the threads that call it.  A step is what a thread does while it holds the lock, up to a
wait, or what it does without the lock. -/

namespace ConstructionKit.Clik

variable {α : Type}

/-- `clik_command`; what it does is `α`. -/
structure Command (α : Type) where
  timestamp : Nat
  run : α
deriving DecidableEq, Repr

/-- Where the worker thread is: before it takes the lock at the head of its loop, in
`clik_execute_command` or after it, with `previous_executed` and `current`, in the wait on
`dispatched`, or gone. -/
inductive Worker (α : Type) where
  | start
  | executing (command : Command α) (previous current : Nat)
  | done (command : Command α) (previous current : Nat)
  | waiting (notified : Bool)
  | exited
deriving DecidableEq, Repr

/-- The end of the worker's wait, if it waits. -/
def Worker.notify : Worker α → Worker α
  | .waiting _ => .waiting true
  | worker => worker

/-- Where a caller is: in the wait of `clik_wait` with `current_timestamp`, or in
`clik_release_command_queue` before the shutdown or before the join. -/
inductive Caller where
  | idle
  | waiting (current : Nat) (notified : Bool)
  | releasing
  | joining
deriving DecidableEq, Repr

/-- The end of a caller's wait, if it waits. -/
def Caller.notify : Caller → Caller
  | .waiting current _ => .waiting current true
  | caller => caller

/-- `clik_command_queue`, with its threads. -/
structure Queue (α : Type) where
  commands : List (Command α)
  nextCommandTimestamp : Nat
  dispatchedTimestamp : Nat
  executedTimestamp : Nat
  shutdown : Bool
  freed : Bool
  worker : Worker α
  callers : Nat → Caller

namespace Queue

/-- `clik_create_command_queue` -/
def create : Queue α where
  commands := []
  nextCommandTimestamp := 1
  dispatchedTimestamp := 0
  executedTimestamp := 0
  shutdown := false
  freed := false
  worker := .start
  callers _ := .idle

variable (q : Queue α)

def setCaller (c : Nat) (caller : Caller) : Queue α :=
  { q with callers := Function.update q.callers c caller }

/-- `dispatched.notify_all`, which only the worker waits for. -/
def notifyDispatched : Queue α :=
  { q with worker := q.worker.notify }

/-- `executed.notify_all` -/
def notifyExecuted : Queue α :=
  { q with callers := fun c => (q.callers c).notify }

/-! ### The callers -/

/-- `clik_create_command` and the rest of `clik_enqueue_*`; a queue that shuts down takes no command. -/
def enqueue (run : α) : Queue α :=
  if q.shutdown then q
  else { q with
    commands := q.commands ++ [⟨q.nextCommandTimestamp, run⟩]
    nextCommandTimestamp := q.nextCommandTimestamp + 1 }

/-- `clik_dispatch` -/
def dispatch : Queue α :=
  let mostRecent := (q.commands.map (·.timestamp)).foldl max 0
  if mostRecent ≤ q.dispatchedTimestamp then q
  else { q with dispatchedTimestamp := mostRecent }.notifyDispatched

/-- The loop of `clik_wait` while it holds the lock. -/
def checkExecuted (c current : Nat) : Queue α :=
  if q.executedTimestamp < current then q.setCaller c (.waiting current false)
  else q.setCaller c .idle

/-! ### The worker -/

/-- The rest of the worker's loop body, from the head of its loop over the commands on. -/
def pass (previous current : Nat) : Queue α :=
  let finish (q : Queue α) : Queue α :=
    { (if previous < q.executedTimestamp then q.notifyExecuted else q) with worker := .waiting false }
  match q.commands with
  | [] => finish q
  | command :: _ =>
    if current < command.timestamp then finish q
    else { q with worker := .executing command previous current }

/-- The head of the worker's loop. -/
def head : Queue α :=
  if q.shutdown then { q with worker := .exited }
  else q.pass q.executedTimestamp q.dispatchedTimestamp

/-- After a command, with the lock. -/
def remove (command : Command α) : Queue α :=
  { q with executedTimestamp := command.timestamp, commands := q.commands.tail }

end Queue

/-! ### Interleavings -/

/-- The steps.  A wait may end without a notification; `spurious` and `wake` stand for that too. -/
inductive Step (α : Type) where
  | enqueue (run : α)
  | dispatch
  | wait (c : Nat)
  | wake (c : Nat)
  | release (c : Nat)
  | shutdown (c : Nat)
  | join (c : Nat)
  | worker
  | spurious
deriving DecidableEq, Repr

/-- A step; nothing can be done with a queue that is freed. -/
def Queue.step (q : Queue α) (label : Step α) : Option (Queue α) :=
  if q.freed then none
  else match label with
    | .enqueue run => some (q.enqueue run)
    | .dispatch => some q.dispatch
    | .wait c =>
      match q.callers c with
      | .idle => some (q.checkExecuted c q.dispatchedTimestamp)
      | _ => none
    | .wake c =>
      match q.callers c with
      | .waiting current _ => some (q.checkExecuted c current)
      | _ => none
    | .release c =>
      match q.callers c with
      | .idle => some (q.dispatch.setCaller c .releasing)
      | _ => none
    | .shutdown c =>
      match q.callers c with
      | .releasing => some ({ q with shutdown := true }.notifyDispatched.setCaller c .joining)
      | _ => none
    | .join c =>
      match q.callers c, q.worker with
      | .joining, .exited => some { q.setCaller c .idle with freed := true }
      | _, _ => none
    | .worker =>
      match q.worker with
      | .start => some q.head
      | .executing command previous current =>
        some { q with worker := .done command previous current }
      | .done command previous current => some ((q.remove command).pass previous current)
      | .waiting true => some q.head
      | _ => none
    | .spurious =>
      match q.worker with
      | .waiting _ => some q.notifyDispatched
      | _ => none

end ConstructionKit.Clik
