import Mathlib.Logic.Function.Basic

/-! The queue of the RISC-V target (`mux/targets/riscv/source/queue.cpp`) and its semaphores
(`mux/hal/semaphore.h`).  The loop of `queue_s::run` is cut where it gives up its locks: calls of
`dispatch`, from other threads and from the callbacks, come in between. -/

namespace ConstructionKit.Riscv

open Function

abbrev Sem := Nat
abbrev Fence := Nat
abbrev CommandBuffer := Nat
abbrev Pointer := Nat

/-- The results of type `mux_result_t` that the queue makes. -/
inductive Result where
  | success
  | failure
  | fenceFailure
deriving DecidableEq, Repr

/-! ### Semaphores -/

namespace Semaphore

def SIGNAL : UInt32 := 0x1
def TERMINATE : UInt32 := 0x80000000

def signal (status : UInt32) : UInt32 := status ||| SIGNAL
def isSignalled (status : UInt32) : Bool := status &&& SIGNAL == SIGNAL
def terminate (status : UInt32) : UInt32 := status ||| TERMINATE
def isTerminated (status : UInt32) : Bool := status &&& TERMINATE == TERMINATE

end Semaphore

/-! ### Command buffers -/

/-- The types of commands.  `unknown` is any other value of the field. -/
inductive Command where
  | readBuffer
  | writeBuffer
  | fillBuffer
  | copyBuffer
  | ndrange
  | userCallback
  | beginQuery
  | endQuery
  | resetQueryPool
  | unknown
deriving DecidableEq, Repr

/-- The commands that get a reference to `error`. -/
def Command.reportsError : Command → Bool
  | .readBuffer | .writeBuffer | .fillBuffer | .copyBuffer | .ndrange => true
  | _ => false

/-- `command_buffer_s::execute`.  `errors` are the positions of the commands that fail on the
device. -/
def execute (errors : Nat → Bool) (position : Nat) : List Command → Result
  | [] => .success
  | command :: commands =>
    if command = .unknown then .fenceFailure
    else if command.reportsError && errors position then .fenceFailure
    else execute errors (position + 1) commands

/-! ### The queue -/

/-- `dispatch_s`.  The ticket is the number of the call of `dispatch`. -/
structure Dispatch where
  ticket : Nat
  commandBuffer : CommandBuffer
  fence : Option Fence
  waitSemaphores : List Sem
  signalSemaphores : List Sem
  userFunction : Option Pointer
  userData : Pointer
deriving DecidableEq, Repr

/-- A call of a user function. -/
structure Callback where
  userFunction : Pointer
  commandBuffer : CommandBuffer
  result : Result
  userData : Pointer
deriving DecidableEq, Repr

/-- Where the thread of the queue is in the body of its loop. -/
inductive Phase where
  | top
  | removed (dispatch : Dispatch)
  | executed (dispatch : Dispatch) (result : Result)
  | notified (dispatch : Dispatch) (result : Result)
  | signalled
  | stopped
deriving DecidableEq, Repr

structure Queue where
  status : Sem → UInt32
  /-- The result that a fence has been signalled with. -/
  fences : Fence → Option Result
  commands : CommandBuffer → List Command
  pending : List Dispatch
  running : Bool
  terminate : Bool
  phase : Phase
  callbacks : List Callback

namespace Queue

variable (q : Queue)

def isSignalled (sem : Sem) : Bool := Semaphore.isSignalled (q.status sem)

def isTerminated (sem : Sem) : Bool := Semaphore.isTerminated (q.status sem)

/-- `dispatch_s::is_waiting`. -/
def isWaiting (d : Dispatch) : Bool := d.waitSemaphores.any fun sem => !q.isSignalled sem

/-- `dispatch_s::is_terminated`. -/
def dispatchIsTerminated (d : Dispatch) : Bool := d.waitSemaphores.any q.isTerminated

/-- `dispatch_s::terminate`. -/
def terminateAll (d : Dispatch) : Queue :=
  d.signalSemaphores.foldl
    (fun q sem => { q with status := update q.status sem (Semaphore.terminate (q.status sem)) }) q

/-- `dispatch_s::signal`. -/
def signalAll (d : Dispatch) (result : Result) : Queue :=
  let q := d.signalSemaphores.foldl
    (fun q sem => { q with status := update q.status sem (Semaphore.signal (q.status sem)) }) q
  match d.fence with
  | none => q
  | some fence => { q with fences := update q.fences fence (some result) }

/-- `dispatch_s::notify_user`. -/
def notifyUser (d : Dispatch) (result : Result) : Queue :=
  match d.userFunction with
  | none => q
  | some userFunction =>
    { q with callbacks := q.callbacks ++ [⟨userFunction, d.commandBuffer, result, d.userData⟩] }

/-- `queue_s::dispatch`. -/
def dispatch (d : Dispatch) : Queue :=
  let q : Queue :=
    match d.fence with
    | none => q
    | some fence => { q with fences := update q.fences fence none }
  { q with pending := q.pending ++ [d] }

/-- A new queue. -/
def create (commands : CommandBuffer → List Command) : Queue :=
  ⟨fun _ => 0, fun _ => none, commands, [], false, false, .top, []⟩

end Queue

/-! ### Histories -/

/-- A queue with all dispatches, those that were removed from the list of pending ones, those whose
commands were executed, and those that are finished. -/
structure History where
  queue : Queue
  dispatched : List Dispatch
  removed : List Dispatch
  executed : List (Dispatch × Result)
  finished : List (Dispatch × Result)

inductive Event where
  | dispatch (commandBuffer : CommandBuffer) (fence : Option Fence)
      (waitSemaphores signalSemaphores : List Sem) (userFunction : Option Pointer)
      (userData : Pointer)
  /-- The first critical section of the loop. -/
  | take
  /-- The execution of the commands, or not. -/
  | execute (errors : Nat → Bool)
  | notify
  /-- The second critical section: terminate and signal. -/
  | finish
  /-- The last critical section. -/
  | release
  /-- The destructor. -/
  | terminate

namespace History

def create (commands : CommandBuffer → List Command) : History := ⟨.create commands, [], [], [], []⟩

def setPhase (h : History) (phase : Phase) : History := { h with queue := { h.queue with phase } }

/-- The first critical section of the loop.  Without a dispatch that is ready, the loop starts again. -/
def take (h : History) : Option History :=
  if h.queue.terminate then some (h.setPhase .stopped)
  else if h.queue.pending = [] then none
  else
    match h.queue.pending.find? fun d => !h.queue.isWaiting d with
    | none => some h
    | some d => some { h with
        queue := { h.queue with
          pending := h.queue.pending.eraseP fun d => !h.queue.isWaiting d
          running := true
          phase := .removed d }
        removed := h.removed ++ [d] }

/-- The execution of the commands of the dispatch, unless it is terminated. -/
def execute (h : History) (d : Dispatch) (errors : Nat → Bool) : History :=
  if h.queue.dispatchIsTerminated d then h.setPhase (.executed d .failure)
  else
    let result := Riscv.execute errors 0 (h.queue.commands d.commandBuffer)
    { h.setPhase (.executed d result) with executed := h.executed ++ [(d, result)] }

/-- Terminate, if there was an error, and signal. -/
def finish (h : History) (d : Dispatch) (result : Result) : History :=
  let q := if result = .success then h.queue else h.queue.terminateAll d
  { h with
    queue := { q.signalAll d result with phase := .signalled }
    finished := h.finished ++ [(d, result)] }

def step (h : History) : Event → Option History
  | .dispatch commandBuffer fence waitSemaphores signalSemaphores userFunction userData =>
    let d : Dispatch := ⟨h.dispatched.length, commandBuffer, fence, waitSemaphores, signalSemaphores,
      userFunction, userData⟩
    some { h with queue := h.queue.dispatch d, dispatched := h.dispatched ++ [d] }
  | .take =>
    match h.queue.phase with
    | .top => h.take
    | _ => none
  | .execute errors =>
    match h.queue.phase with
    | .removed d => some (h.execute d errors)
    | _ => none
  | .notify =>
    match h.queue.phase with
    | .executed d result =>
      some { h with queue := { h.queue.notifyUser d result with phase := .notified d result } }
    | _ => none
  | .finish =>
    match h.queue.phase with
    | .notified d result => some (h.finish d result)
    | _ => none
  | .release =>
    match h.queue.phase with
    | .signalled => some { h with queue := { h.queue with running := false, phase := .top } }
    | _ => none
  | .terminate => some { h with queue := { h.queue with terminate := true } }

end History

end ConstructionKit.Riscv
