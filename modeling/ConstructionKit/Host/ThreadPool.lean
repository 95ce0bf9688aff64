import ConstructionKit.ProofKit.CircularBuffer

/-! The work queue of the thread pool (`mux/targets/host/source/thread_pool.cpp` and
`thread_pool.h`).  A step of a thread is what it does at once: with the mutex of the pool, or an update
of an atomic variable without it. -/

namespace ConstructionKit.Host.ThreadPool

open Function

abbrev Pointer := Nat

/-- `thread_pool_work_item_s`. -/
structure WorkItem where
  function : Pointer
  userData : Pointer
  userData2 : Pointer
  userData3 : Pointer
  index : Nat
  signal : Option Pointer
  count : Pointer
deriving DecidableEq, Repr

def queueMax : Nat := 4096

/-- A call of `enqueue` or `enqueue_range`: the items that it has not written yet, and whether the
first of them has been counted. -/
structure Call where
  items : List WorkItem
  counted : Bool
deriving DecidableEq, Repr

/-- The pool, the atomic variables of its users, who holds the mutex, the calls that threads are in,
and the items that are being run. -/
structure Pool (T : Type) where
  queue : Nat → WorkItem
  queueReadIndex : Nat
  queueWriteIndex : Nat
  stayAlive : Bool
  counts : Pointer → UInt32
  signals : Pointer → Bool
  mutex : Option T
  calls : T → Option Call
  running : List WorkItem

variable {T : Type} [DecidableEq T]

namespace Pool

variable (s : Pool T) (thread : T)

/-- The start of an item: its count goes up before its signal is cleared. -/
def countItem (item : WorkItem) : Pool T :=
  { s with
    counts := update s.counts item.count (s.counts item.count + 1)
    signals :=
      match item.signal with
      | none => s.signals
      | some signal => update s.signals signal false }

def setCall (call : Option Call) : Pool T :=
  { s with calls := update s.calls thread call }

/-- A call of `enqueue`, up to the lock. -/
def enqueue (item : WorkItem) : Option (Pool T) :=
  match s.calls thread with
  | some _ => none
  | none => some ((s.countItem item).setCall thread (some ⟨[item], true⟩))

/-- The items of `enqueue_range`. -/
def rangeItems (function userData userData2 signals count : Pointer) (slices : Nat) : List WorkItem :=
  (List.range slices).map fun index =>
    ⟨function, userData, userData2, 0, index, some (signals + index), count⟩

/-- A call of `enqueue_range`, up to the lock. -/
def enqueueRange (function userData userData2 signals count : Pointer)
    (slices : Nat) : Option (Pool T) :=
  match s.calls thread with
  | some _ => none
  | none => some (s.setCall thread
      (some ⟨rangeItems function userData userData2 signals count slices, false⟩))

/-- The lock at the start of a call, or behind a wait. -/
def lock : Option (Pool T) :=
  match s.mutex, s.calls thread with
  | none, some _ => some { s with mutex := some thread }
  | _, _ => none

/-- The top of the loop of `enqueue_range`. -/
def countFirst : Option (Pool T) :=
  match s.calls thread with
  | some ⟨item :: items, false⟩ =>
    if s.mutex = some thread then
      some ((s.countItem item).setCall thread (some ⟨item :: items, true⟩))
    else none
  | _ => none

def nextWriteIndex : Nat := (s.queueWriteIndex + 1) % queueMax

/-- The queue is full: the mutex is given up until an item has been completed. -/
def wait : Option (Pool T) :=
  match s.calls thread with
  | some ⟨_ :: _, true⟩ =>
    if s.mutex = some thread ∧ s.queueReadIndex = s.nextWriteIndex then some { s with mutex := none }
    else none
  | _ => none

/-- The write of an item, and the item. -/
def write : Option (WorkItem × Pool T) :=
  match s.calls thread with
  | some ⟨item :: items, true⟩ =>
    if s.mutex = some thread ∧ s.queueReadIndex ≠ s.nextWriteIndex then
      some (item, { s.setCall thread (some ⟨items, false⟩) with
        queue := update s.queue s.queueWriteIndex item
        queueWriteIndex := s.nextWriteIndex })
    else none
  | _ => none

/-- The end of a call that has written all its items. -/
def unlock : Option (Pool T) :=
  match s.calls thread with
  | some ⟨[], _⟩ =>
    if s.mutex = some thread then some { s.setCall thread none with mutex := none } else none
  | _ => none

/-- The item at the read index goes to a worker. -/
def take : Option WorkItem × Pool T :=
  let work := s.queue s.queueReadIndex
  (some work, { s with
    queueReadIndex := (s.queueReadIndex + 1) % queueMax
    running := s.running ++ [work] })

/-- `getWork`, behind its wait.  Nothing is returned once the pool is to end. -/
def getWork : Option (Option WorkItem × Pool T) :=
  match s.mutex with
  | some _ => none
  | none =>
    if s.stayAlive = false then some (none, s)
    else if s.queueReadIndex ≠ s.queueWriteIndex then some s.take
    else none

/-- `tryGetWork`, behind its first check of `stayAlive`, which is made without the mutex. -/
def tryGetWork : Option (Option WorkItem × Pool T) :=
  match s.mutex with
  | some _ => none
  | none => if s.queueReadIndex = s.queueWriteIndex then some (none, s) else some s.take

/-- The end of `threadFuncBody`. -/
def complete (item : WorkItem) : Option (Pool T) :=
  if item ∈ s.running then
    some { s with
      signals :=
        match item.signal with
        | none => s.signals
        | some signal => update s.signals signal true
      counts := update s.counts item.count (s.counts item.count - 1)
      running := s.running.erase item }
  else none

/-- The destructor, up to the end of its critical section. -/
def kill : Option (Pool T) :=
  match s.mutex with
  | some _ => none
  | none => some { s with stayAlive := false }

/-- A new pool.  Its queue is not initialised. -/
def create (queue : Nat → WorkItem) : Pool T :=
  ⟨queue, 0, 0, true, fun _ => 0, fun _ => false, none, fun _ => none, []⟩

/-- The slots that are written and not read. -/
def unreadSlots : List Nat :=
  ProofKit.unreadSlots queueMax s.queueReadIndex s.queueWriteIndex

def unread : List WorkItem := s.unreadSlots.map s.queue

end Pool

/-! ### Histories -/

/-- A pool with the items that were written, those that were handed to workers, and those that are
complete. -/
structure History (T : Type) where
  pool : Pool T
  enqueued : List WorkItem
  handed : List WorkItem
  completed : List WorkItem

inductive Event (T : Type) where
  | enqueue (thread : T) (item : WorkItem)
  | enqueueRange (thread : T) (function userData userData2 signals count : Pointer) (slices : Nat)
  | lock (thread : T)
  | countFirst (thread : T)
  | wait (thread : T)
  | write (thread : T)
  | unlock (thread : T)
  | getWork
  | tryGetWork
  | complete (item : WorkItem)
  | kill

namespace History

def create (queue : Nat → WorkItem) : History T := ⟨.create queue, [], [], []⟩

def setPool (h : History T) (pool : Pool T) : History T := { h with pool }

/-- What a worker gets. -/
def hand (h : History T) : Option WorkItem × Pool T → History T
  | (none, pool) => { h with pool }
  | (some item, pool) => { h with pool, handed := h.handed ++ [item] }

def step (h : History T) : Event T → Option (History T)
  | .enqueue thread item => (h.pool.enqueue thread item).map h.setPool
  | .enqueueRange thread function userData userData2 signals count slices =>
    (h.pool.enqueueRange thread function userData userData2 signals count slices).map h.setPool
  | .lock thread => (h.pool.lock thread).map h.setPool
  | .countFirst thread => (h.pool.countFirst thread).map h.setPool
  | .wait thread => (h.pool.wait thread).map h.setPool
  | .write thread => (h.pool.write thread).map fun (item, pool) =>
    { h with pool, enqueued := h.enqueued ++ [item] }
  | .unlock thread => (h.pool.unlock thread).map h.setPool
  | .getWork => h.pool.getWork.map h.hand
  | .tryGetWork => h.pool.tryGetWork.map h.hand
  | .complete item => (h.pool.complete item).map fun pool =>
    { h with pool, completed := h.completed ++ [item] }
  | .kill => h.pool.kill.map h.setPool

end History

end ConstructionKit.Host.ThreadPool
