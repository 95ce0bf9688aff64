import Mathlib.Algebra.Group.Nat.Defs
import Mathlib.Logic.Function.Basic

/-! The queue of the host target and its semaphores (`mux/targets/host/source/queue.cpp` and
`semaphore.cpp`).  Everything here is done with the mutex of the queue. -/

namespace ConstructionKit.Host

open Function

abbrev Group := Nat
abbrev Sem := Nat
abbrev Fence := Nat

structure SignalInfo where
  waitCount : UInt64
  fence : Option Fence
deriving DecidableEq, Repr

structure Semaphore where
  signalled : Bool
  failed : Bool
  waitingGroups : List Group
deriving DecidableEq, Repr

/-- What is enqueued to the thread pool: the commands of a group, or only its cleanup. -/
structure Job where
  group : Group
  fence : Option Fence
  terminate : Bool
deriving DecidableEq, Repr

/-- What a group reports to its fence and its user function. -/
structure Completion where
  group : Group
  fence : Option Fence
  failed : Bool
deriving DecidableEq, Repr

structure State where
  signalInfos : List (Group × SignalInfo)
  semaphores : Sem → Semaphore
  signalSemaphores : Group → List Sem
  pool : List Job
  completions : List Completion

namespace State

variable (s : State)

def setSemaphore (sem : Sem) (semaphore : Semaphore) : State :=
  { s with semaphores := update s.semaphores sem semaphore }

def setSignalSemaphores (group : Group) (sems : List Sem) : State :=
  { s with signalSemaphores := update s.signalSemaphores group sems }

def enqueue (job : Job) : State := { s with pool := s.pool ++ [job] }

/-- The first entry of a group. -/
def updateFirst (group : Group) (waitCount : UInt64) :
    List (Group × SignalInfo) → List (Group × SignalInfo)
  | [] => []
  | entry :: entries =>
    if entry.1 = group then (group, { entry.2 with waitCount }) :: entries
    else entry :: updateFirst group waitCount entries

/-- A failed signal does not touch the entry of the group. -/
def signalCompleted (group : Group) (terminate : Bool) : State :=
  match s.signalInfos.find? (·.1 = group) with
  | none => s
  | some (_, info) =>
    if terminate then s.enqueue ⟨group, info.fence, true⟩
    else
      let waitCount := info.waitCount - 1
      if waitCount = 0 then
        { s.enqueue ⟨group, info.fence, false⟩ with
          signalInfos := s.signalInfos.eraseP (·.1 = group) }
      else { s with signalInfos := updateFirst group waitCount s.signalInfos }

def addGroup (group : Group) (fence : Option Fence) (numWaits : UInt64) : State :=
  if numWaits = 0 then s.enqueue ⟨group, fence, false⟩
  else { s with signalInfos := s.signalInfos ++ [(group, ⟨numWaits, fence⟩)] }

/-- `semaphore_s::signal`.  The groups stay in the list of the semaphore. -/
def signal (sem : Sem) (terminate : Bool) : State :=
  let semaphore := { s.semaphores sem with signalled := true, failed := terminate }
  semaphore.waitingGroups.foldl (fun s group => s.signalCompleted group terminate)
    (s.setSemaphore sem semaphore)

def addWait (group : Group) (sem : Sem) : State :=
  let semaphore := s.semaphores sem
  if semaphore.signalled then s.signalCompleted group semaphore.failed
  else s.setSemaphore sem { semaphore with waitingGroups := semaphore.waitingGroups ++ [group] }

/-- `semaphore_s::reset`. -/
def reset (sem : Sem) : State := s.setSemaphore sem ⟨false, false, []⟩

def hostDispatch (group : Group) (fence : Option Fence) (waitSemaphores : List Sem)
    (signalSemaphores : List Sem) : State :=
  let s := s.setSignalSemaphores group (s.signalSemaphores group ++ signalSemaphores)
  let s := s.addGroup group fence (UInt64.ofNat waitSemaphores.length)
  waitSemaphores.foldl (fun s sem => s.addWait group sem) s

/-- Both jobs end with this. -/
def threadPoolCleanup (job : Job) : State :=
  let completion : Completion := ⟨job.group, job.fence, job.terminate⟩
  let s : State := { s with completions := s.completions ++ [completion] }
  let s := (s.signalSemaphores job.group).foldl (fun s sem => s.signal sem job.terminate) s
  s.setSignalSemaphores job.group []

/-- The state of a new device. -/
def create : State := ⟨[], fun _ => ⟨false, false, []⟩, fun _ => [], [], []⟩

end State

/-! ### Histories -/

/-- The semaphores that a dispatch waits for, each with whether it was signalled, at the dispatch or
later. -/
abbrev Waits := List (Sem × Bool)

/-- A queue and the dispatches that are not complete. -/
structure Tracked where
  state : State
  waits : Group → Option Waits

def Waits.mark (waits : Waits) (sem : Sem) : Waits := waits.map fun w => (w.1, w.2 || w.1 == sem)

def Tracked.mark (t : Tracked) (sem : Sem) : Tracked :=
  { t with waits := fun group => (t.waits group).map (·.mark sem) }

inductive Event where
  | dispatch (group : Group) (fence : Option Fence) (waitSemaphores signalSemaphores : List Sem)
  | complete (job : Job)
  | signal (sem : Sem)
  | reset (sem : Sem)
deriving DecidableEq, Repr

def Tracked.create : Tracked := ⟨.create, fun _ => none⟩

def Tracked.step (t : Tracked) : Event → Option Tracked
  | .dispatch group fence waitSemaphores signalSemaphores =>
    let waits := waitSemaphores.map fun sem => (sem, (t.state.semaphores sem).signalled)
    some ⟨t.state.hostDispatch group fence waitSemaphores signalSemaphores,
      update t.waits group (some waits)⟩
  | .complete job =>
    if job ∈ t.state.pool then
      let s := { t.state with pool := t.state.pool.erase job }
      let marked := (s.signalSemaphores job.group).foldl Tracked.mark
        { t with waits := update t.waits job.group none }
      some { marked with state := s.threadPoolCleanup job }
    else none
  | .signal sem => some { t.mark sem with state := t.state.signal sem false }
  | .reset sem => some { t with state := t.state.reset sem }

/-- A command buffer is dispatched at most once before it completes, and semaphores are signalled at
most once between resets.  A dispatch has at most `UINT32_MAX` semaphores. -/
def Tracked.Allowed (t : Tracked) : Event → Prop
  | .dispatch group _ waitSemaphores _ => t.waits group = none ∧ waitSemaphores.length < 2 ^ 32
  | .complete job => (t.state.signalSemaphores job.group).Nodup ∧
      ∀ sem ∈ t.state.signalSemaphores job.group, (t.state.semaphores sem).signalled = false
  | .signal sem => (t.state.semaphores sem).signalled = false
  | .reset _ => True

end ConstructionKit.Host
