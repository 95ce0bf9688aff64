import ConstructionKit.Clik.CommandQueue
import ConstructionKit.ProofKit.Runs

/-! What the callers of a command queue see, under every interleaving with its worker. -/

namespace ConstructionKit.Clik

open ProofKit List

variable {α : Type} {q : Queue α} {x : α} {xs : List α} {k : Nat}

/-! ### What happened -/

/-- The queue, with the commands that were enqueued, the ones that the last dispatch covers, the ones
that were executed, and for each caller the ones that were dispatched when it began to wait. -/
structure History (α : Type) where
  queue : Queue α
  enqueued : List α
  covered : List α
  executed : List α
  waits : Nat → List α

def History.init : History α := ⟨.create, [], [], [], fun _ => []⟩

def History.step (h : History α) (label : Step α) : Option (History α) := do
  let queue ← h.queue.step label
  return {
    queue
    enqueued := match label with
      | .enqueue x => if h.queue.shutdown then h.enqueued else h.enqueued ++ [x]
      | _ => h.enqueued
    covered := match label with
      | .dispatch => h.enqueued
      | .release _ => h.enqueued
      | _ => h.covered
    executed := match label, h.queue.worker with
      | .worker, .executing command _ _ => h.executed ++ [command.run]
      | _, _ => h.executed
    waits := match label with
      | .wait c => Function.update h.waits c h.covered
      | _ => h.waits }

/-- Commands are executed in the order in which they were enqueued, each once, and only after a
dispatch that covers them; a worker that is blocked has executed all that were dispatched; and a
worker that is gone, for which `clik_release_command_queue` waits, all that were enqueued. -/
structure History.Sound (h : History α) : Prop where
  order : h.executed <+: h.enqueued
  dispatched : h.executed <+: h.covered
  blocked : h.queue.worker = .waiting false → h.executed = h.covered
  released : h.queue.worker = .exited → h.executed = h.enqueued

/-- The step is sound, and if it is the end of a `clik_wait`, all commands that were dispatched before
the call are executed. -/
def History.Works (h : History α) (label : Step α) : Prop :=
  ∃ h', h.step label = some h' ∧ h'.Sound ∧
    ∀ c, label = .wait c ∨ label = .wake c → h'.queue.callers c = .idle → h'.waits c <+: h'.executed

/-! ### Timestamps -/

/-- Commands with consecutive timestamps. -/
def stamp : Nat → List α → List (Command α)
  | _, [] => []
  | k, x :: xs => ⟨k + 1, x⟩ :: stamp (k + 1) xs

theorem stamp_append (k : Nat) (xs : List α) (x : α) :
    stamp k (xs ++ [x]) = stamp k xs ++ [⟨k + xs.length + 1, x⟩] := by
  induction xs generalizing k with
  | nil => rfl
  | cons y ys ih =>
    rw [cons_append, stamp, ih, stamp, cons_append, length_cons,
      Nat.add_right_comm k, Nat.add_assoc k]

theorem foldl_max_stamp (k n : Nat) (xs : List α) (hn : n ≤ k) :
    ((stamp k xs).map (·.timestamp)).foldl max n = if xs = [] then n else k + xs.length := by
  induction xs generalizing k n with
  | nil => rfl
  | cons x xs ih =>
    rw [stamp, map_cons, foldl_cons, Nat.max_eq_right (Nat.le_succ_of_le hn),
      ih _ _ (Nat.le_refl _), if_neg (cons_ne_nil x xs)]
    split
    · next hxs =>
      rw [hxs]
      rfl
    · rw [length_cons]
      omega

/-! ### The invariant -/

variable {h h' : History α} {label : Step α}

/-- What holds between the steps of all threads. -/
structure History.Core (h : History α) : Prop where
  next : h.queue.nextCommandTimestamp = h.enqueued.length + 1
  covered : h.covered <+: h.enqueued
  dispatched : h.queue.dispatchedTimestamp = h.covered.length
  executed_le : h.queue.executedTimestamp ≤ h.queue.dispatchedTimestamp
  commands : h.queue.commands =
    stamp h.queue.executedTimestamp (h.enqueued.drop h.queue.executedTimestamp)
  waits : ∀ c current notified, h.queue.callers c = .waiting current notified →
    h.waits c <+: h.covered ∧ (h.waits c).length = current

/-- What the worker has executed, by where it is. -/
def History.WorkerAt (h : History α) : Worker α → Prop
  | .start | .waiting _ => h.executed = h.enqueued.take h.queue.executedTimestamp
  | .executing command _ current =>
    h.executed = h.enqueued.take h.queue.executedTimestamp ∧ h.queue.commands.head? = some command ∧
      command.timestamp ≤ current ∧ current ≤ h.queue.dispatchedTimestamp
  | .done command _ current =>
    h.executed = h.enqueued.take (h.queue.executedTimestamp + 1) ∧
      h.queue.commands.head? = some command ∧
      command.timestamp ≤ current ∧ current ≤ h.queue.dispatchedTimestamp
  | .exited =>
    h.executed = h.enqueued.take h.queue.executedTimestamp ∧ h.queue.shutdown = true

section

variable (hcore : h.Core)
include hcore

theorem History.Core.executed_le_length :
    h.queue.executedTimestamp ≤ h.enqueued.length := by
  have hcovered := hcore.covered.length_le
  have hdispatched := hcore.dispatched
  have hexecuted := hcore.executed_le
  omega

theorem History.Core.head {command : Command α}
    (hhead : h.queue.commands.head? = some command) :
    command.timestamp = h.queue.executedTimestamp + 1 ∧
      h.enqueued.take (h.queue.executedTimestamp + 1) =
        h.enqueued.take h.queue.executedTimestamp ++ [command.run] := by
  rw [hcore.commands] at hhead
  cases hdrop : h.enqueued.drop h.queue.executedTimestamp with
  | nil =>
    rw [hdrop] at hhead
    cases hhead
  | cons =>
    rw [hdrop] at hhead
    cases hhead
    refine ⟨rfl, ?_⟩
    rw [take_add_one, ← head?_drop, hdrop]
    rfl

theorem History.Core.commands_eq_nil :
    h.queue.commands = [] ↔ h.queue.executedTimestamp = h.enqueued.length := by
  have hle := hcore.executed_le_length
  rw [hcore.commands]
  cases hdrop : h.enqueued.drop h.queue.executedTimestamp with
  | nil =>
    refine iff_of_true rfl ?_
    have hlength := drop_eq_nil_iff.1 hdrop
    omega
  | cons =>
    refine iff_of_false (cons_ne_nil _ _) fun heq => ?_
    rw [heq, drop_length] at hdrop
    cases hdrop

/-- What was executed is what the timestamps say, when the worker is not in a pass. -/
theorem History.Core.take_eq_covered
    (heq : h.queue.executedTimestamp = h.queue.dispatchedTimestamp) :
    h.enqueued.take h.queue.executedTimestamp = h.covered := by
  rw [heq, hcore.dispatched]
  exact (prefix_iff_eq_take.1 hcore.covered).symm

/-- The worker has caught up where it is blocked or gone. -/
structure History.Caught (h : History α) : Prop where
  blocked : h.queue.worker = .waiting false → h.queue.executedTimestamp = h.queue.dispatchedTimestamp
  released : h.queue.worker = .exited → h.queue.commands = []

theorem History.Core.take_covered {n : Nat}
    (hn : n ≤ h.queue.dispatchedTimestamp) : h.enqueued.take n <+: h.covered := by
  rw [prefix_iff_eq_take.1 hcore.covered, ← hcore.dispatched]
  exact take_prefix_take_left hn

theorem History.Core.executed_covered (hworker : h.WorkerAt h.queue.worker) :
    h.executed <+: h.covered := by
  have hle := hcore.take_covered hcore.executed_le
  cases hw : h.queue.worker with
  | start | waiting =>
    rw [hw] at hworker
    rwa [hworker]
  | executing | exited =>
    rw [hw] at hworker
    rwa [hworker.1]
  | done =>
    rw [hw] at hworker
    obtain ⟨hexecuted, hhead, hcurrent, hdispatched⟩ := hworker
    rw [(hcore.head hhead).1] at hcurrent
    rw [hexecuted]
    exact hcore.take_covered (Nat.le_trans hcurrent hdispatched)

theorem History.Core.sound_iff (hworker : h.WorkerAt h.queue.worker) :
    h.Sound ↔ h.Caught := by
  have hcovered := hcore.executed_covered hworker
  constructor
  · intro hsound
    refine ⟨fun hwaiting => ?_, fun hexited => ?_⟩
    · rw [hwaiting] at hworker
      have hlength := congrArg List.length (Eq.trans (Eq.symm hworker) (hsound.blocked hwaiting))
      rw [length_take_of_le hcore.executed_le_length, ← hcore.dispatched] at hlength
      exact hlength
    · rw [hexited] at hworker
      have hlength := congrArg List.length (hworker.1.symm.trans (hsound.released hexited))
      rw [length_take_of_le hcore.executed_le_length] at hlength
      exact hcore.commands_eq_nil.2 hlength
  · intro hcaught
    refine ⟨hcovered.trans hcore.covered, hcovered, fun hwaiting => ?_, fun hexited => ?_⟩
    · rw [hwaiting] at hworker
      exact Eq.trans hworker (hcore.take_eq_covered (hcaught.blocked hwaiting))
    · rw [hexited] at hworker
      rw [hworker.1, hcore.commands_eq_nil.1 (hcaught.released hexited), take_length]

end

end ConstructionKit.Clik
