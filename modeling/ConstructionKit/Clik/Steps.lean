import Mathlib.Data.List.Infix
import ConstructionKit.Clik.Interleavings

/-! What each step of a command queue keeps, and when commands are lost. -/

namespace ConstructionKit.Clik

open ProofKit List Function Option

variable {α : Type} {q : Queue α} {h h' : History α} {label : Step α}

/-! ### Steps -/

/-- A step that leaves the commands and the timestamps, and starts no wait. -/
theorem History.Core.of_queue (hcore : h.Core)
    (hnext : q.nextCommandTimestamp = h.queue.nextCommandTimestamp)
    (hdispatched : q.dispatchedTimestamp = h.queue.dispatchedTimestamp)
    (hexecuted : q.executedTimestamp = h.queue.executedTimestamp)
    (hcommands : q.commands = h.queue.commands)
    (hcallers : ∀ c current notified, q.callers c = .waiting current notified →
      ∃ notified', h.queue.callers c = .waiting current notified') :
    { h with queue := q }.Core := by
  refine ⟨hnext.trans hcore.next, hcore.covered, hdispatched.trans hcore.dispatched, ?_, ?_, ?_⟩
  · rw [hexecuted, hdispatched]
    exact hcore.executed_le
  · rw [hcommands, hexecuted]
    exact hcore.commands
  · intro c current notified hc
    obtain ⟨notified', hc'⟩ := hcallers c current notified hc
    exact hcore.waits c current notified' hc'

theorem Queue.setCaller_callers_self (q : Queue α) (c : Nat) (caller : Caller) :
    (q.setCaller c caller).callers c = caller :=
  update_self ..

variable {c current d : Nat} {worker : Worker α} {caller : Caller} {notified : Bool}

theorem Queue.setCaller_callers_of_ne (hdc : d ≠ c) (caller : Caller) :
    (q.setCaller c caller).callers d = q.callers d :=
  update_of_ne hdc ..

theorem Queue.setCaller_waiting (hd : (q.setCaller c caller).callers d = .waiting current notified)
    (hcaller : ∀ current notified, caller ≠ .waiting current notified) :
    q.callers d = .waiting current notified := by
  by_cases hdc : d = c
  · subst hdc
    rw [setCaller_callers_self] at hd
    exact absurd hd (hcaller current notified)
  · rwa [setCaller_callers_of_ne hdc] at hd

theorem Caller.notify_eq_waiting (hnotify : caller.notify = .waiting current notified) :
    ∃ notified', caller = .waiting current notified' := by
  cases caller with
  | waiting current' notified' =>
    cases hnotify
    exact ⟨notified', rfl⟩
  | idle | releasing | joining => cases hnotify

/-- A dispatch covers all commands, and wakes the worker up if there are new ones. -/
theorem History.Core.dispatch_eq (hcore : h.Core) :
    h.queue.dispatch = if h.queue.dispatchedTimestamp < h.enqueued.length then
      { h.queue with dispatchedTimestamp := h.enqueued.length }.notifyDispatched else h.queue := by
  have hcovered := hcore.covered.length_le
  have hdispatched := hcore.dispatched
  have hexecuted := hcore.executed_le
  have hrecent : (h.queue.commands.map (·.timestamp)).foldl max 0 =
      if h.queue.commands = [] then 0 else h.enqueued.length := by
    rw [hcore.commands, foldl_max_stamp _ _ _ (Nat.zero_le _)]
    cases hdrop : h.enqueued.drop h.queue.executedTimestamp with
    | nil => rfl
    | cons =>
      have hlength := congrArg List.length hdrop
      rw [length_drop] at hlength
      rw [if_neg (cons_ne_nil _ _), stamp, if_neg (cons_ne_nil _ _)]
      omega
  rw [Queue.dispatch, hrecent]
  by_cases hnil : h.queue.commands = []
  · have hall := hcore.commands_eq_nil.1 hnil
    rw [if_pos hnil, if_pos (Nat.zero_le _), if_neg (by omega)]
  · rw [if_neg hnil]
    by_cases hnew : h.queue.dispatchedTimestamp < h.enqueued.length
    · rw [if_pos hnew, if_neg (Nat.not_le.2 hnew)]
    · rw [if_neg hnew, if_pos (Nat.le_of_not_lt hnew)]

/-- What a step leaves that is not the worker's own. -/
structure History.Keeps (h h' : History α) : Prop where
  worker : h'.queue.worker = h.queue.worker ∨ h'.queue.worker = h.queue.worker.notify
  executed : h'.executed = h.executed
  enqueued : h.enqueued <+: h'.enqueued
  executedTimestamp : h'.queue.executedTimestamp = h.queue.executedTimestamp
  head : ∀ command, h.queue.commands.head? = some command → h'.queue.commands.head? = some command
  dispatched : h.queue.dispatchedTimestamp ≤ h'.queue.dispatchedTimestamp
  shutdown : h.queue.shutdown = true → h'.queue.shutdown = true
  commands : h.queue.shutdown = true → h'.queue.commands = h.queue.commands
  blocked : h'.queue.worker = .waiting false →
    h'.queue.dispatchedTimestamp = h.queue.dispatchedTimestamp

theorem History.Keeps.refl (h : History α) : h.Keeps h :=
  ⟨.inl rfl, rfl, prefix_rfl, rfl, fun _ => id, Nat.le_refl _, id, fun _ => rfl, fun _ => rfl⟩

theorem History.workerAt_notify : h.WorkerAt worker.notify ↔ h.WorkerAt worker := by
  cases worker <;> exact Iff.rfl

theorem take_extended {xs ys : List α} {n : Nat} (hxs : xs <+: ys) (hn : n ≤ xs.length) :
    ys.take n = xs.take n := by
  obtain ⟨zs, rfl⟩ := hxs
  exact take_append_of_le_length hn

theorem History.Keeps.workerAt (hkeeps : h.Keeps h') (hcore : h.Core)
    (hworker : h.WorkerAt h.queue.worker) : h'.WorkerAt h'.queue.worker := by
  suffices hsame : h'.WorkerAt h.queue.worker by
    rcases hkeeps.worker with hw | hw
    · rwa [hw]
    · rwa [hw, workerAt_notify]
  have htake : h'.enqueued.take h'.queue.executedTimestamp =
      h.enqueued.take h.queue.executedTimestamp := by
    rw [hkeeps.executedTimestamp]
    exact take_extended hkeeps.enqueued hcore.executed_le_length
  cases hw : h.queue.worker with
  | start | waiting =>
    rw [hw] at hworker
    rw [WorkerAt, hkeeps.executed, htake]
    exact hworker
  | executing =>
    rw [hw] at hworker
    obtain ⟨hexecuted, hhead, hcurrent, hdispatched⟩ := hworker
    rw [WorkerAt, hkeeps.executed, htake]
    exact ⟨hexecuted, hkeeps.head _ hhead, hcurrent, Nat.le_trans hdispatched hkeeps.dispatched⟩
  | done =>
    rw [hw] at hworker
    obtain ⟨hexecuted, hhead, hcurrent, hdispatched⟩ := hworker
    refine ⟨?_, hkeeps.head _ hhead, hcurrent, Nat.le_trans hdispatched hkeeps.dispatched⟩
    rw [hkeeps.executed, hkeeps.executedTimestamp, hexecuted, (take_extended hkeeps.enqueued ?_)]
    have hcovered := hcore.covered.length_le
    have hd := hcore.dispatched
    rw [(hcore.head hhead).1] at hcurrent
    omega
  | exited =>
    rw [hw] at hworker
    rw [WorkerAt, hkeeps.executed, htake]
    exact ⟨hworker.1, hkeeps.shutdown hworker.2⟩

theorem Worker.notify_ne_waiting (worker : Worker α) : worker.notify ≠ .waiting false := by
  cases worker <;> exact nofun

theorem Worker.notify_eq_exited (hnotify : worker.notify = .exited) : worker = .exited := by
  cases worker with
  | exited => rfl
  | start | executing | done | waiting => cases hnotify

theorem History.Keeps.caught (hkeeps : h.Keeps h') (hworker : h.WorkerAt h.queue.worker)
    (hcaught : h.Caught) : h'.Caught := by
  refine ⟨fun hwaiting => ?_, fun hexited => ?_⟩
  · rw [hkeeps.executedTimestamp, hkeeps.blocked hwaiting]
    rcases hkeeps.worker with hw | hw
    · exact hcaught.blocked (hw.symm.trans hwaiting)
    · exact absurd (hw.symm.trans hwaiting) (Worker.notify_ne_waiting _)
  · have hold : h.queue.worker = .exited := by
      rcases hkeeps.worker with hw | hw
      · exact hw.symm.trans hexited
      · exact Worker.notify_eq_exited (hw.symm.trans hexited)
    rw [hold] at hworker
    rw [hkeeps.commands hworker.2]
    exact hcaught.released hold

/-! ### The callers' steps -/

theorem History.Core.enqueue (hcore : h.Core) (hshutdown : h.queue.shutdown = false) (x : α) :
    { h with queue := h.queue.enqueue x, enqueued := h.enqueued ++ [x] }.Core ∧
      h.Keeps { h with queue := h.queue.enqueue x, enqueued := h.enqueued ++ [x] } := by
  have hle := hcore.executed_le_length
  have henqueue : h.queue.enqueue x = { h.queue with
      commands := h.queue.commands ++ [⟨h.queue.nextCommandTimestamp, x⟩]
      nextCommandTimestamp := h.queue.nextCommandTimestamp + 1 } :=
    if_neg (Bool.not_eq_true _ ▸ hshutdown)
  rw [henqueue]
  refine ⟨⟨?_, hcore.covered.trans (prefix_append ..), hcore.dispatched, hcore.executed_le, ?_,
    hcore.waits⟩, ⟨.inl rfl, rfl, prefix_append .., rfl, fun command hhead => ?_, Nat.le_refl _,
    id, fun htrue => ?_, fun _ => rfl⟩⟩
  · rw [hcore.next, length_append, length_singleton]
  · rw [drop_append_of_le_length hle, stamp_append, ← hcore.commands, hcore.next, length_drop,
      Nat.add_sub_cancel' hle]
  · rw [head?_append, hhead]
    rfl
  · rw [hshutdown] at htrue
    cases htrue

theorem History.Core.dispatch (hcore : h.Core) :
    { h with queue := h.queue.dispatch, covered := h.enqueued }.Core ∧
      h.Keeps { h with queue := h.queue.dispatch, covered := h.enqueued } := by
  have hcovered := hcore.covered.length_le
  have hdispatched := hcore.dispatched
  rw [hcore.dispatch_eq]
  split
  · next hnew =>
    refine ⟨⟨hcore.next, prefix_rfl, rfl, hcore.executed_le_length, hcore.commands,
      fun c current notified hc => ?_⟩, ⟨.inr rfl, rfl, prefix_rfl, rfl, fun _ => id,
      Nat.le_of_lt hnew, id, fun _ => rfl, fun hwaiting => ?_⟩⟩
    · obtain ⟨hwaits, hlength⟩ := hcore.waits c current notified hc
      exact ⟨hwaits.trans hcore.covered, hlength⟩
    · exact absurd hwaiting (Worker.notify_ne_waiting _)
  · next hold =>
    have hall : h.covered = h.enqueued := hcore.covered.eq_of_length (by omega)
    have hsame : { h with covered := h.enqueued } = h :=
      congrArg (fun covered => { h with covered := covered }) hall.symm
    rw [hsame]
    exact ⟨hcore, .refl h⟩

theorem History.Keeps.trans_queue (hkeeps : h.Keeps h') (hworker : q.worker = h'.queue.worker)
    (hdispatched : q.dispatchedTimestamp = h'.queue.dispatchedTimestamp)
    (hexecuted : q.executedTimestamp = h'.queue.executedTimestamp)
    (hcommands : q.commands = h'.queue.commands) (hshutdown : q.shutdown = h'.queue.shutdown) :
    h.Keeps { h' with queue := q } where
  worker := by rw [hworker]; exact hkeeps.worker
  executed := hkeeps.executed
  enqueued := hkeeps.enqueued
  executedTimestamp := hexecuted.trans hkeeps.executedTimestamp
  head := by rw [hcommands]; exact hkeeps.head
  dispatched := by rw [hdispatched]; exact hkeeps.dispatched
  shutdown := by rw [hshutdown]; exact hkeeps.shutdown
  commands := by rw [hcommands]; exact hkeeps.commands
  blocked := by rw [hworker, hdispatched]; exact hkeeps.blocked

section

variable (hcore : h.Core)
include hcore

/-- The caller that waits knows what was dispatched when it began. -/
theorem History.Core.checkExecuted
    (hwaits : h.waits c <+: h.covered) (hlength : (h.waits c).length = current) :
    { h with queue := h.queue.checkExecuted c current }.Core ∧
      h.Keeps { h with queue := h.queue.checkExecuted c current } := by
  have hset : ∀ caller, (∀ n notified, caller = .waiting n notified → n = current) →
      { h with queue := h.queue.setCaller c caller }.Core ∧
        h.Keeps { h with queue := h.queue.setCaller c caller } := by
    intro caller hcaller
    refine ⟨⟨hcore.next, hcore.covered, hcore.dispatched, hcore.executed_le, hcore.commands, ?_⟩,
      (Keeps.refl h).trans_queue rfl rfl rfl rfl rfl⟩
    intro d n notified hd
    by_cases hdc : d = c
    · subst hdc
      rw [Queue.setCaller_callers_self] at hd
      exact ⟨hwaits, hlength.trans (hcaller n notified hd).symm⟩
    · rw [Queue.setCaller_callers_of_ne hdc] at hd
      exact hcore.waits d n notified hd
  rw [Queue.checkExecuted]
  split
  · exact hset _ fun n notified heq => (Caller.waiting.inj heq).1.symm
  · exact hset _ nofun

theorem History.Core.startWait (hidle : h.queue.callers c = .idle) :
    { h with waits := update h.waits c h.covered }.Core := by
  refine ⟨hcore.next, hcore.covered, hcore.dispatched, hcore.executed_le, hcore.commands,
    fun d current notified hd => ?_⟩
  have hdc : d ≠ c := by
    rintro rfl
    cases hidle.symm.trans hd
  change update h.waits c h.covered d <+: h.covered ∧
    (update h.waits c h.covered d).length = current
  rw [update_of_ne hdc]
  exact hcore.waits d current notified hd

theorem History.Core.callers_step (hstep : h.step label = some h')
    (hlabel : label ≠ .worker) : h'.Core ∧ h.Keeps h' := by
  obtain ⟨q, hq, hh'⟩ := bind_eq_some_iff.1 hstep
  cases hh'
  unfold Queue.step at hq
  split at hq
  · cases hq
  cases label with
  | enqueue x =>
    cases hq
    cases hshutdown : h.queue.shutdown with
    | false =>
      exact hcore.enqueue hshutdown x
    | true =>
      dsimp only
      rw [Queue.enqueue, if_pos hshutdown]
      exact ⟨hcore, .refl h⟩
  | dispatch =>
    cases hq
    exact hcore.dispatch
  | wait c =>
    dsimp only at hq
    split at hq
    · next hidle =>
      cases hq
      have hwaits : update h.waits c h.covered c = h.covered := update_self ..
      obtain ⟨hcore', hkeeps⟩ := (hcore.startWait hidle).checkExecuted
        (show update h.waits c h.covered c <+: h.covered by rw [hwaits]) ((congrArg List.length hwaits).trans hcore.dispatched.symm)
      exact ⟨hcore', hkeeps.worker, hkeeps.executed, hkeeps.enqueued, hkeeps.executedTimestamp,
        hkeeps.head, hkeeps.dispatched, hkeeps.shutdown, hkeeps.commands, hkeeps.blocked⟩
    · cases hq
  | wake c =>
    dsimp only at hq
    split at hq
    · next current notified hc =>
      cases hq
      obtain ⟨hwaits, hlength⟩ := hcore.waits c current notified hc
      exact hcore.checkExecuted hwaits hlength
    · cases hq
  | release =>
    dsimp only at hq
    split at hq
    · cases hq
      obtain ⟨hdispatch, hkeeps⟩ := hcore.dispatch
      refine ⟨hdispatch.of_queue rfl rfl rfl rfl fun d current notified hd => ?_,
        hkeeps.trans_queue rfl rfl rfl rfl rfl⟩
      exact ⟨notified, Queue.setCaller_waiting hd nofun⟩
    · cases hq
  | shutdown =>
    dsimp only at hq
    split at hq
    · cases hq
      refine ⟨hcore.of_queue rfl rfl rfl rfl fun d current notified hd => ?_,
        .inr rfl, rfl, prefix_rfl, rfl, fun _ => id, Nat.le_refl _, fun _ => rfl, fun _ => rfl,
        fun _ => rfl⟩
      exact ⟨notified, Queue.setCaller_waiting hd nofun⟩
    · cases hq
  | join =>
    dsimp only at hq
    split at hq
    · cases hq
      refine ⟨hcore.of_queue rfl rfl rfl rfl fun d current notified hd => ?_,
        (Keeps.refl h).trans_queue rfl rfl rfl rfl rfl⟩
      exact ⟨notified, Queue.setCaller_waiting hd nofun⟩
    · cases hq
  | worker => exact absurd rfl hlabel
  | spurious =>
    dsimp only at hq
    split at hq
    · cases hq
      exact ⟨hcore.of_queue rfl rfl rfl rfl fun d current notified hd => ⟨notified, hd⟩, .inr rfl, rfl,
        prefix_rfl, rfl, fun _ => id, Nat.le_refl _, id, fun _ => rfl, fun _ => rfl⟩
    · cases hq

/-! ### The worker's steps -/

theorem History.Core.pass_cases (previous : Nat)
    (hle : h.queue.executedTimestamp ≤ current) (hcurrent : current ≤ h.queue.dispatchedTimestamp) :
    (current = h.queue.executedTimestamp ∧ h.queue.pass previous current =
        { (if previous < h.queue.executedTimestamp then h.queue.notifyExecuted else h.queue) with
          worker := .waiting false }) ∨
      ∃ command, h.queue.commands.head? = some command ∧ command.timestamp ≤ current ∧
        h.queue.pass previous current = { h.queue with worker := .executing command previous current } := by
  have hdispatched := hcore.dispatched
  have hcovered := hcore.covered.length_le
  rw [Queue.pass]
  split
  · next hcommands =>
    have hall := hcore.commands_eq_nil.1 hcommands
    exact .inl ⟨by omega, rfl⟩
  · next command commands hcommands =>
    have hhead : h.queue.commands.head? = some command := by rw [hcommands, head?_cons]
    split
    · next hlt =>
      rw [(hcore.head hhead).1] at hlt
      exact .inl ⟨by omega, rfl⟩
    · next hlt => exact .inr ⟨command, hhead, Nat.le_of_not_lt hlt, rfl⟩

theorem History.Core.pass (previous : Nat)
    (hexecuted : h.executed = h.enqueued.take h.queue.executedTimestamp)
    (hle : h.queue.executedTimestamp ≤ current) (hcurrent : current ≤ h.queue.dispatchedTimestamp) :
    { h with queue := h.queue.pass previous current }.Core ∧
      { h with queue := h.queue.pass previous current }.WorkerAt (h.queue.pass previous current).worker ∧
      ({ h with queue := h.queue.pass previous current }.Caught ↔
        (current = h.queue.executedTimestamp → h.queue.dispatchedTimestamp = current)) := by
  rcases hcore.pass_cases previous hle hcurrent with ⟨heq, hpass⟩ | ⟨command, hhead, htimestamp, hpass⟩
  · rw [hpass]
    split
    · refine ⟨hcore.of_queue rfl rfl rfl rfl fun c n notified hc => Caller.notify_eq_waiting hc,
        hexecuted, fun hcaught _ => ?_, fun hhandled => ⟨fun _ => ?_, nofun⟩⟩
      · exact ((hcaught.blocked rfl).symm.trans heq.symm)
      · exact (heq.symm.trans (hhandled heq).symm)
    · refine ⟨hcore.of_queue rfl rfl rfl rfl fun c n notified hc => ⟨notified, hc⟩,
        hexecuted, fun hcaught _ => ?_, fun hhandled => ⟨fun _ => ?_, nofun⟩⟩
      · exact ((hcaught.blocked rfl).symm.trans heq.symm)
      · exact (heq.symm.trans (hhandled heq).symm)
  · rw [hpass]
    refine ⟨hcore.of_queue rfl rfl rfl rfl fun c n notified hc => ⟨notified, hc⟩,
      ⟨hexecuted, hhead, htimestamp, hcurrent⟩, fun _ heq => ?_, fun _ => ⟨nofun, nofun⟩⟩
    rw [(hcore.head hhead).1] at htimestamp
    omega

theorem History.Core.remove {command : Command α}
    (hhead : h.queue.commands.head? = some command)
    (htimestamp : command.timestamp ≤ h.queue.dispatchedTimestamp) :
    { h with queue := h.queue.remove command }.Core := by
  refine ⟨hcore.next, hcore.covered, hcore.dispatched, htimestamp, ?_, hcore.waits⟩
  change h.queue.commands.tail = stamp command.timestamp (h.enqueued.drop command.timestamp)
  rw [hcore.commands] at hhead ⊢
  rw [(hcore.head (hcore.commands ▸ hhead)).1, ← tail_drop]
  cases hdrop : h.enqueued.drop h.queue.executedTimestamp with
  | nil =>
    rw [hdrop] at hhead
    cases hhead
  | cons => rfl

end

/-- The worker finds no command when it sees the shutdown, and nothing was dispatched in its pass when
the pass ends. -/
def History.Handled (h : History α) : Step α → Prop
  | .worker =>
    match h.queue.worker with
    | .start | .waiting _ => h.queue.shutdown = true → h.queue.commands = []
    | .done command _ current => current = command.timestamp → h.queue.dispatchedTimestamp = current
    | .executing .. | .exited => True
  | _ => True

theorem History.Core.head_step (hcore : h.Core)
    (hexecuted : h.executed = h.enqueued.take h.queue.executedTimestamp) :
    { h with queue := h.queue.head }.Core ∧
      { h with queue := h.queue.head }.WorkerAt h.queue.head.worker ∧
      ({ h with queue := h.queue.head }.Caught ↔ (h.queue.shutdown = true → h.queue.commands = [])) := by
  rw [Queue.head]
  split
  · next hshutdown =>
    refine ⟨hcore.of_queue rfl rfl rfl rfl fun c n notified hc => ⟨notified, hc⟩,
      ⟨hexecuted, hshutdown⟩, fun hcaught _ => hcaught.released rfl, fun hempty => ⟨nofun, fun _ => ?_⟩⟩
    exact hempty hshutdown
  · next hshutdown =>
    obtain ⟨hcore', hworker, hcaught⟩ :=
      hcore.pass h.queue.executedTimestamp hexecuted hcore.executed_le (Nat.le_refl _)
    exact ⟨hcore', hworker, hcaught.trans (iff_of_true (fun _ => rfl) fun h => absurd h hshutdown)⟩

theorem History.Core.worker_step (hcore : h.Core) (hworker : h.WorkerAt h.queue.worker)
    (hstep : h.step .worker = some h') :
    h'.Core ∧ h'.WorkerAt h'.queue.worker ∧ (h'.Caught ↔ h.Handled .worker) := by
  obtain ⟨q, hq, hh'⟩ := bind_eq_some_iff.1 hstep
  cases hh'
  unfold Queue.step at hq
  split at hq
  · cases hq
  rw [Handled]
  cases hw : h.queue.worker with
  | start =>
    rw [hw] at hworker hq
    cases hq
    exact hcore.head_step hworker
  | executing =>
    rw [hw] at hworker hq
    cases hq
    obtain ⟨hexecuted, hhead, htimestamp, hcurrent⟩ := hworker
    refine ⟨⟨hcore.next, hcore.covered, hcore.dispatched, hcore.executed_le, hcore.commands,
      hcore.waits⟩, ⟨?_, hhead, htimestamp, hcurrent⟩, iff_of_true ⟨nofun, nofun⟩ trivial⟩
    rw [(hcore.head hhead).2, ← hexecuted]
  | done command previous =>
    rw [hw] at hworker hq
    cases hq
    obtain ⟨hexecuted, hhead, htimestamp, hcurrent⟩ := hworker
    have hremove := hcore.remove hhead (Nat.le_trans htimestamp hcurrent)
    rw [← (hcore.head hhead).1] at hexecuted
    exact hremove.pass previous hexecuted htimestamp hcurrent
  | waiting notified =>
    rw [hw] at hworker hq
    cases notified with
    | false => cases hq
    | true =>
      cases hq
      exact hcore.head_step hworker
  | exited =>
    rw [hw] at hq
    cases hq

/-! ### Runs -/

theorem History.Core.step (hcore : h.Core) (hworker : h.WorkerAt h.queue.worker) (hcaught : h.Caught)
    (hstep : h.step label = some h') :
    h'.Core ∧ h'.WorkerAt h'.queue.worker ∧ (h'.Caught ↔ h.Handled label) := by
  by_cases hlabel : label = .worker
  · subst hlabel
    exact hcore.worker_step hworker hstep
  · obtain ⟨hcore', hkeeps⟩ := hcore.callers_step hstep hlabel
    refine ⟨hcore', hkeeps.workerAt hcore hworker, iff_of_true (hkeeps.caught hworker hcaught) ?_⟩
    cases label with
    | worker => exact absurd rfl hlabel
    | _ => trivial

/-- A caller that saw the timestamp it waits for saw its commands executed. -/
theorem History.Core.prefix_executed (hcore : h.Core) (hworker : h.WorkerAt h.queue.worker)
    {waits : List α} (hwaits : waits <+: h.covered)
    (hlength : waits.length ≤ h.queue.executedTimestamp) : waits <+: h.executed := by
  have htake : waits <+: h.enqueued.take h.queue.executedTimestamp := by
    refine prefix_of_prefix_length_le (hwaits.trans hcore.covered) (List.take_prefix ..) ?_
    rwa [length_take_of_le hcore.executed_le_length]
  refine htake.trans ?_
  cases hw : h.queue.worker with
  | start | waiting =>
    rw [hw] at hworker
    rw [hworker]
  | executing | exited =>
    rw [hw] at hworker
    rw [hworker.1]
  | done =>
    rw [hw] at hworker
    rw [hworker.1]
    exact take_prefix_take_left (Nat.le_succ _)

theorem Queue.checkExecuted_idle
    (hidle : (q.checkExecuted c current).callers c = .idle) : current ≤ q.executedTimestamp := by
  rw [checkExecuted] at hidle
  split at hidle
  · rw [setCaller_callers_self] at hidle
    cases hidle
  · next hle => exact Nat.le_of_not_lt hle

theorem Queue.checkExecuted_executedTimestamp (q : Queue α) (c current : Nat) :
    (q.checkExecuted c current).executedTimestamp = q.executedTimestamp := by
  rw [checkExecuted]
  split <;> rfl

/-- `clik_wait` returns when the commands that were dispatched before are executed. -/
theorem History.Core.wait_returns (hcore : h.Core) (hstep : h.step label = some h')
    (hcore' : h'.Core) (hworker' : h'.WorkerAt h'.queue.worker)
    (hlabel : label = .wait c ∨ label = .wake c) (hidle : h'.queue.callers c = .idle) :
    h'.waits c <+: h'.executed := by
  obtain ⟨q, hq, hh'⟩ := bind_eq_some_iff.1 hstep
  cases hh'
  unfold Queue.step at hq
  split at hq
  · cases hq
  rcases hlabel with rfl | rfl
  · dsimp only at hq
    split at hq
    · cases hq
      change update h.waits c h.covered c <+: _
      rw [update_self]
      refine hcore'.prefix_executed hworker' prefix_rfl ?_
      rw [Queue.checkExecuted_executedTimestamp, ← hcore.dispatched]
      exact Queue.checkExecuted_idle hidle
    · cases hq
  · dsimp only at hq
    split at hq
    · next current notified hc =>
      cases hq
      obtain ⟨hwaits, hlength⟩ := hcore.waits c current notified hc
      refine hcore'.prefix_executed hworker' hwaits ?_
      rw [Queue.checkExecuted_executedTimestamp, hlength]
      exact Queue.checkExecuted_idle hidle
    · cases hq

def History.Possible (h : History α) (label : Step α) : Prop := (h.step label).isSome

def History.next (h : History α) (label : Step α) : History α := (h.step label).getD h

theorem History.init_core : (init : History α).Core :=
  ⟨rfl, prefix_rfl, rfl, Nat.le_refl _, rfl, nofun⟩

/-- The queue works at every step of an interleaving exactly if nothing is dispatched during a pass of
the worker whose last command is behind it, and the worker sees no shutdown before it has executed
all commands. -/
theorem queue_works_iff (labels : List (Step α))
    (hruns : Along History.next History.Possible History.init labels) :
    Along History.next History.Works History.init labels ↔
      Along History.next History.Handled History.init labels := by
  refine along_congr (fun h => h.Core ∧ h.WorkerAt h.queue.worker ∧ h.Caught) ?_ ?_ hruns
    ⟨History.init_core, rfl, nofun, nofun⟩
  · rintro h label ⟨hcore, hworker, hcaught⟩ hpossible
    obtain ⟨h', hstep⟩ := isSome_iff_exists.1 hpossible
    obtain ⟨hcore', hworker', hiff⟩ := hcore.step hworker hcaught hstep
    rw [← hiff, ← hcore'.sound_iff hworker']
    constructor
    · rintro ⟨h'', hstep', hsound, -⟩
      cases hstep.symm.trans hstep'
      exact hsound
    · intro hsound
      exact ⟨h', hstep, hsound, fun c hlabel hidle =>
        hcore.wait_returns hstep hcore' hworker' hlabel hidle⟩
  · rintro h label ⟨hcore, hworker, hcaught⟩ - ⟨h', hstep, hsound, -⟩
    obtain ⟨hcore', hworker', -⟩ := hcore.step hworker hcaught hstep
    have hnext : h.next label = h' := by rw [History.next, hstep, getD_some]
    rw [hnext]
    exact ⟨hcore', hworker', (hcore'.sound_iff hworker').1 hsound⟩

/-- One command is executed while a caller waits for it, and the queue is released. -/
def oneCommand : List (Step Nat) :=
  [.enqueue 1, .dispatch, .wait 0, .worker, .worker, .worker, .wake 0, .release 0, .shutdown 0, .worker,
    .join 0]

theorem queue_works_oneCommand :
    Along History.next History.Possible History.init oneCommand ∧
      Along History.next History.Works History.init oneCommand := by
  have hruns : Along History.next History.Possible History.init oneCommand :=
    ⟨rfl, rfl, rfl, rfl, rfl, rfl, rfl, rfl, rfl, rfl, rfl, trivial⟩
  exact ⟨hruns, (queue_works_iff oneCommand hruns).2
    ⟨trivial, trivial, trivial, nofun, trivial, fun _ => rfl, trivial, trivial, trivial, fun _ => rfl,
      trivial, trivial⟩⟩

/-- A second command is dispatched while the worker executes the first. -/
def dispatchInPass : List (Step Nat) :=
  [.enqueue 1, .dispatch, .worker, .enqueue 2, .dispatch, .worker, .worker]

/-- The queue is released before the worker has seen its command. -/
def earlyShutdown : List (Step Nat) :=
  [.enqueue 1, .release 0, .shutdown 0, .worker, .join 0]

/-- The worker is blocked with a dispatched command that is not executed, and a release returns with
one. -/
theorem queue_loses_commands :
    (Along History.next History.Possible History.init dispatchInPass ∧
      ¬ Along History.next History.Works History.init dispatchInPass ∧
      (dispatchInPass.foldl History.next .init).queue.worker = .waiting false ∧
      (dispatchInPass.foldl History.next .init).covered = [1, 2] ∧
      (dispatchInPass.foldl History.next .init).executed = [1]) ∧
    (Along History.next History.Possible History.init earlyShutdown ∧
      ¬ Along History.next History.Works History.init earlyShutdown ∧
      (earlyShutdown.foldl History.next .init).queue.freed = true ∧
      (earlyShutdown.foldl History.next .init).enqueued = [1] ∧
      (earlyShutdown.foldl History.next .init).executed = []) := by
  refine ⟨⟨⟨rfl, rfl, rfl, rfl, rfl, rfl, rfl, trivial⟩, fun hworks => ?_, rfl, rfl, rfl⟩,
    ⟨⟨rfl, rfl, rfl, rfl, rfl, trivial⟩, fun hworks => ?_, rfl, rfl, rfl⟩⟩
  · obtain ⟨-, -, -, -, -, -, ⟨h', hstep, hsound, -⟩, -⟩ := hworks
    cases hstep
    cases hsound.blocked rfl
  · obtain ⟨-, -, -, ⟨h', hstep, hsound, -⟩, -⟩ := hworks
    cases hstep
    cases hsound.released rfl

end ConstructionKit.Clik
