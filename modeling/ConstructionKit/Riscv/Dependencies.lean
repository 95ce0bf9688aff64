import ConstructionKit.ProofKit.Runs
import ConstructionKit.Riscv.Queue
import Mathlib.Data.List.Nodup

/-! A dispatch is executed only if the dispatches that it waits for were successful. -/

namespace ConstructionKit.Riscv

open ProofKit List Function

/-! ### Flags -/

theorem or_and_self (x mask : UInt32) : (x ||| mask) &&& mask = mask := by
  apply UInt32.toBitVec_inj.1
  ext i hi
  simp only [UInt32.toBitVec_and, UInt32.toBitVec_or, BitVec.getElem_and, BitVec.getElem_or]
  cases mask.toBitVec[i] <;> simp

theorem or_and_of_disjoint (x : UInt32) {mask other : UInt32} (h : mask &&& other = 0) :
    (x ||| mask) &&& other = x &&& other := by
  apply UInt32.toBitVec_inj.1
  ext i hi
  have hbit : (mask &&& other).toBitVec[i] = false := by simp [h]
  simp only [UInt32.toBitVec_and, UInt32.toBitVec_or, BitVec.getElem_and, BitVec.getElem_or] at hbit ⊢
  rw [Bool.and_or_distrib_right, hbit, Bool.or_false]

variable (status : UInt32)

@[simp] theorem isSignalled_signal :
    Semaphore.isSignalled (Semaphore.signal status) = true := by
  simp [Semaphore.isSignalled, Semaphore.signal, or_and_self]

@[simp] theorem isSignalled_terminate :
    Semaphore.isSignalled (Semaphore.terminate status) = Semaphore.isSignalled status := by
  rw [Semaphore.isSignalled, Semaphore.terminate, or_and_of_disjoint _ (by decide)]
  rfl

@[simp] theorem isTerminated_signal :
    Semaphore.isTerminated (Semaphore.signal status) = Semaphore.isTerminated status := by
  rw [Semaphore.isTerminated, Semaphore.signal, or_and_of_disjoint _ (by decide)]
  rfl

@[simp] theorem isTerminated_terminate :
    Semaphore.isTerminated (Semaphore.terminate status) = true := by
  simp [Semaphore.isTerminated, Semaphore.terminate, or_and_self]

/-- The statuses after an update of each semaphore of a list. -/
def updateAll (f : UInt32 → UInt32) (sems : List Sem) (status : Sem → UInt32) : Sem → UInt32 :=
  sems.foldl (fun status sem => update status sem (f (status sem))) status

theorem foldl_status (f : UInt32 → UInt32) (sems : List Sem) (q : Queue) :
    sems.foldl (fun q sem => { q with status := update q.status sem (f (q.status sem)) }) q =
      { q with status := updateAll f sems q.status } := by
  induction sems generalizing q with
  | nil => rfl
  | cons sem sems ih => exact ih _

variable {f : UInt32 → UInt32} {p : UInt32 → Bool}

theorem updateAll_set (hset : ∀ x, p (f x) = true)
    (sems : List Sem) (status : Sem → UInt32) (sem : Sem) :
    p (updateAll f sems status sem) = (p (status sem) || decide (sem ∈ sems)) := by
  induction sems generalizing status with
  | nil => simp [updateAll]
  | cons other sems ih =>
    refine (ih _).trans ?_
    by_cases heq : sem = other
    · subst heq
      simp [hset]
    · simp [heq]

theorem updateAll_keep (hkeep : ∀ x, p (f x) = p x)
    (sems : List Sem) (status : Sem → UInt32) (sem : Sem) :
    p (updateAll f sems status sem) = p (status sem) := by
  induction sems generalizing status with
  | nil => rfl
  | cons other sems ih =>
    rw [updateAll, foldl_cons]
    refine (ih _).trans ?_
    by_cases heq : sem = other
    · subst heq
      rw [update_self, hkeep]
    · rw [update_of_ne heq]

namespace History

variable {h h' : History} {d : Dispatch} {result : Result}

theorem queue_finish (h : History) (d : Dispatch) (result : Result) :
    ∃ status fences, (h.finish d result).queue = { h.queue with status, fences, phase := .signalled } ∧
      status = updateAll Semaphore.signal d.signalSemaphores
        (if result = .success then h.queue.status
          else updateAll Semaphore.terminate d.signalSemaphores h.queue.status) := by
  unfold finish Queue.signalAll Queue.terminateAll
  simp only [foldl_status]
  split <;> split <;> exact ⟨_, _, rfl, rfl⟩

theorem isSignalled_finish (h : History) (d : Dispatch) (result : Result) (sem : Sem) :
    (h.finish d result).queue.isSignalled sem =
      (h.queue.isSignalled sem || decide (sem ∈ d.signalSemaphores)) := by
  obtain ⟨status, fences, hqueue, hstatus⟩ := queue_finish h d result
  rw [hqueue, Queue.isSignalled, hstatus, updateAll_set isSignalled_signal]
  split
  · rfl
  · rw [updateAll_keep isSignalled_terminate]
    rfl

theorem isTerminated_finish (h : History) (d : Dispatch) (result : Result) (sem : Sem) :
    (h.finish d result).queue.isTerminated sem =
      (h.queue.isTerminated sem ||
        (decide (result ≠ .success) && decide (sem ∈ d.signalSemaphores))) := by
  obtain ⟨status, fences, hqueue, hstatus⟩ := queue_finish h d result
  rw [hqueue, Queue.isTerminated, hstatus, updateAll_keep isTerminated_signal]
  split
  · rename_i hsuccess
    simp [hsuccess, Queue.isTerminated]
  · rename_i hfailure
    rw [updateAll_set isTerminated_terminate]
    simp [hfailure, Queue.isTerminated]

end History

/-! ### The invariant -/

/-- The dispatch whose callback is still to come. -/
def Phase.unnotified : Phase → List Dispatch
  | .removed d => [d]
  | .executed d _ => [d]
  | _ => []

/-- The dispatch whose callback has been called and whose semaphores have not. -/
def Phase.justNotified : Phase → List (Dispatch × Result)
  | .notified d result => [(d, result)]
  | _ => []

/-- The result of the dispatch that the loop is at. -/
def Phase.results : Phase → List (Dispatch × Result)
  | .executed d result => [(d, result)]
  | .notified d result => [(d, result)]
  | _ => []

/-- The call of the user function of a dispatch, if it has one. -/
def callbackOf (x : Dispatch × Result) : Option Callback :=
  x.1.userFunction.map fun userFunction => ⟨userFunction, x.1.commandBuffer, x.2, x.1.userData⟩

namespace History

variable {h h' : History} {d : Dispatch} {result : Result} {x : Dispatch × Result}

/-- The dispatches whose callback has been called. -/
def notified (h : History) : List (Dispatch × Result) := h.finished ++ h.queue.phase.justNotified

structure Inv (h : History) : Prop where
  tickets : h.dispatched.map (·.ticket) = List.range h.dispatched.length
  parts : (h.removed ++ h.queue.pending).Perm h.dispatched
  order : h.removed = h.notified.map (·.1) ++ h.queue.phase.unnotified
  callbacks : h.queue.callbacks = h.notified.filterMap callbackOf
  signalled : ∀ sem, h.queue.isSignalled sem = true →
    ∃ x ∈ h.finished, sem ∈ x.1.signalSemaphores
  propagated : ∀ x ∈ h.finished, ∀ sem ∈ x.1.signalSemaphores, h.queue.isSignalled sem = true ∧
    (x.2 ≠ .success → h.queue.isTerminated sem = true)
  succeeded : ∀ x ∈ h.finished ++ h.queue.phase.results, x.2 = .success → x ∈ h.executed
  ready : ∀ x ∈ h.executed, ∀ sem ∈ x.1.waitSemaphores,
    ∃ y ∈ h.finished, y.2 = .success ∧ sem ∈ y.1.signalSemaphores
  waited : ∀ d, h.queue.phase = .removed d → ∀ sem ∈ d.waitSemaphores,
    h.queue.isSignalled sem = true

theorem inv_create (commands : CommandBuffer → List Command) : (create commands).Inv where
  tickets := rfl
  parts := .refl _
  order := rfl
  callbacks := rfl
  signalled := fun _ h => absurd h (show ¬Semaphore.isSignalled 0 = true by decide)
  propagated := fun _ h => by cases h
  succeeded := fun _ h => by cases h
  ready := fun _ h => by cases h
  waited := fun _ h => by cases h

section

variable (hinv : h.Inv)
include hinv

theorem Inv.dispatch (hticket : d.ticket = h.dispatched.length) :
    Inv { h with queue := h.queue.dispatch d, dispatched := h.dispatched ++ [d] } := by
  have hqueue : ∃ fences, h.queue.dispatch d =
      { h.queue with fences, pending := h.queue.pending ++ [d] } := by
    unfold Queue.dispatch
    split <;> exact ⟨_, rfl⟩
  obtain ⟨fences, hqueue⟩ := hqueue
  rw [hqueue]
  exact
    { tickets := by
        simp only [map_append, map_singleton, length_append, length_singleton,
          range_succ, hinv.tickets, hticket]
      parts := by
        simp only [← append_assoc]
        exact hinv.parts.append_right [d]
      order := hinv.order
      callbacks := hinv.callbacks
      signalled := hinv.signalled
      propagated := hinv.propagated
      succeeded := hinv.succeeded
      ready := hinv.ready
      waited := hinv.waited }

/-- What the invariant says of the phase that the queue is in. -/
theorem Inv.at_phase {phase : Phase} (hphase : h.queue.phase = phase) :
    h.removed = (h.finished ++ phase.justNotified).map (·.1) ++ phase.unnotified ∧
      h.queue.callbacks = (h.finished ++ phase.justNotified).filterMap callbackOf ∧
      ∀ x ∈ h.finished ++ phase.results, x.2 = .success → x ∈ h.executed := by
  subst hphase
  exact ⟨hinv.order, hinv.callbacks, hinv.succeeded⟩

theorem Inv.take (htop : h.queue.phase = .top) (htake : h.take = some h') :
    h'.Inv := by
  obtain ⟨horder, hcallbacks, hsucceeded⟩ := hinv.at_phase htop
  unfold History.take at htake
  split at htake
  · cases htake
    exact
      { hinv with
        order := horder
        callbacks := hcallbacks
        succeeded := hsucceeded
        waited := fun d hd => by cases hd }
  · split at htake
    · cases htake
    · split at htake
      · cases htake
        exact hinv
      · rename_i d hfind
        cases htake
        obtain ⟨hready, front, back, hpending, hfront⟩ := find?_eq_some_iff_append.1 hfind
        have herase : h.queue.pending.eraseP (fun d => !h.queue.isWaiting d) = front ++ back := by
          rw [hpending, eraseP_append_right _ (by simpa using hfront),
            eraseP_cons_of_pos (p := fun d => !h.queue.isWaiting d) hready]
        exact
          { hinv with
            parts := by
              refine .trans ?_ hinv.parts
              rw [herase, hpending, append_assoc, singleton_append]
              exact perm_middle.symm.append_left _
            order := by simp [notified, Phase.justNotified, Phase.unnotified, horder]
            callbacks := hcallbacks
            succeeded := hsucceeded
            waited := by
              rintro d' ⟨⟩ sem hsem
              simp only [Queue.isWaiting, Bool.not_eq_true', any_eq_false]
                at hready
              exact Bool.not_eq_false _ ▸ hready sem hsem }

theorem Inv.execute (hphase : h.queue.phase = .removed d) (errors : Nat → Bool) :
    (h.execute d errors).Inv := by
  obtain ⟨horder, hcallbacks, hsucceeded⟩ := hinv.at_phase hphase
  simp only [Phase.results, append_nil] at hsucceeded
  unfold History.execute
  split
  · exact
      { hinv with
        order := horder
        callbacks := hcallbacks
        succeeded := by
          intro x hx hsuccess
          obtain hx | hx := mem_append.1 hx
          · exact hsucceeded x hx hsuccess
          · obtain rfl := mem_singleton.1 hx
            cases hsuccess
        waited := fun d hd => by cases hd }
  · rename_i hterminated
    exact
      { hinv with
        order := horder
        callbacks := hcallbacks
        succeeded := by
          intro x hx hsuccess
          obtain hx | hx := mem_append.1 hx
          · exact mem_append_left _ (hsucceeded x hx hsuccess)
          · exact mem_append_right _ hx
        ready := by
          intro x hx sem hsem
          obtain hx | hx := mem_append.1 hx
          · exact hinv.ready x hx sem hsem
          -- the semaphore is signalled and not terminated, so whoever signalled it was successful
          · obtain rfl := mem_singleton.1 hx
            obtain ⟨y, hy, hysem⟩ := hinv.signalled sem (hinv.waited d hphase sem hsem)
            refine ⟨y, hy, ?_, hysem⟩
            by_contra hfailure
            have hflag := (hinv.propagated y hy sem hysem).2 hfailure
            simp only [Queue.dispatchIsTerminated, any_eq_true, not_exists, not_and]
              at hterminated
            exact hterminated sem hsem hflag
        waited := fun d hd => by cases hd }

theorem Inv.notify (hphase : h.queue.phase = .executed d result) :
    Inv { h with queue := { h.queue.notifyUser d result with phase := .notified d result } } := by
  have hqueue : ∃ callbacks, h.queue.notifyUser d result = { h.queue with callbacks } ∧
      callbacks = h.queue.callbacks ++ [(d, result)].filterMap callbackOf := by
    unfold Queue.notifyUser
    split
    · rename_i hnone
      exact ⟨_, rfl, by simp [callbackOf, hnone]⟩
    · rename_i userFunction hsome
      exact ⟨_, rfl, by simp [callbackOf, hsome]⟩
  obtain ⟨callbacks, hqueue, hcallbacks⟩ := hqueue
  rw [hqueue]
  obtain ⟨horder, hbefore, hsucceeded⟩ := hinv.at_phase hphase
  simp only [Phase.justNotified, append_nil] at hbefore
  exact
    { hinv with
      order := by simpa [notified, Phase.justNotified, Phase.unnotified] using horder
      callbacks := by
        simp only [notified, Phase.justNotified, filterMap_append, hcallbacks, hbefore]
      succeeded := hsucceeded
      waited := fun d hd => by cases hd }

theorem Inv.finish (hphase : h.queue.phase = .notified d result) :
    (h.finish d result).Inv := by
  obtain ⟨horder, hcallbacks, hsucceeded⟩ := hinv.at_phase hphase
  simp only [Phase.unnotified, append_nil] at horder
  have hsignalled := isSignalled_finish h d result
  have hterminated := isTerminated_finish h d result
  obtain ⟨status, fences, hqueue, -⟩ := queue_finish h d result
  exact
    { hinv with
      parts := by
        rw [hqueue]
        exact hinv.parts
      order := by
        simp only [notified, hqueue, Phase.justNotified, Phase.unnotified, append_nil]
        exact horder
      callbacks := by
        simp only [notified, hqueue, Phase.justNotified, append_nil]
        exact hcallbacks
      signalled := by
        intro sem hsem
        rw [hsignalled, Bool.or_eq_true, decide_eq_true_eq] at hsem
        obtain hsem | hsem := hsem
        · obtain ⟨x, hx, hmem⟩ := hinv.signalled sem hsem
          exact ⟨x, mem_append_left _ hx, hmem⟩
        · exact ⟨(d, result), mem_append_right _ (mem_singleton.2 rfl), hsem⟩
      propagated := by
        intro x hx sem hsem
        rw [hsignalled, hterminated]
        obtain hx | hx := mem_append.1 hx
        · obtain ⟨hset, hfailed⟩ := hinv.propagated x hx sem hsem
          exact ⟨by rw [hset, Bool.true_or], fun hfailure => by rw [hfailed hfailure, Bool.true_or]⟩
        · obtain rfl := mem_singleton.1 hx
          exact ⟨by simp [hsem], fun hfailure => by simp [hsem, hfailure]⟩
      succeeded := by
        simp only [hqueue, Phase.results, append_nil]
        exact hsucceeded
      ready := by
        intro x hx sem hsem
        obtain ⟨y, hy, hyready⟩ := hinv.ready x hx sem hsem
        exact ⟨y, mem_append_left _ hy, hyready⟩
      waited := by
        intro d' hd'
        cases hd' }

theorem Inv.release (hphase : h.queue.phase = .signalled) :
    Inv { h with queue := { h.queue with running := false, phase := .top } } := by
  obtain ⟨horder, hcallbacks, hsucceeded⟩ := hinv.at_phase hphase
  exact
    { hinv with
      order := horder
      callbacks := hcallbacks
      succeeded := hsucceeded
      waited := fun d hd => by cases hd }

end

/-- What a step can do, with what the loop knows where it does it. -/
inductive Transition (h : History) : History → Prop
  | dispatch {d : Dispatch} (hticket : d.ticket = h.dispatched.length) :
      Transition h { h with queue := h.queue.dispatch d, dispatched := h.dispatched ++ [d] }
  | take {h' : History} (hphase : h.queue.phase = .top) (htake : h.take = some h') : Transition h h'
  | execute {d : Dispatch} (hphase : h.queue.phase = .removed d) (errors : Nat → Bool) :
      Transition h (h.execute d errors)
  | notify {d : Dispatch} {result : Result} (hphase : h.queue.phase = .executed d result) :
      Transition h
        { h with queue := { h.queue.notifyUser d result with phase := .notified d result } }
  | finish {d : Dispatch} {result : Result} (hphase : h.queue.phase = .notified d result) :
      Transition h (h.finish d result)
  | release (hphase : h.queue.phase = .signalled) :
      Transition h { h with queue := { h.queue with running := false, phase := .top } }
  | terminate : Transition h { h with queue := { h.queue with terminate := true } }

theorem transition_of_step {event : Event} (hstep : h.step event = some h') : Transition h h' := by
  cases event with
  | dispatch =>
    cases hstep
    exact .dispatch rfl
  | take =>
    simp only [step] at hstep
    split at hstep
    · exact .take ‹_› hstep
    · cases hstep
  | execute errors =>
    simp only [step] at hstep
    split at hstep
    · cases hstep
      exact .execute ‹_› errors
    · cases hstep
  | notify =>
    simp only [step] at hstep
    split at hstep
    · cases hstep
      exact .notify ‹_›
    · cases hstep
  | finish =>
    simp only [step] at hstep
    split at hstep
    · cases hstep
      exact .finish ‹_›
    · cases hstep
  | release =>
    simp only [step] at hstep
    split at hstep
    · cases hstep
      exact .release ‹_›
    · cases hstep
  | terminate =>
    cases hstep
    exact .terminate

theorem Inv.step (hinv : h.Inv) (hstep : Transition h h') : h'.Inv := by
  cases hstep with
  | dispatch hticket => exact hinv.dispatch hticket
  | take hphase htake => exact hinv.take hphase htake
  | execute hphase errors => exact hinv.execute hphase errors
  | notify hphase => exact hinv.notify hphase
  | finish hphase => exact hinv.finish hphase
  | release hphase => exact hinv.release hphase
  | terminate => exact { hinv with }

/-- Commands are only executed for a dispatch that is ready and not terminated. -/
theorem Inv.executed_step (hinv : h.Inv) (hstep : Transition h h')
    (hx : h'.executed = h.executed ++ [x]) : ∀ sem ∈ x.1.waitSemaphores,
      h.queue.isSignalled sem = true ∧ h.queue.isTerminated sem = false := by
  have hsame : h'.executed ≠ h.executed := by
    rw [hx]
    simp
  cases hstep with
  | take hphase htake =>
    refine absurd ?_ hsame
    unfold History.take at htake
    split at htake
    · cases htake
      rfl
    · split at htake
      · cases htake
      · split at htake <;>
        · cases htake
          rfl
  | @execute d hphase errors =>
    unfold History.execute at hx hsame
    split at hsame
    · exact absurd rfl hsame
    · rename_i hterminated
      rw [if_neg hterminated] at hx
      obtain rfl := singleton_inj.1 (append_cancel_left hx)
      intro sem hsem
      refine ⟨hinv.waited d hphase sem hsem, ?_⟩
      simp only [Queue.dispatchIsTerminated, any_eq_true, not_exists, not_and,
        Bool.not_eq_true] at hterminated
      exact hterminated sem hsem
  | _ => exact absurd rfl hsame

/-! ### Runs -/

/-- Every dispatch that was removed has got its callback once, but for the one that the loop is at.
A dispatch that is over has signalled its semaphores, and terminated them unless its commands were
executed with success.  What was executed had waited for dispatches that were successful. -/
structure Sound (h : History) : Prop where
  once : h.removed.Nodup ∧ h.removed = h.notified.map (·.1) ++ h.queue.phase.unnotified ∧
    h.queue.callbacks = h.notified.filterMap callbackOf
  propagated : ∀ x ∈ h.finished, ∀ sem ∈ x.1.signalSemaphores, h.queue.isSignalled sem = true ∧
    ((x.1, .success) ∉ h.executed → h.queue.isTerminated sem = true)
  ready : ∀ x ∈ h.executed, ∀ sem ∈ x.1.waitSemaphores,
    ∃ e ∈ h.dispatched, (e, .success) ∈ h.executed ∧ sem ∈ e.signalSemaphores

theorem Inv.mem_dispatched (hinv : h.Inv) (hx : x ∈ h.finished) : x.1 ∈ h.dispatched := by
  apply hinv.parts.subset
  apply mem_append_left
  rw [hinv.order]
  apply mem_append_left
  exact mem_map_of_mem (mem_append_left _ hx)

theorem Inv.sound (hinv : h.Inv) : h.Sound where
  once := by
    refine ⟨?_, hinv.order, hinv.callbacks⟩
    have hnodup : h.dispatched.Nodup := List.Nodup.of_map _ (hinv.tickets ▸ nodup_range)
    exact (nodup_append.1 (hinv.parts.nodup_iff.2 hnodup)).1
  propagated := by
    intro x hx sem hsem
    obtain ⟨hsignalled, hterminated⟩ := hinv.propagated x hx sem hsem
    refine ⟨hsignalled, fun hnot => hterminated fun hsuccess => hnot ?_⟩
    have hexecuted := hinv.succeeded x (mem_append_left _ hx) hsuccess
    rwa [← hsuccess]
  ready := by
    intro x hx sem hsem
    obtain ⟨y, hy, hsuccess, hysem⟩ := hinv.ready x hx sem hsem
    refine ⟨y.1, hinv.mem_dispatched hy, ?_, hysem⟩
    have hexecuted := hinv.succeeded y (mem_append_left _ hy) hsuccess
    rwa [← hsuccess]

/-- One dispatch waits for a semaphore that another signals. -/
def WaitsFor (h : History) (d e : Dispatch) : Prop :=
  e ∈ h.dispatched ∧ ∃ sem ∈ d.waitSemaphores, sem ∈ e.signalSemaphores

/-- Every semaphore is signalled by one dispatch at most. -/
def Exclusive (h : History) : Prop :=
  ∀ d ∈ h.dispatched, ∀ e ∈ h.dispatched, ∀ sem ∈ d.signalSemaphores, sem ∈ e.signalSemaphores → d = e

theorem Sound.transGen (hsound : h.Sound) (hexclusive : h.Exclusive)
    (hx : x ∈ h.executed) {e : Dispatch} (hwaits : Relation.TransGen h.WaitsFor x.1 e) :
    (e, .success) ∈ h.executed := by
  have hone : ∀ {x : Dispatch × Result} {e : Dispatch}, x ∈ h.executed → h.WaitsFor x.1 e →
      (e, .success) ∈ h.executed := by
    rintro x e hx ⟨he, sem, hsem, hesem⟩
    obtain ⟨e', he', hexecuted, hsem'⟩ := hsound.ready x hx sem hsem
    rwa [hexclusive e he e' he' sem hesem hsem']
  induction hwaits with
  | single hw => exact hone hx hw
  | tail _ hw ih => exact hone ih hw

end History

/-- In every run a dispatch is executed only with all its semaphores signalled and none of them
terminated, failures are passed on, callbacks are called once, and where every semaphore has one
dispatch that signals it, everything that an executed dispatch waits for was executed with success. -/
theorem dispatches_sound {commands : CommandBuffer → List Command} {h : History}
    (hrun : Runs History.step (fun _ _ => True) (.create commands) h) :
    h.Sound ∧
      (∀ event h', h.step event = some h' → ∀ x, h'.executed = h.executed ++ [x] →
        ∀ sem ∈ x.1.waitSemaphores,
          h.queue.isSignalled sem = true ∧ h.queue.isTerminated sem = false) ∧
      (h.Exclusive → ∀ x ∈ h.executed, ∀ e, Relation.TransGen h.WaitsFor x.1 e →
        (e, .success) ∈ h.executed) := by
  have hinv : h.Inv := by
    apply hrun.invariant
    · intro s t event _ hstep hs
      exact hs.step (History.transition_of_step hstep)
    · exact History.inv_create commands
  refine ⟨hinv.sound, ?_, fun hexclusive x hx e he => hinv.sound.transGen hexclusive hx he⟩
  intro event h' hstep x hx
  exact hinv.executed_step (History.transition_of_step hstep) hx

/-- The second dispatch waits for the first one. -/
def twoDispatches : List Event :=
  [.dispatch 0 none [] [7] (some 1) 2, .dispatch 1 none [7] [] none 0, .take,
    .execute fun _ => false, .notify, .finish, .release, .take, .execute fun _ => false]

theorem dispatches_sound_twoDispatches : ∃ h : History,
    h.executed.map (fun x => (x.1.ticket, x.2)) = [(0, .success), (1, .success)] ∧ h.Sound := by
  have hrun := Runs.follow_getD History.step (fun _ _ => True) (.create fun _ => [.writeBuffer])
    twoDispatches (.create fun _ => []) rfl
  exact ⟨_, rfl, (dispatches_sound hrun).1⟩

/-- Two dispatches signal the semaphore that a third one waits for. -/
def twoSignals : List Event :=
  [.dispatch 0 none [] [7] none 0, .dispatch 1 none [7] [] none 0, .dispatch 2 none [] [7] none 0,
    .take, .execute fun _ => false, .notify, .finish, .release, .take, .execute fun _ => false]

/-- With the signal of one of them the third one is executed, before the other one. -/
theorem executed_before_signal : ∃ h : History,
    Runs History.step (fun _ _ => True) (.create fun _ => [.writeBuffer]) h ∧
      ∃ x ∈ h.executed, ∃ e, Relation.TransGen h.WaitsFor x.1 e ∧ (e, .success) ∉ h.executed := by
  have hrun := Runs.follow_getD History.step (fun _ _ => True) (.create fun _ => [.writeBuffer])
    twoSignals (.create fun _ => []) rfl
  refine ⟨_, hrun, (⟨1, 1, none, [7], [], none, 0⟩, .success), by decide +kernel,
    ⟨2, 2, none, [], [7], none, 0⟩, .single ⟨by decide +kernel, 7, by decide, by decide⟩,
    by decide +kernel⟩

end ConstructionKit.Riscv
