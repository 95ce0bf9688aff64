import ConstructionKit.ProofKit.Runs
import ConstructionKit.Queue.CommandQueue
import ConstructionKit.ProofKit.Unique

/-! What every step of the queues keeps, and an induction rule for `flush`. -/

namespace ConstructionKit.Queue

open ProofKit List Function

variable {κ : Type}

def CommandQueue.all (queue : CommandQueue κ) : List (Dispatch κ) := queue.pending ++ queue.running

section

variable [DecidableEq κ] {s t : System κ} {q q' : κ} {P : System κ → Prop} {inFlush : List κ}
  {fuel : Nat}

@[simp] theorem setQueue_queues_self (queue : CommandQueue κ) :
    (s.setQueue q queue).queues q = queue := update_self ..

theorem setQueue_queues_of_ne (h : q' ≠ q) (queue : CommandQueue κ) :
    (s.setQueue q queue).queues q' = s.queues q' := update_of_ne h ..

/-! ### Flushing -/

theorem dispatch_queues_of_ne (h : q' ≠ q) (commandBuffers : List Nat) :
    (s.dispatch q commandBuffers).queues q' = s.queues q' := setQueue_queues_of_ne h _

theorem foldl_flushOther {flush : κ → System κ → System κ}
    (hflush : ∀ q s, P s → P (flush q s)) (events : List (Event κ)) (hs : P s) :
    P (events.foldl (fun s event => s.flushOther q flush event) s) := by
  induction events generalizing s with
  | nil => exact hs
  | cons event events ih =>
    apply ih
    show P (s.flushOther q flush event)
    unfold System.flushOther
    split
    · exact hs
    · split
      · exact hflush _ s hs
      · exact hs

/-- A queue with `in_flush` set is left alone. -/
theorem flushFrom_queues_of_mem (h : q' ∈ inFlush) :
    (flushFrom fuel inFlush q s).queues q' = s.queues q' := by
  induction fuel generalizing inFlush q s with
  | zero => rfl
  | succ fuel ih =>
    rw [flushFrom]
    split
    · rfl
    · rename_i hq
      have hne : q' ≠ q := fun heq => hq (heq ▸ h)
      rw [dispatch_queues_of_ne hne]
      refine foldl_flushOther (P := fun t => t.queues q' = s.queues q') ?_ _ ?_
      · exact fun q'' t ht => (ih (mem_cons_of_mem _ h)).trans ht
      · exact setQueue_queues_of_ne hne _

/-- What cleaning up and dispatching the ready command buffers of a queue keep, flushing keeps. -/
theorem flushFrom_induct (hcleanup : ∀ s q, P s → P (s.cleanupCompletedCommandBuffers q))
    (hdispatch : ∀ s q, P s → P (s.dispatch q ((s.queues q).ready.map (·.signalSemaphore))))
    (hs : P s) : P (flushFrom fuel inFlush q s) := by
  induction fuel generalizing inFlush q s with
  | zero => exact hs
  | succ fuel ih =>
    rw [flushFrom]
    split
    · exact hs
    · -- the nested calls keep the property, and do not touch `q`
      obtain ⟨hP, hqueue⟩ := foldl_flushOther (q := q)
        (P := fun t => P t ∧ t.queues q = (s.cleanupCompletedCommandBuffers q).queues q)
        (fun q' t ht => ⟨ih ht.1, (flushFrom_queues_of_mem (mem_cons_self ..)).trans ht.2⟩)
        (((s.cleanupCompletedCommandBuffers q).queues q).ready.flatMap (·.waitEvents))
        ⟨hcleanup s q hs, rfl⟩
      have := hdispatch _ q hP
      rwa [hqueue] at this

/-- One nested call for each queue is enough: more fuel changes nothing. -/
theorem flushFrom_succ [Fintype κ]
    (h : (Finset.univ.filter (· ∉ inFlush)).card ≤ fuel) (q : κ) (s : System κ) :
    flushFrom (fuel + 1) inFlush q s = flushFrom fuel inFlush q s := by
  induction fuel generalizing inFlush q s with
  | zero =>
    have hq : q ∈ inFlush := by
      by_contra hq
      have : q ∈ Finset.univ.filter (· ∉ inFlush) := by simp [hq]
      rw [Finset.card_eq_zero.1 (Nat.le_zero.1 h)] at this
      exact Finset.notMem_empty _ this
    simp [flushFrom, hq]
  | succ fuel ih =>
    by_cases hq : q ∈ inFlush
    · rw [flushFrom, if_pos hq, flushFrom, if_pos hq]
    · have hcard : (Finset.univ.filter (· ∉ q :: inFlush)).card ≤ fuel := by
        refine Nat.le_of_lt_succ (lt_of_lt_of_le (Finset.card_lt_card ?_) h)
        refine Finset.ssubset_iff_of_subset (fun x hx => ?_) |>.2 ⟨q, by simp [hq], by simp⟩
        simp only [Finset.mem_filter, Finset.mem_univ, true_and, mem_cons, not_or] at hx ⊢
        exact hx.2
      have hflush : flushFrom (fuel + 1) (q :: inFlush) = flushFrom fuel (q :: inFlush) :=
        funext₂ fun q' s => ih hcard q' s
      rw [flushFrom, if_neg hq, hflush]
      conv_rhs => rw [flushFrom, if_neg hq]

theorem flushFrom_two_queues : flushFrom 3 [] true (System.init : System Bool) =
    flushFrom 2 [] true System.init :=
  flushFrom_succ (by decide) ..

end

/-! ### The invariant of a queue -/

/-- What holds of a queue in a state.  The callbacks of incomplete user events are there for every
pending dispatch that waits on one. -/
structure QueueSound (s : System κ) (q : κ) (queue : CommandQueue κ) : Prop where
  bound : ∀ d ∈ queue.all, d.signalSemaphore < s.next
  nodup : (queue.all.map (·.signalSemaphore)).Nodup
  recorded : ∀ d ∈ queue.pending, d.commands ≠ []
  settled : ∀ d ∈ queue.running, d.waitEvents = []
  complete : ∀ d ∈ queue.running, d.commands = [] → d.signalSemaphore ∈ s.signalled
  callbacks : ∀ d ∈ queue.pending, ∀ u, .user u ∈ d.waitEvents →
    s.status (.user u) = .incomplete → (u, q) ∈ s.callbacks

def Sound (s : System κ) : Prop := ∀ q, QueueSound s q (s.queues q)

variable {queue : CommandQueue κ} {waitList : List (Event κ)} {s t : System κ} {u : Nat} {q : κ}

theorem QueueSound.mono (h : QueueSound s q queue)
    (hnext : s.next ≤ t.next) (hsignalled : s.signalled ⊆ t.signalled)
    (hcallbacks : ∀ u, t.status (.user u) = .incomplete →
      s.status (.user u) = .incomplete ∧ ((u, q) ∈ s.callbacks → (u, q) ∈ t.callbacks)) :
    QueueSound t q queue where
  bound d hd := (h.bound d hd).trans_le hnext
  nodup := h.nodup
  recorded := h.recorded
  settled := h.settled
  complete d hd hc := hsignalled (h.complete d hd hc)
  callbacks d hd u hu hstatus :=
    (hcallbacks u hstatus).2 (h.callbacks d hd u hu (hcallbacks u hstatus).1)

theorem sound_init : Sound (System.init : System κ) := fun q =>
  ⟨by simp [System.init, CommandQueue.all], by simp [System.init, CommandQueue.all],
    by simp [System.init], by simp [System.init], by simp [System.init], by simp [System.init]⟩

/-- `cleanupLoop` takes completed dispatches from the front, and their names out of the wait lists,
each once. -/
theorem cleanupLoop_eq (running pending : List (Dispatch κ)) : ∃ done rest,
    running = done ++ rest ∧ (∀ d ∈ done, d.commands = []) ∧
    cleanupLoop running pending = ⟨pending.map fun d =>
      { d with waitSemaphores := d.waitSemaphores.diff (done.map (·.signalSemaphore)) }, rest⟩ := by
  induction running generalizing pending with
  | nil => exact ⟨[], [], rfl, by simp, by simp [cleanupLoop]⟩
  | cons d running ih =>
    rw [cleanupLoop]
    split
    · rename_i hempty
      obtain ⟨done, rest, hrunning, hdone, heq⟩ := ih (pending.map fun d' =>
        { d' with waitSemaphores := d'.waitSemaphores.erase d.signalSemaphore })
      refine ⟨d :: done, rest, by rw [hrunning, cons_append], ?_, ?_⟩
      · simpa [hempty] using hdone
      · simp only [heq, map_map, comp_def, map_cons, diff_cons]
    · exact ⟨[], d :: running, rfl, by simp, by simp⟩

section Queues

variable {pending running : List (Dispatch κ)} {d : Dispatch κ}

/-- No name is a new one. -/
theorem QueueSound.bound_of_names (h : QueueSound s q queue) {dispatches : List (Dispatch κ)}
    (hnames : dispatches.map (·.signalSemaphore) ⊆ queue.all.map (·.signalSemaphore)) :
    ∀ d ∈ dispatches, d.signalSemaphore < s.next := by
  intro d hd
  obtain ⟨d', hd', heq⟩ := mem_map.1 (hnames (mem_map_of_mem hd))
  exact heq ▸ h.bound d' hd'

theorem QueueSound.map_pending (h : QueueSound s q ⟨pending, running⟩)
    (f : Dispatch κ → Dispatch κ) (hname : ∀ d, (f d).signalSemaphore = d.signalSemaphore)
    (hcommands : ∀ d, d.commands ≠ [] → (f d).commands ≠ [])
    (hcallbacks : ∀ d ∈ pending, ∀ u, .user u ∈ (f d).waitEvents →
      s.status (.user u) = .incomplete → (u, q) ∈ s.callbacks) :
    QueueSound s q ⟨pending.map f, running⟩ := by
  have hnames : ((CommandQueue.mk (pending.map f) running).all.map (·.signalSemaphore)) =
      ((CommandQueue.mk pending running).all.map (·.signalSemaphore)) := by
    simp [CommandQueue.all, hname]
  refine ⟨h.bound_of_names (List.Perm.of_eq hnames).subset, hnames ▸ h.nodup, ?_, h.settled, h.complete, ?_⟩
  · intro d hd
    obtain ⟨d', hd', rfl⟩ := mem_map.1 hd
    exact hcommands d' (h.recorded d' hd')
  · intro d hd
    obtain ⟨d', hd', rfl⟩ := mem_map.1 hd
    exact hcallbacks d' hd'

theorem QueueSound.tail (h : QueueSound s q ⟨pending, d :: running⟩) :
    QueueSound s q ⟨pending, running⟩ :=
  have hnames := ((sublist_cons_self d running).append_left pending).map (·.signalSemaphore)
  { bound := h.bound_of_names hnames.subset
    nodup := h.nodup.sublist hnames
    recorded := h.recorded
    settled d' hd' := h.settled d' (mem_cons_of_mem _ hd')
    complete d' hd' := h.complete d' (mem_cons_of_mem _ hd')
    callbacks := h.callbacks }

theorem QueueSound.cleanup (h : QueueSound s q ⟨pending, running⟩) :
    QueueSound s q (cleanupLoop running pending) := by
  induction running generalizing pending with
  | nil => exact h
  | cons d running ih =>
    rw [cleanupLoop]
    split
    · refine ih (h.tail.map_pending _ (fun _ => rfl) (fun _ => id) ?_)
      exact h.callbacks
    · exact h

theorem QueueSound.dispatch (h : QueueSound s q ⟨pending, running⟩) (p : Dispatch κ → Bool) :
    QueueSound s q ⟨pending.filter (!p ·), running ++ (pending.filter p).map
      fun d => { d with waitEvents := [] }⟩ := by
  have hperm : ((CommandQueue.mk (pending.filter (!p ·)) (running ++ (pending.filter p).map
      fun d => { d with waitEvents := [] })).all.map (·.signalSemaphore)).Perm
        ((CommandQueue.mk pending running).all.map (·.signalSemaphore)) := by
    simp only [CommandQueue.all, map_append, map_map, comp_def]
    refine (perm_append_comm.append_left _).trans ?_
    rw [← append_assoc, ← map_append]
    refine List.Perm.append_right _ (List.Perm.map _ ?_)
    exact perm_append_comm.trans (filter_append_perm p pending)
  refine ⟨h.bound_of_names hperm.subset, hperm.nodup_iff.2 h.nodup, ?_, ?_, ?_, ?_⟩
  · exact fun d hd => h.recorded d (mem_of_mem_filter hd)
  · intro d hd
    rcases mem_append.1 hd with hold | hnew
    · exact h.settled d hold
    · obtain ⟨d', -, rfl⟩ := mem_map.1 hnew
      rfl
  · intro d hd hempty
    rcases mem_append.1 hd with hold | hnew
    · exact h.complete d hold hempty
    · obtain ⟨d', hd', rfl⟩ := mem_map.1 hnew
      exact absurd hempty (h.recorded d' (mem_of_mem_filter hd'))
  · exact fun d hd => h.callbacks d (mem_of_mem_filter hd)

section

variable (h : QueueSound s q queue)
include h

theorem QueueSound.filter_pending
    (p : Dispatch κ → Bool) : QueueSound s q ⟨queue.pending.filter p, queue.running⟩ :=
  have hnames := (filter_sublist.append_right queue.running).map (·.signalSemaphore)
  { bound := h.bound_of_names hnames.subset
    nodup := h.nodup.sublist hnames
    recorded d hd := h.recorded d (mem_of_mem_filter hd)
    settled := h.settled
    complete := h.complete
    callbacks d hd := h.callbacks d (mem_of_mem_filter hd) }

theorem QueueSound.eq_of_name {d' : Dispatch κ} (hd : d ∈ queue.all) (hd' : d' ∈ queue.all)
    (heq : d.signalSemaphore = d'.signalSemaphore) : d = d' :=
  inj_on_of_nodup_map h.nodup hd hd' heq

theorem QueueSound.mem_ready (hd : d ∈ queue.pending)
    (hname : d.signalSemaphore ∈ queue.ready.map (·.signalSemaphore)) : d ∈ queue.ready := by
  obtain ⟨d', hd', heq⟩ := mem_map.1 hname
  have hmem := mem_append_left queue.running (mem_of_mem_filter hd')
  exact h.eq_of_name (mem_append_left _ hd) hmem heq.symm ▸ hd'

theorem QueueSound.setRunning (hsettled : d.waitEvents = [])
    (hcomplete : d.commands = [] → d.signalSemaphore ∈ s.signalled) :
    QueueSound s q ⟨queue.pending, queue.running.map fun d' =>
      if d'.signalSemaphore = d.signalSemaphore then d else d'⟩ := by
  have hnames : ((CommandQueue.mk queue.pending (queue.running.map fun d' =>
      if d'.signalSemaphore = d.signalSemaphore then d else d')).all.map (·.signalSemaphore)) =
        queue.all.map (·.signalSemaphore) := by
    simp only [CommandQueue.all, map_append, map_map]
    congr 1
    refine map_congr_left fun d' _ => ?_
    simp only [comp_apply]
    split
    · exact Eq.symm ‹_›
    · rfl
  refine ⟨h.bound_of_names (List.Perm.of_eq hnames).subset, hnames ▸ h.nodup, h.recorded, ?_, ?_, h.callbacks⟩
  · intro d' hd'
    obtain ⟨d'', hd'', rfl⟩ := mem_map.1 hd'
    split
    · exact hsettled
    · exact h.settled d'' hd''
  · intro d' hd' hempty
    obtain ⟨d'', hd'', rfl⟩ := mem_map.1 hd'
    split at hempty
    · rw [if_pos ‹_›]
      exact hcomplete hempty
    · rw [if_neg ‹_›]
      exact h.complete d'' hd'' hempty

end

end Queues

theorem mem_userCallbacks (hu : .user u ∈ waitList) (hstatus : s.status (.user u) ≠ .complete) :
    (u, q) ∈ s.userCallbacks q waitList :=
  mem_filterMap.2 ⟨.user u, hu, by simp [hstatus]⟩

section Steps

variable [DecidableEq κ] {q' : κ}

theorem Sound.setQueue (h : Sound s) (hqueue : QueueSound s q queue) :
    Sound (s.setQueue q queue) := by
  intro q'
  by_cases heq : q' = q
  · subst heq
    rw [setQueue_queues_self]
    exact hqueue.mono le_rfl (List.Subset.refl _) fun u hu => ⟨hu, id⟩
  · rw [setQueue_queues_of_ne heq]
    exact (h q').mono le_rfl (List.Subset.refl _) fun u hu => ⟨hu, id⟩

theorem Sound.cleanup (h : Sound s) : Sound (s.cleanupCompletedCommandBuffers q) :=
  h.setQueue (h q).cleanup

theorem Sound.dispatch (h : Sound s) (commandBuffers : List Nat) :
    Sound (s.dispatch q commandBuffers) := by
  refine h.setQueue ?_
  have := (h q).dispatch fun d => decide (d.signalSemaphore ∈ commandBuffers)
  simpa using this

theorem Sound.flush [Fintype κ] (h : Sound s) : Sound (s.flush q) :=
  flushFrom_induct (fun _ _ h => h.cleanup) (fun _ _ h => h.dispatch _) h

/-! ### Enqueuing -/

theorem record_queues_of_ne (hne : q' ≠ q) (waitList : List (Event κ))
    (commandBuffer : Nat) (pending : List (Dispatch κ)) :
    (s.record q waitList commandBuffer pending).queues q' = s.queues q' :=
  setQueue_queues_of_ne hne _

theorem record_queues_self (waitList : List (Event κ)) (commandBuffer : Nat)
    (pending : List (Dispatch κ)) :
    (s.record q waitList commandBuffer pending).queues q = ⟨pending.map fun d =>
      if d.signalSemaphore = commandBuffer then s.register waitList (.command q s.next) d else d,
      (s.queues q).running⟩ :=
  setQueue_queues_self _

omit [DecidableEq κ] in
theorem record_new_pending (h : Sound s) (waitList : List (Event κ)) (waitSemaphores : List Nat)
    (isUser : Bool) :
    (((s.queues q).pending ++ [s.newDispatch waitSemaphores isUser]).map fun d =>
      if d.signalSemaphore = s.next then s.register waitList (.command q s.next) d else d) =
    (s.queues q).pending ++
      [s.register waitList (.command q s.next) (s.newDispatch waitSemaphores isUser)] := by
  have hold : ((s.queues q).pending.map fun d =>
      if d.signalSemaphore = s.next then s.register waitList (.command q s.next) d else d) =
      (s.queues q).pending := by
    refine (map_congr_left fun d hd => ?_).trans (map_id _)
    exact if_neg (Nat.ne_of_lt ((h q).bound d (mem_append_left _ hd)))
  rw [map_append, hold]
  simp [System.newDispatch]

theorem Sound.record (h : Sound s) {commandBuffer : Nat} {pending : List (Dispatch κ)}
    (hqueue : QueueSound (s.record q waitList commandBuffer pending) q
      ((s.record q waitList commandBuffer pending).queues q)) :
    Sound (s.record q waitList commandBuffer pending) := by
  intro q'
  by_cases heq : q' = q
  · exact heq ▸ hqueue
  · rw [record_queues_of_ne heq]
    exact (h q').mono (Nat.le_succ _) (List.Subset.refl _)
      fun u hu => ⟨hu, mem_append_left _⟩

theorem Sound.append (h : Sound s) (waitList : List (Event κ)) (commandBuffer : Nat) :
    Sound (s.record q waitList commandBuffer (s.queues q).pending) := by
  refine h.record ?_
  rw [record_queues_self]
  have hq : QueueSound (s.record q waitList commandBuffer (s.queues q).pending) q (s.queues q) :=
    (h q).mono (Nat.le_succ _) (List.Subset.refl _) fun u hu => ⟨hu, mem_append_left _⟩
  refine hq.map_pending _ ?_ ?_ ?_
  · intro d
    split <;> rfl
  · intro d hd
    split
    · simp [System.register]
    · exact hd
  · intro d hd u hu hstatus
    split at hu
    · rcases mem_append.1 hu with hold | hnew
      · exact hq.callbacks d hd u hold hstatus
      · have hstatus' : s.status (.user u) = .incomplete := hstatus
        exact mem_append_right _
          (mem_userCallbacks (mem_of_mem_filter hnew) (by simp [hstatus']))
    · exact hq.callbacks d hd u hu hstatus

theorem Sound.create (h : Sound s) (waitList : List (Event κ)) (waitSemaphores : List Nat)
    (isUser : Bool) : Sound (s.record q waitList s.next
      ((s.queues q).pending ++ [s.newDispatch waitSemaphores isUser])) := by
  refine h.record ?_
  rw [record_queues_self, record_new_pending h]
  have hq : QueueSound (s.record q waitList s.next ((s.queues q).pending ++
      [s.newDispatch waitSemaphores isUser])) q (s.queues q) :=
    (h q).mono (Nat.le_succ _) (List.Subset.refl _) fun u hu => ⟨hu, mem_append_left _⟩
  have hall : ∀ d, d ∈ (CommandQueue.mk ((s.queues q).pending ++ [s.register waitList
      (.command q s.next) (s.newDispatch waitSemaphores isUser)]) (s.queues q).running).all ↔
      d ∈ (s.queues q).all ∨ d = s.register waitList (.command q s.next)
        (s.newDispatch waitSemaphores isUser) := by
    intro d
    simp only [CommandQueue.all, mem_append, mem_singleton]
    tauto
  refine ⟨?_, ?_, ?_, hq.settled, hq.complete, ?_⟩
  · intro d hd
    rcases (hall d).1 hd with hold | rfl
    · exact hq.bound d hold
    · exact Nat.lt_succ_self _
  · have hfresh : s.next ∉ (s.queues q).all.map (·.signalSemaphore) := by
      intro hmem
      obtain ⟨d, hd, heq⟩ := mem_map.1 hmem
      exact absurd heq (Nat.ne_of_lt ((h q).bound d hd))
    have hperm : ((CommandQueue.mk ((s.queues q).pending ++ [s.register waitList
        (.command q s.next) (s.newDispatch waitSemaphores isUser)]) (s.queues q).running).all.map
          (·.signalSemaphore)).Perm (s.next :: (s.queues q).all.map (·.signalSemaphore)) := by
      simp only [CommandQueue.all, append_assoc, map_append]
      exact perm_middle
    exact hperm.nodup_iff.2 (nodup_cons.2 ⟨hfresh, hq.nodup⟩)
  · intro d hd
    rcases mem_append.1 hd with hold | hnew
    · exact hq.recorded d hold
    · rw [mem_singleton.1 hnew]
      simp [System.register]
  · intro d hd u hu hstatus
    rcases mem_append.1 hd with hold | hnew
    · exact hq.callbacks d hold u hu hstatus
    · rw [mem_singleton.1 hnew] at hu
      have hstatus' : s.status (.user u) = .incomplete := hstatus
      have hmem : .user u ∈ waitList.filter fun e => s.status e ≠ .complete := hu
      exact mem_append_right _
        (mem_userCallbacks (mem_of_mem_filter hmem) (by simp [hstatus']))

theorem mem_crossQueues :
    q' ∈ crossQueues q waitList ↔ q' ≠ q ∧ ∃ id, .command q' id ∈ waitList := by
  rw [crossQueues, mem_eraseDups, mem_filterMap]
  constructor
  · rintro ⟨event, hmem, heq⟩
    cases event with
    | user => cases heq
    | command q'' id =>
      simp only [ite_not, Option.ite_none_left_eq_some, Option.some.injEq] at heq
      exact ⟨heq.2 ▸ heq.1, id, heq.2 ▸ hmem⟩
  · rintro ⟨hne, id, hmem⟩
    exact ⟨_, hmem, by simp [hne]⟩

/-- A queue without pending dispatches has no dependent ones of its own. -/
theorem dependentDispatches_of_pending_nil
    (hpending : (s.queues q).pending = []) (hcross : crossQueues q waitList = []) :
    s.dependentDispatches q waitList = [] := by
  simp only [System.dependentDispatches, hpending, getLast?_nil, Option.toList_none,
    map_nil, nil_append, flatMap_eq_nil_iff]
  intro event hmem
  cases event with
  | user => rfl
  | command q' id =>
    have hq : q' = q := by
      by_contra hne
      have := mem_crossQueues.2 ⟨hne, id, hmem⟩
      rw [hcross] at this
      cases this
    simp [hq, CommandQueue.signallers, hpending]

/-- A command goes to the last pending command buffer, or to a new one. -/
theorem getCommandBufferPending_cases (s : System κ) (q : κ) (waitList : List (Event κ)) :
    (∃ last, (s.queues q).pending.getLast? = some last ∧
      s.canAppendLastDispatch q waitList = true ∧
      s.getCommandBufferPending q waitList = (last.signalSemaphore, (s.queues q).pending)) ∨
    s.getCommandBufferPending q waitList = (s.next, (s.queues q).pending ++ [s.newDispatch
      ((s.dependentSemaphores q waitList ((s.dependentDispatches q waitList).destutter
        (· ≠ ·))).destutter (· ≠ ·)) false]) := by
  simp only [System.getCommandBufferPending]
  split
  · rename_i commandBuffer q' hdependents
    split
    · rename_i hcan
      left
      cases hlast : (s.queues q).pending.getLast? with
      | some last =>
        have hmem : (last.signalSemaphore, q) ∈
            (s.dependentDispatches q waitList).destutter (· ≠ ·) := by
          rw [mem_destutter_ne, System.dependentDispatches, hlast]
          simp
        rw [hdependents, mem_singleton] at hmem
        cases hmem
        exact ⟨last, rfl, hcan, rfl⟩
      | none =>
        have hcross : crossQueues q waitList = [] := by
          simp only [System.canAppendLastDispatch, Bool.and_eq_true, List.isEmpty_iff] at hcan
          exact hcan.2
        rw [dependentDispatches_of_pending_nil (getLast?_eq_none_iff.1 hlast) hcross]
          at hdependents
        cases hdependents
    · exact .inr rfl
  · exact .inr rfl

theorem Sound.enqueue (h : Sound s) (waitList : List (Event κ)) : Sound (s.enqueue q waitList) := by
  unfold System.enqueue
  rcases getCommandBufferPending_cases s q waitList with ⟨last, -, -, heq⟩ | heq
  · rw [heq]
    exact h.append waitList _
  · rw [heq]
    exact h.create waitList _ _

/-! ### User events -/

theorem Sound.dispatchPending [Fintype κ] (h : Sound s) (u : Nat) :
    Sound (s.dispatchPending q u) := by
  refine Sound.flush (h.setQueue ((h q).map_pending _ (fun _ => rfl) (fun _ => id) ?_))
  exact fun d hd u' hu' => (h q).callbacks d hd u' (mem_of_mem_erase hu')

variable {status : Status} {semaphore : Nat} {e : Event κ}

theorem setStatus_incomplete {events : List (Event κ)}
    (hstatus : status ≠ .incomplete) (h : (s.setStatus events status).status e = .incomplete) :
    s.status e = .incomplete ∧ e ∉ events := by
  simp only [System.setStatus] at h
  split at h
  · exact absurd h hstatus
  · exact ⟨h, ‹_›⟩

theorem Sound.setStatus (h : Sound s) (events : List (Event κ))
    (hstatus : status ≠ .incomplete) : Sound (s.setStatus events status) := fun q =>
  (h q).mono le_rfl (List.Subset.refl _) fun _ hu => ⟨(setStatus_incomplete hstatus hu).1, id⟩

theorem Sound.dropDispatchesPending (h : Sound s) (u : Nat) :
    Sound (s.dropDispatchesPending q u) :=
  have hstatus : Sound (s.setStatus (((s.queues q).pending.filter fun d =>
    .user u ∈ d.waitEvents).flatMap (·.signalEvents)) .failed) := h.setStatus _ (by decide)
  hstatus.setQueue ((hstatus q).filter_pending _)

theorem Sound.userEventDispatch [Fintype κ] (h : Sound s) (u : Nat) (status : Status) :
    Sound (s.userEventDispatch u status q) := by
  unfold System.userEventDispatch
  split
  · exact (h.dropDispatchesPending u).dispatchPending u
  · exact h.dispatchPending u

/-- The state in which the callbacks of a user event are called. -/
def System.userEventSet (s : System κ) (u : Nat) (status : Status) : System κ :=
  { s.setStatus [.user u] status with callbacks := s.callbacks.filter (·.1 ≠ u) }

theorem Sound.userEventSet (h : Sound s) (u : Nat)
    (hstatus : status ≠ .incomplete) : Sound (s.userEventSet u status) := by
  refine fun q => (h q).mono le_rfl (List.Subset.refl _) fun u' hu' => ?_
  obtain ⟨hincomplete, hne⟩ := setStatus_incomplete hstatus hu'
  refine ⟨hincomplete, fun hmem => mem_filter.2 ⟨hmem, ?_⟩⟩
  simpa using hne

/-- What the callback of each queue keeps, a change of the status of a user event keeps. -/
theorem setUserEventStatus_induct [Fintype κ] {P : System κ → Prop}
    (hP : P (s.userEventSet u status))
    (hdispatch : ∀ t q, P t → P (t.userEventDispatch u status q)) :
    P (s.setUserEventStatus u status) := by
  have hfold : ∀ (queues : List κ) (t : System κ), P t →
      P (queues.foldl (fun t q => t.userEventDispatch u status q) t) := by
    intro queues
    induction queues with
    | nil => exact fun t ht => ht
    | cons q queues ih => exact fun t ht => ih _ (hdispatch t q ht)
  exact hfold _ _ hP

theorem Sound.setUserEventStatus [Fintype κ] (h : Sound s) (u : Nat)
    (hstatus : status ≠ .incomplete) : Sound (s.setUserEventStatus u status) :=
  setUserEventStatus_induct (h.userEventSet u hstatus) fun _ _ h => h.userEventDispatch u status

/-! ### The device -/

omit [DecidableEq κ] in
theorem mem_running_of_runningDispatch {d : Dispatch κ}
    (h : queue.runningDispatch semaphore = some d) :
    d ∈ queue.running ∧ d.signalSemaphore = semaphore :=
  ⟨mem_of_find?_eq_some h, by simpa using find?_some h⟩

omit [DecidableEq κ] in
theorem startable_some {d : Dispatch κ} {event : Event κ}
    (h : s.startable q semaphore = some (d, event)) :
    d ∈ (s.queues q).running ∧ d.signalSemaphore = semaphore ∧ d.busy = false ∧
      (∀ w ∈ d.waitSemaphores, w ∈ s.signalled) ∧ ∃ rest, d.commands = event :: rest := by
  unfold System.startable at h
  split at h
  · cases h
  · rename_i d' hd'
    split at h
    · rename_i hready
      obtain ⟨event', hhead, heq⟩ := Option.map_eq_some_iff.1 h
      cases heq
      obtain ⟨hmem, hname⟩ := mem_running_of_runningDispatch hd'
      exact ⟨hmem, hname, hready.1, hready.2, head?_eq_some_iff.1 hhead⟩
    · cases h

theorem startCommand_some (h : s.startCommand q semaphore = some t) :
    ∃ d event, s.startable q semaphore = some (d, event) ∧
      t = s.setRunning q { d with busy := true } := by
  obtain ⟨⟨d, event⟩, hstartable, rfl⟩ := Option.map_eq_some_iff.1 h
  exact ⟨d, event, hstartable, rfl⟩

/-- The state after a command of a running dispatch has finished. -/
def System.finishedCommand (s : System κ) (q : κ) (d : Dispatch κ) (event : Event κ)
    (rest : List (Event κ)) : System κ :=
  let s := { s.setRunning q { d with commands := rest, busy := false } with
    finished := s.finished ++ [event] }
  if rest = [] then { s.setStatus d.signalEvents .complete with
    signalled := s.signalled ++ [d.signalSemaphore] }
  else s

theorem finishCommand_some (h : s.finishCommand q semaphore = some t) :
    ∃ d event rest, d ∈ (s.queues q).running ∧ d.signalSemaphore = semaphore ∧ d.busy = true ∧
      d.commands = event :: rest ∧ t = s.finishedCommand q d event rest := by
  unfold System.finishCommand at h
  split at h
  · rename_i sem waitSems waitEvents signalEvents isUser event rest hd
    obtain ⟨hmem, hname⟩ := mem_running_of_runningDispatch hd
    refine ⟨_, event, rest, hmem, hname, rfl, rfl, ?_⟩
    unfold System.finishedCommand
    split at h
    · rename_i hrest
      rw [if_pos hrest]
      exact (Option.some.inj h).symm
    · rename_i hrest
      rw [if_neg hrest]
      exact (Option.some.inj h).symm
  · cases h

section Finished

variable (s q) (d : Dispatch κ) (event : Event κ) (rest : List (Event κ))

theorem finishedCommand_queues : (s.finishedCommand q d event rest).queues =
    (s.setRunning q { d with commands := rest, busy := false }).queues := by
  unfold System.finishedCommand
  split <;> rfl

theorem finishedCommand_signalled : (s.finishedCommand q d event rest).signalled =
    if rest = [] then s.signalled ++ [d.signalSemaphore] else s.signalled := by
  unfold System.finishedCommand
  split <;> rfl

theorem finishedCommand_next : (s.finishedCommand q d event rest).next = s.next := by
  unfold System.finishedCommand
  split <;> rfl

theorem finishedCommand_callbacks :
    (s.finishedCommand q d event rest).callbacks = s.callbacks := by
  unfold System.finishedCommand
  split <;> rfl

theorem finishedCommand_status (h : (s.finishedCommand q d event rest).status e = .incomplete) :
    s.status e = .incomplete := by
  unfold System.finishedCommand at h
  split at h
  · have h' : (s.setStatus d.signalEvents .complete).status e = .incomplete := h
    exact (setStatus_incomplete (by decide) h').1
  · exact h

theorem finishedCommand_issued : (s.finishedCommand q d event rest).issued = s.issued := by
  unfold System.finishedCommand
  split <;> rfl

theorem finishedCommand_finished :
    (s.finishedCommand q d event rest).finished = s.finished ++ [event] := by
  unfold System.finishedCommand
  split <;> rfl

theorem finishedCommand_complete (h : s.status e = .complete) :
    (s.finishedCommand q d event rest).status e = .complete := by
  unfold System.finishedCommand
  split
  · show (if e ∈ d.signalEvents then Status.complete else s.status e) = .complete
    split
    · rfl
    · exact h
  · exact h

variable {rest} in
theorem finishedCommand_signals (hrest : rest = []) (he : e ∈ d.signalEvents) :
    (s.finishedCommand q d event rest).status e = .complete := by
  unfold System.finishedCommand
  rw [if_pos hrest]
  exact if_pos he

end Finished

theorem Sound.startCommand (h : Sound s)
    (hstep : s.startCommand q semaphore = some t) : Sound t := by
  obtain ⟨d, event, hstartable, rfl⟩ := startCommand_some hstep
  obtain ⟨hmem, -, -, -, rest, hcommands⟩ := startable_some hstartable
  exact h.setQueue ((h q).setRunning ((h q).settled d hmem) fun hempty => absurd hempty (by
    simp [hcommands]))

theorem Sound.finishCommand (h : Sound s)
    (hstep : s.finishCommand q semaphore = some t) : Sound t := by
  obtain ⟨d, event, rest, hmem, -, -, -, rfl⟩ := finishCommand_some hstep
  have hsignalled : s.signalled ⊆ (s.finishedCommand q d event rest).signalled := by
    rw [finishedCommand_signalled]
    split
    · exact subset_append_left ..
    · exact List.Subset.refl _
  have hmono (q' : κ) : QueueSound (s.finishedCommand q d event rest) q' (s.queues q') :=
    (h q').mono (finishedCommand_next ..).ge hsignalled fun u hu =>
      ⟨finishedCommand_status _ _ _ _ _ hu, fun hc => by rwa [finishedCommand_callbacks]⟩
  intro q'
  rw [finishedCommand_queues]
  by_cases heq : q' = q
  · subst heq
    rw [System.setRunning, setQueue_queues_self]
    refine (hmono q').setRunning ((h q').settled d hmem) fun hempty => ?_
    rw [finishedCommand_signalled, if_pos hempty]
    exact mem_append_right _ (mem_singleton_self _)
  · rw [System.setRunning, setQueue_queues_of_ne heq]
    exact hmono q'

theorem sound_step [Fintype κ] {call : Call κ} (h : Sound s) (hstep : s.step call = some t) :
    Sound t := by
  cases call with
  | enqueue q waitList =>
    obtain ⟨-, ⟨⟩⟩ := Option.ite_none_right_eq_some.1 hstep
    exact h.enqueue waitList
  | enqueueCommandBuffer q waitList =>
    obtain ⟨-, ⟨⟩⟩ := Option.ite_none_right_eq_some.1 hstep
    exact h.create waitList _ true
  | flush => exact Option.some.inj hstep ▸ h.flush
  | cleanup => exact Option.some.inj hstep ▸ h.cleanup
  | setUserEventStatus u =>
    obtain ⟨hvalid, ⟨⟩⟩ := Option.ite_none_right_eq_some.1 hstep
    exact h.setUserEventStatus u hvalid.2
  | start => exact h.startCommand hstep
  | finish => exact h.finishCommand hstep

end Steps

end ConstructionKit.Queue
