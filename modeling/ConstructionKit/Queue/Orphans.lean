import ConstructionKit.Queue.Sound

/-! No dispatch waits on a semaphore that nothing will signal, unless a user event failed while a
dispatch that does not wait on it was behind one that does: `dropDispatchesPending` removes the
second one only. -/

namespace ConstructionKit.Queue

open ProofKit List

variable {κ : Type}

/-! ### Definitions -/

/-- Every semaphore that a dispatch waits on is signalled, or the signal semaphore of a dispatch
that is pending or running. -/
def NoOrphans (s : System κ) : Prop :=
  ∀ q, ∀ d ∈ (s.queues q).all, ∀ w ∈ d.waitSemaphores,
    w ∈ s.signalled ∨ ∃ q', ∃ d' ∈ (s.queues q').all, d'.signalSemaphore = w

/-- Only dispatches that wait on the user event themselves wait on the semaphore of one that
does. -/
def Detached (s : System κ) (u : Nat) : Prop :=
  ∀ q, ∀ d ∈ (s.queues q).pending, .user u ∈ d.waitEvents →
    ∀ q', ∀ d' ∈ (s.queues q').all, d.signalSemaphore ∈ d'.waitSemaphores →
      .user u ∈ d'.waitEvents

/-- User events fail only when the dispatches that wait on them are detached. -/
def FailsDetached (s : System κ) : Call κ → Prop
  | .setUserEventStatus u .failed => Detached s u
  | _ => True

instance [DecidableEq κ] [Fintype κ] (s : System κ) (u : Nat) : Decidable (Detached s u) :=
  inferInstanceAs (Decidable (∀ q, ∀ d ∈ (s.queues q).pending, .user u ∈ d.waitEvents →
    ∀ q', ∀ d' ∈ (s.queues q').all, d.signalSemaphore ∈ d'.waitSemaphores →
      .user u ∈ d'.waitEvents))

instance [DecidableEq κ] [Fintype κ] (s : System κ) : ∀ call, Decidable (FailsDetached s call)
  | .setUserEventStatus u .failed => inferInstanceAs (Decidable (Detached s u))
  | .setUserEventStatus _ .complete | .setUserEventStatus _ .incomplete => isTrue trivial
  | .enqueue _ _ | .enqueueCommandBuffer _ _ | .flush _ | .cleanup _ => isTrue trivial
  | .start _ _ | .finish _ _ => isTrue trivial

/-- A dispatch that waits on none of the given user events. -/
def Spared (U : Set Nat) (d : Dispatch κ) : Prop := ∀ u ∈ U, .user u ∉ d.waitEvents

/-- The dispatches that wait on none of the given user events depend only on such dispatches. -/
def Backed (U : Set Nat) (s : System κ) : Prop :=
  ∀ q, ∀ d ∈ (s.queues q).all, Spared U d → ∀ w ∈ d.waitSemaphores,
    w ∈ s.signalled ∨ ∃ q', ∃ d' ∈ (s.queues q').all, Spared U d' ∧ d'.signalSemaphore = w

theorem spared_empty (d : Dispatch κ) : Spared ∅ d := nofun

theorem backed_empty {s : System κ} : Backed ∅ s ↔ NoOrphans s := by
  simp [Backed, NoOrphans, Spared]

variable {queue : CommandQueue κ} {d : Dispatch κ} {U : Set Nat}

theorem spared_of_ready (h : d ∈ queue.ready) : Spared U d := by
  intro u _ hmem
  have hall := (mem_filter.1 h).2
  rw [all_eq_true] at hall
  exact absurd (hall _ hmem) (by simp [Event.isUserEvent])

section

variable [DecidableEq κ] {s t : System κ} {q : κ} {w : Nat}

/-! ### Queues -/

omit [DecidableEq κ] in
/-- The rule for a step: a wait list gets only semaphores that were waited on or named before, and
only names that are signalled go. -/
theorem Backed.of_queues (h : Backed U s) (hsignalled : s.signalled ⊆ t.signalled)
    (hwaits : ∀ q, ∀ d ∈ (t.queues q).all, Spared U d → ∀ w ∈ d.waitSemaphores,
      ∃ q', ∃ d' ∈ (s.queues q').all, Spared U d' ∧
        (w ∈ d'.waitSemaphores ∨ d'.signalSemaphore = w))
    (hnames : ∀ q, ∀ d ∈ (s.queues q).all, Spared U d → d.signalSemaphore ∈ t.signalled ∨
      ∃ q', ∃ d' ∈ (t.queues q').all, Spared U d' ∧ d'.signalSemaphore = d.signalSemaphore) :
    Backed U t := by
  intro q d hd hspared w hw
  have hbefore : w ∈ s.signalled ∨ ∃ q', ∃ d' ∈ (s.queues q').all, Spared U d' ∧
      d'.signalSemaphore = w := by
    obtain ⟨q', d', hd', hspared', hw' | hname⟩ := hwaits q d hd hspared w hw
    · exact h q' d' hd' hspared' w hw'
    · exact .inr ⟨q', d', hd', hspared', hname⟩
  rcases hbefore with hmem | ⟨q', d', hd', hspared', rfl⟩
  · exact .inl (hsignalled hmem)
  · exact hnames q' d' hd' hspared'

/-- The rule for a step of one queue: its wait lists do not grow, and only signalled names go. -/
theorem Backed.setQueue (h : Backed U s)
    (hwaits : ∀ d ∈ queue.all, Spared U d → ∃ d' ∈ (s.queues q).all, Spared U d' ∧
      d.waitSemaphores ⊆ d'.waitSemaphores)
    (hnames : ∀ d ∈ (s.queues q).all, Spared U d → d.signalSemaphore ∈ s.signalled ∨
      ∃ d' ∈ queue.all, Spared U d' ∧ d'.signalSemaphore = d.signalSemaphore) :
    Backed U (s.setQueue q queue) := by
  refine h.of_queues (List.Subset.refl _) ?_ ?_
  · intro q' d hd hspared w hw
    by_cases heq : q' = q
    · subst heq
      rw [setQueue_queues_self] at hd
      obtain ⟨d', hd', hspared', hsubset⟩ := hwaits d hd hspared
      exact ⟨q', d', hd', hspared', .inl (hsubset hw)⟩
    · rw [setQueue_queues_of_ne heq] at hd
      exact ⟨q', d, hd, hspared, .inl hw⟩
  · intro q' d hd hspared
    by_cases heq : q' = q
    · subst heq
      rcases hnames d hd hspared with hmem | ⟨d', hd', hspared', hname⟩
      · exact .inl hmem
      · exact .inr ⟨q', d', by rwa [setQueue_queues_self], hspared', hname⟩
    · exact .inr ⟨q', d, by rwa [setQueue_queues_of_ne heq], hspared, rfl⟩

theorem Backed.cleanup (h : Backed U s) (hsound : Sound s) :
    Backed U (s.cleanupCompletedCommandBuffers q) := by
  unfold System.cleanupCompletedCommandBuffers
  obtain ⟨done, rest, hrunning, hdone, heq⟩ :=
    cleanupLoop_eq (s.queues q).running (s.queues q).pending
  rw [heq]
  refine h.setQueue ?_ ?_
  · intro d hd hspared
    rcases mem_append.1 hd with hpending | hrest
    · obtain ⟨d', hd', rfl⟩ := mem_map.1 hpending
      exact ⟨d', mem_append_left _ hd', hspared, diff_subset ..⟩
    · refine ⟨d, mem_append_right _ ?_, hspared, List.Subset.refl _⟩
      rw [hrunning]
      exact mem_append_right _ hrest
  · intro d hd hspared
    rcases mem_append.1 hd with hpending | hrun
    · exact .inr ⟨_, mem_append_left _ (mem_map_of_mem hpending), hspared, rfl⟩
    · have hrun' := hrun
      rw [hrunning] at hrun'
      rcases mem_append.1 hrun' with hd' | hrest
      · exact .inl ((hsound q).complete d hrun (hdone d hd'))
      · exact .inr ⟨d, mem_append_right _ hrest, hspared, rfl⟩

theorem Backed.dispatch (h : Backed U s) (hsound : Sound s) :
    Backed U (s.dispatch q ((s.queues q).ready.map (·.signalSemaphore))) := by
  refine h.setQueue ?_ ?_
  · intro d hd hspared
    rcases mem_append.1 hd with hpending | hrun
    · exact ⟨d, mem_append_left _ (mem_of_mem_filter hpending), hspared,
        List.Subset.refl _⟩
    · rcases mem_append.1 hrun with hold | hnew
      · exact ⟨d, mem_append_right _ hold, hspared, List.Subset.refl _⟩
      · obtain ⟨d', hd', rfl⟩ := mem_map.1 hnew
        obtain ⟨hmem, hname⟩ := mem_filter.1 hd'
        refine ⟨d', mem_append_left _ hmem, ?_, List.Subset.refl _⟩
        exact spared_of_ready ((hsound q).mem_ready hmem (of_decide_eq_true hname))
  · intro d hd hspared
    right
    rcases mem_append.1 hd with hpending | hrun
    · by_cases hname : d.signalSemaphore ∈ (s.queues q).ready.map (·.signalSemaphore)
      · refine ⟨{ d with waitEvents := [] }, ?_, by simp [Spared], rfl⟩
        refine mem_append_right _ (mem_append_right _ (mem_map_of_mem ?_))
        exact mem_filter.2 ⟨hpending, decide_eq_true hname⟩
      · refine ⟨d, mem_append_left _ ?_, hspared, rfl⟩
        exact mem_filter.2 ⟨hpending, decide_eq_true hname⟩
    · exact ⟨d, mem_append_right _ (mem_append_left _ hrun), hspared, rfl⟩

theorem Backed.flush [Fintype κ] (h : Backed U s) (hsound : Sound s) : Backed U (s.flush q) :=
  (flushFrom_induct (P := fun s => Backed U s ∧ Sound s)
    (fun _ _ h => ⟨h.1.cleanup h.2, h.2.cleanup⟩)
    (fun _ _ h => ⟨h.1.dispatch h.2, h.2.dispatch _⟩) ⟨h, hsound⟩).1

/-! ### Enqueuing -/

theorem named_of_signallers {event : Event κ}
    (h : w ∈ queue.signallers event) : ∃ d ∈ queue.all, d.signalSemaphore = w := by
  obtain ⟨d, hd, heq⟩ := mem_map.1 h
  exact ⟨d, mem_append_left _ (mem_of_mem_filter hd), heq⟩

variable {waitList : List (Event κ)} {q' : κ} {u semaphore : Nat} {queues : List κ}

theorem named_of_dependentDispatches (h : (w, q') ∈ s.dependentDispatches q waitList) :
    ∃ q'', ∃ d ∈ (s.queues q'').all, d.signalSemaphore = w := by
  rcases mem_append.1 h with hlast | hevent
  · obtain ⟨d, hd, heq⟩ := mem_map.1 hlast
    cases heq
    have hmem := mem_of_getLast? (Option.mem_toList.1 hd)
    exact ⟨q, d, mem_append_left _ hmem, rfl⟩
  · obtain ⟨event, -, hmem⟩ := mem_flatMap.1 hevent
    cases event with
    | user => cases hmem
    | command =>
      rcases mem_append.1 hmem with hown | hother
      · obtain ⟨w', hw', heq⟩ := mem_map.1 hown
        cases heq
        exact ⟨q, named_of_signallers hw'⟩
      · split at hother
        · obtain ⟨w', hw', heq⟩ := mem_map.1 hother
          cases heq
          exact ⟨_, named_of_signallers hw'⟩
        · cases hother

theorem named_of_dependentSemaphores (h : w ∈ s.dependentSemaphores q waitList
      ((s.dependentDispatches q waitList).destutter (· ≠ ·))) :
    ∃ q', ∃ d ∈ (s.queues q').all, d.signalSemaphore = w := by
  obtain ⟨q', -, hmem⟩ := mem_flatMap.1 h
  split at hmem
  · obtain ⟨⟨w', q''⟩, hw', rfl⟩ := mem_map.1 hmem
    exact named_of_dependentDispatches (mem_destutter_ne.1 (mem_of_mem_filter hw'))
  · obtain ⟨d, hd, rfl⟩ := mem_map.1 hmem
    exact ⟨q', d, mem_append_right _ hd, rfl⟩

/-- A command is recorded in a command buffer whose semaphores are named. -/
theorem NoOrphans.record (h : NoOrphans s) {commandBuffer : Nat} {pending : List (Dispatch κ)}
    (hpending : ∀ d ∈ pending, d ∈ (s.queues q).pending ∨ ∀ w ∈ d.waitSemaphores,
      ∃ q', ∃ d' ∈ (s.queues q').all, d'.signalSemaphore = w)
    (hkept : ∀ d ∈ (s.queues q).pending, d ∈ pending) :
    NoOrphans (s.record q waitList commandBuffer pending) := by
  have hqueue := record_queues_self (s := s) (q := q) waitList commandBuffer pending
  rw [← backed_empty] at h ⊢
  refine h.of_queues (List.Subset.refl _) ?_ ?_
  · intro q' d hd _ w hw
    by_cases heq : q' = q
    · subst heq
      rw [hqueue] at hd
      rcases mem_append.1 hd with hd | hrun
      · obtain ⟨d', hd', rfl⟩ := mem_map.1 hd
        have hw' : w ∈ d'.waitSemaphores := by
          split at hw <;> exact hw
        rcases hpending d' hd' with hold | hnamed
        · exact ⟨q', d', mem_append_left _ hold, spared_empty _, .inl hw'⟩
        · obtain ⟨q'', d'', hd'', hname⟩ := hnamed w hw'
          exact ⟨q'', d'', hd'', spared_empty _, .inr hname⟩
      · exact ⟨q', d, mem_append_right _ hrun, spared_empty _, .inl hw⟩
    · rw [record_queues_of_ne heq] at hd
      exact ⟨q', d, hd, spared_empty _, .inl hw⟩
  · intro q' d hd _
    right
    by_cases heq : q' = q
    · subst heq
      rcases mem_append.1 hd with hold | hrun
      · have hmem := mem_map_of_mem (f := fun d => if d.signalSemaphore = commandBuffer then
          s.register waitList (.command q' s.next) d else d) (hkept d hold)
        refine ⟨q', _, by rw [hqueue]; exact mem_append_left _ hmem, spared_empty _, ?_⟩
        split <;> rfl
      · refine ⟨q', d, ?_, spared_empty _, rfl⟩
        rw [hqueue]
        exact mem_append_right _ hrun
    · exact ⟨q', d, by rwa [record_queues_of_ne heq], spared_empty _, rfl⟩

theorem NoOrphans.create (h : NoOrphans s) {waitSemaphores : List Nat}
    {isUser : Bool} (hnamed : ∀ w ∈ waitSemaphores,
      ∃ q', ∃ d' ∈ (s.queues q').all, d'.signalSemaphore = w) :
    NoOrphans (s.record q waitList s.next
      ((s.queues q).pending ++ [s.newDispatch waitSemaphores isUser])) := by
  refine h.record (fun d hd => ?_) fun d hd => mem_append_left _ hd
  rcases mem_append.1 hd with hold | hnew
  · exact .inl hold
  · rw [mem_singleton.1 hnew]
    exact .inr hnamed

theorem NoOrphans.enqueue (h : NoOrphans s) (waitList : List (Event κ)) :
    NoOrphans (s.enqueue q waitList) := by
  unfold System.enqueue
  rcases getCommandBufferPending_cases s q waitList with ⟨last, -, -, heq⟩ | heq
  · rw [heq]
    exact h.record (fun d hd => .inl hd) fun d hd => hd
  · rw [heq]
    exact h.create fun w hw => named_of_dependentSemaphores (mem_destutter_ne.1 hw)

theorem NoOrphans.enqueueCommandBuffer (h : NoOrphans s) (waitList : List (Event κ)) :
    NoOrphans (s.enqueueCommandBuffer q waitList) := by
  refine h.create fun w hw => ?_
  rcases mem_append.1 hw with hlast | hrun
  · obtain ⟨d, hd, rfl⟩ := mem_map.1 hlast
    exact ⟨q, d, mem_append_left _ (mem_of_getLast? (Option.mem_toList.1 hd)), rfl⟩
  · obtain ⟨d, hd, rfl⟩ := mem_map.1 hrun
    exact ⟨q, d, mem_append_right _ hd, rfl⟩

/-! ### User events -/

theorem Backed.setStatus (h : Backed U s) (events : List (Event κ)) (status : Status) :
    Backed U (s.setStatus events status) := h

/-- Taking the user event from the wait lists of a queue changes nothing for `Backed` if they do not
hold it, or if no user event is set apart. -/
theorem Backed.dispatchPending [Fintype κ] (h : Backed U s) (hsound : Sound s) (u : Nat)
    (hfree : u ∉ U ∨ ∀ d ∈ (s.queues q).pending, .user u ∉ d.waitEvents) :
    Backed U (s.dispatchPending q u) := by
  have hspared : ∀ d ∈ (s.queues q).pending,
      (Spared U { d with waitEvents := d.waitEvents.erase (.user u) } ↔ Spared U d) := by
    intro d hd
    refine forall₂_congr fun u' hu' => not_congr ?_
    rcases hfree with hne | hfree
    · exact mem_erase_of_ne (by rintro ⟨⟩; exact hne hu')
    · rw [erase_of_not_mem (hfree d hd)]
  have hsound' : Sound (s.setQueue q ⟨(s.queues q).pending.map fun d =>
      { d with waitEvents := d.waitEvents.erase (.user u) }, (s.queues q).running⟩) :=
    hsound.setQueue ((hsound q).map_pending _ (fun _ => rfl) (fun _ => id)
      fun d hd u' hu' => (hsound q).callbacks d hd u' (mem_of_mem_erase hu'))
  refine (h.setQueue ?_ ?_).flush hsound'
  · intro d hd hd'
    rcases mem_append.1 hd with hp | hr
    · obtain ⟨d₀, hd₀, rfl⟩ := mem_map.1 hp
      exact ⟨d₀, mem_append_left _ hd₀, (hspared d₀ hd₀).1 hd', List.Subset.refl _⟩
    · exact ⟨d, mem_append_right _ hr, hd', List.Subset.refl _⟩
  · intro d hd hd'
    right
    rcases mem_append.1 hd with hp | hr
    · exact ⟨_, mem_append_left _ (mem_map_of_mem hp), (hspared d hp).2 hd', rfl⟩
    · exact ⟨d, mem_append_right _ hr, hd', rfl⟩

theorem Backed.dropDispatchesPending (h : Backed {u} s) :
    Backed {u} (s.dropDispatchesPending q u) := by
  refine (h.setStatus _ .failed).setQueue ?_ ?_
  · intro d hd hspared
    rcases mem_append.1 hd with hp | hr
    · exact ⟨d, mem_append_left _ (mem_of_mem_filter hp), hspared, List.Subset.refl _⟩
    · exact ⟨d, mem_append_right _ hr, hspared, List.Subset.refl _⟩
  · intro d hd hspared
    right
    rcases mem_append.1 hd with hp | hr
    · refine ⟨d, mem_append_left _ (mem_filter.2 ⟨hp, ?_⟩), hspared, rfl⟩
      simpa using hspared u rfl
    · exact ⟨d, mem_append_right _ hr, hspared, rfl⟩

/-- No pending dispatch of a queue waits on the user event. -/
def Released (u : Nat) (q : κ) (s : System κ) : Prop :=
  ∀ d ∈ (s.queues q).pending, .user u ∉ d.waitEvents

/-- A queue stays released when the pending dispatches of a queue are some of those before, with
fewer events. -/
theorem Released.setQueue (h : Released u q' s)
    (hpending : ∀ d ∈ queue.pending, ∃ d' ∈ (s.queues q).pending, d.waitEvents ⊆ d'.waitEvents) :
    Released u q' (s.setQueue q queue) := by
  intro d hd hmem
  by_cases heq : q' = q
  · subst heq
    rw [setQueue_queues_self] at hd
    obtain ⟨d', hd', hsubset⟩ := hpending d hd
    exact h d' hd' (hsubset hmem)
  · rw [setQueue_queues_of_ne heq] at hd
    exact h d hd hmem

theorem Released.flush [Fintype κ] (h : Released u q' s) :
    Released u q' (s.flush q) := by
  refine flushFrom_induct (P := Released u q') (fun s q h => h.setQueue ?_)
    (fun s q h => h.setQueue ?_) h
  · obtain ⟨done, rest, -, -, heq⟩ := cleanupLoop_eq (s.queues q).running (s.queues q).pending
    rw [heq]
    intro d hd
    obtain ⟨d', hd', rfl⟩ := mem_map.1 hd
    exact ⟨d', hd', List.Subset.refl _⟩
  · exact fun d hd => ⟨d, mem_of_mem_filter hd, List.Subset.refl _⟩

theorem Released.dispatchPending [Fintype κ] (h : Released u q' s) (u' : Nat) :
    Released u q' (s.dispatchPending q u') := by
  refine Released.flush (h.setQueue fun d hd => ?_)
  obtain ⟨d', hd', rfl⟩ := mem_map.1 hd
  exact ⟨d', hd', erase_subset⟩

theorem Released.dropDispatchesPending (h : Released u q' s) (u' : Nat) :
    Released u q' (s.dropDispatchesPending q u') :=
  Released.setQueue (s := s.setStatus _ .failed) h
    fun d hd => ⟨d, mem_of_mem_filter hd, List.Subset.refl _⟩

theorem released_dropDispatchesPending (s : System κ) (q : κ) (u : Nat) :
    Released u q (s.dropDispatchesPending q u) := by
  intro d hd
  rw [System.dropDispatchesPending, setQueue_queues_self] at hd
  simpa using (mem_filter.1 hd).2

/-- What holds while the callbacks of a failed user event are called, with the queues that are still
to be called. -/
structure Failing (u : Nat) (queues : List κ) (s : System κ) : Prop where
  sound : Sound s
  backed : Backed {u} s
  released : ∀ q, q ∈ queues ∨ Released u q s

theorem Failing.userEventDispatch [Fintype κ]
    (h : Failing u (q :: queues) s) : Failing u queues (s.userEventDispatch u .failed q) := by
  have hreleased := released_dropDispatchesPending s q u
  refine ⟨h.sound.userEventDispatch u .failed, ?_, ?_⟩
  · exact (h.backed.dropDispatchesPending).dispatchPending (h.sound.dropDispatchesPending u) u
      (.inr hreleased)
  · intro q'
    rcases h.released q' with hmem | hq'
    · rcases mem_cons.1 hmem with rfl | hmem
      · exact .inr (hreleased.dispatchPending u)
      · exact .inl hmem
    · exact .inr ((hq'.dropDispatchesPending u).dispatchPending u)

theorem Failing.foldl [Fintype κ] (h : Failing u queues s) :
    Failing u [] (queues.foldl (fun s q => s.userEventDispatch u .failed q) s) := by
  induction queues generalizing s with
  | nil => exact h
  | cons q queues ih => exact ih h.userEventDispatch

omit [DecidableEq κ] in
theorem Failing.noOrphans (h : Failing u [] s) : NoOrphans s := by
  have hspared : ∀ q, ∀ d ∈ (s.queues q).all, Spared {u} d := by
    rintro q d hd _ rfl
    rcases mem_append.1 hd with hp | hr
    · exact (h.released q).resolve_left (not_mem_nil) d hp
    · rw [(h.sound q).settled d hr]
      exact not_mem_nil
  intro q d hd w hw
  refine (h.backed q d hd (hspared q d hd) w hw).imp_right ?_
  rintro ⟨q', d', hd', -, hname⟩
  exact ⟨q', d', hd', hname⟩

theorem NoOrphans.fail [Fintype κ] (h : NoOrphans s) (hsound : Sound s)
    (hincomplete : s.status (.user u) = .incomplete) (detached : Detached s u) :
    NoOrphans (s.setUserEventStatus u .failed) := by
  refine Failing.noOrphans (Failing.foldl (s := s.userEventSet u .failed)
    ⟨hsound.userEventSet u (by decide), ?_, ?_⟩)
  · intro q d hd hspared w hw
    refine (h q d hd w hw).imp_right ?_
    rintro ⟨q', d', hd', rfl⟩
    refine ⟨q', d', hd', ?_, rfl⟩
    rintro _ rfl hmem
    rcases mem_append.1 hd' with hp | hr
    · exact hspared _ rfl (detached q' d' hp hmem q d hd hw)
    · rw [(hsound q').settled d' hr] at hmem
      cases hmem
  · intro q
    by_cases hq : Released u q s
    · exact .inr hq
    · left
      simp only [Released, not_forall, not_not] at hq
      obtain ⟨d, hd, hmem⟩ := hq
      refine mem_map.2 ⟨(u, q), mem_filter.2 ⟨?_, by simp⟩, rfl⟩
      exact (hsound q).callbacks d hd u hmem hincomplete

theorem NoOrphans.setUserEventStatus [Fintype κ] {status : Status} (h : NoOrphans s)
    (hsound : Sound s) (hincomplete : s.status (.user u) = .incomplete)
    (hstatus : status ≠ .incomplete) (detached : status = .failed → Detached s u) :
    NoOrphans (s.setUserEventStatus u status) := by
  by_cases hfailed : status = .failed
  · subst hfailed
    exact h.fail hsound hincomplete (detached rfl)
  · rw [← backed_empty] at h ⊢
    refine (setUserEventStatus_induct (P := fun t => Backed ∅ t ∧ Sound t)
      ⟨h, hsound.userEventSet u hstatus⟩ fun t q ht => ⟨?_, ht.2.userEventDispatch u status⟩).1
    rw [System.userEventDispatch, if_neg hfailed]
    exact ht.1.dispatchPending ht.2 u (.inl (Set.notMem_empty u))

/-! ### The device -/

theorem Backed.setRunning (h : Backed ∅ s) (d' : Dispatch κ)
    (hd : d ∈ (s.queues q).running) (hwaits : d'.waitSemaphores = d.waitSemaphores) :
    Backed ∅ (s.setRunning q d') := by
  refine h.setQueue ?_ ?_
  · intro d₀ hd₀ _
    rcases mem_append.1 hd₀ with hp | hr
    · exact ⟨d₀, mem_append_left _ hp, spared_empty _, List.Subset.refl _⟩
    · obtain ⟨d₁, hd₁, rfl⟩ := mem_map.1 hr
      split
      · exact ⟨d, mem_append_right _ hd, spared_empty _, hwaits ▸ List.Subset.refl _⟩
      · exact ⟨d₁, mem_append_right _ hd₁, spared_empty _, List.Subset.refl _⟩
  · intro d₀ hd₀ _
    right
    rcases mem_append.1 hd₀ with hp | hr
    · exact ⟨d₀, mem_append_left _ hp, spared_empty _, rfl⟩
    · refine ⟨_, mem_append_right _ (mem_map_of_mem hr), spared_empty _, ?_⟩
      split
      · exact Eq.symm ‹_›
      · rfl

theorem NoOrphans.startCommand (h : NoOrphans s)
    (hstep : s.startCommand q semaphore = some t) : NoOrphans t := by
  obtain ⟨d, event, hstartable, rfl⟩ := startCommand_some hstep
  rw [← backed_empty] at h ⊢
  exact h.setRunning _ (startable_some hstartable).1 rfl

theorem NoOrphans.finishCommand (h : NoOrphans s)
    (hstep : s.finishCommand q semaphore = some t) : NoOrphans t := by
  obtain ⟨d, event, rest, hmem, -, -, -, rfl⟩ := finishCommand_some hstep
  rw [← backed_empty] at h
  have hrunning := backed_empty.1
    (h.setRunning { d with commands := rest, busy := false } hmem rfl)
  intro q' d' hd' w hw
  rw [finishedCommand_queues] at *
  refine (hrunning q' d' hd' w hw).imp_left fun hsignalled => ?_
  rw [finishedCommand_signalled]
  split
  · exact mem_append_left _ hsignalled
  · exact hsignalled

/-! ### Runs -/

theorem noOrphans_step [Fintype κ] {call : Call κ} (allowed : FailsDetached s call)
    (hstep : s.step call = some t) (h : NoOrphans s ∧ Sound s) : NoOrphans t ∧ Sound t := by
  refine ⟨?_, sound_step h.2 hstep⟩
  cases call with
  | enqueue q waitList =>
    obtain ⟨-, ⟨⟩⟩ := Option.ite_none_right_eq_some.1 hstep
    exact h.1.enqueue waitList
  | enqueueCommandBuffer q waitList =>
    obtain ⟨-, ⟨⟩⟩ := Option.ite_none_right_eq_some.1 hstep
    exact h.1.enqueueCommandBuffer waitList
  | flush => exact Option.some.inj hstep ▸ backed_empty.1 ((backed_empty.2 h.1).flush h.2)
  | cleanup => exact Option.some.inj hstep ▸ backed_empty.1 ((backed_empty.2 h.1).cleanup h.2)
  | setUserEventStatus =>
    obtain ⟨⟨hincomplete, hstatus⟩, ⟨⟩⟩ := Option.ite_none_right_eq_some.1 hstep
    refine h.1.setUserEventStatus h.2 hincomplete hstatus ?_
    rintro rfl
    exact allowed
  | start => exact h.1.startCommand hstep
  | finish => exact h.1.finishCommand hstep

/-- In a run in which user events fail only when the dispatches that wait on them are detached, no
dispatch waits on an orphaned semaphore. -/
theorem noOrphans_of_runs [Fintype κ] (run : Runs System.step FailsDetached System.init s) :
    NoOrphans s :=
  (run.invariant noOrphans_step ⟨by simp [NoOrphans, System.init, CommandQueue.all],
    sound_init⟩).1

end

/-- The last of two dispatches is dropped. -/
theorem noOrphans_last_dropped : ∃ s : System Unit,
    Runs System.step FailsDetached System.init s ∧ s.status (.user 1) = .failed ∧ NoOrphans s :=
  have run := Runs.follow_getD System.step FailsDetached (System.init : System Unit)
    [.enqueue () [], .enqueue () [.user 1], .setUserEventStatus 1 .failed] System.init (by decide)
  ⟨_, run, by decide, noOrphans_of_runs run⟩

/-- The first of two dispatches is dropped; the second one goes on waiting on its semaphore. -/
theorem noOrphans_fails : ∃ s : System Unit,
    Runs System.step (fun _ _ => True) System.init s ∧ ¬NoOrphans s := by
  have run := Runs.follow_getD System.step (fun _ _ => True) (System.init : System Unit)
    [.enqueue () [.user 1], .enqueue () [.user 2], .setUserEventStatus 1 .failed]
    System.init (by decide)
  refine ⟨_, run, fun h => ?_⟩
  rcases h () _ (mem_cons_self ..) 0 (mem_cons_self ..) with hsignalled | ⟨⟨⟩, d, hd, heq⟩
  · exact absurd hsignalled (by decide)
  · revert d
    decide

/-! ### Progress -/

/-- Command buffers wait on older ones only. -/
@[grind] def CommandQueue.Descends (queue : CommandQueue κ) : Prop :=
  ∀ d, d ∈ queue.pending ∨ d ∈ queue.running → ∀ w ∈ d.waitSemaphores, w < d.signalSemaphore

def Descending (s : System κ) : Prop := ∀ q, (s.queues q).Descends

section

variable [DecidableEq κ] {s t : System κ} {q : κ}

section

variable (h : Descending s)
include h

theorem Descending.setQueue (hqueue : (s.queues q).Descends → queue.Descends) :
    Descending (s.setQueue q queue) :=
  (Function.forall_update_iff _ fun _ => CommandQueue.Descends).2 ⟨hqueue (h q), fun q' _ => h q'⟩

theorem Descending.cleanup : Descending (s.cleanupCompletedCommandBuffers q) := by
  obtain ⟨done, rest, hrunning, -, heq⟩ :=
    cleanupLoop_eq (s.queues q).running (s.queues q).pending
  have hdiff : ∀ a b : List Nat, a.diff b ⊆ a := diff_subset
  exact h.setQueue (by grind)

theorem Descending.flush [Fintype κ] : Descending (s.flush q) :=
  flushFrom_induct (fun _ _ h => h.cleanup) (fun _ _ h => h.setQueue (by grind)) h

theorem Descending.userEventDispatch [Fintype κ] (u : Nat) (status : Status) :
    Descending (s.userEventDispatch u status q) := by
  have hdrop : Descending (s.dropDispatchesPending q u) :=
    Descending.setQueue (s := s.setStatus _ _) h (by grind [System.setStatus])
  unfold System.userEventDispatch
  split
  · exact (hdrop.setQueue (by grind)).flush
  · exact (h.setQueue (by grind)).flush

theorem Descending.create (hsound : Sound s) (waitList : List (Event κ)) (isUser : Bool)
    {waitSemaphores : List Nat} (hbound : ∀ w ∈ waitSemaphores, w < s.next) :
    Descending (s.record q waitList s.next
      ((s.queues q).pending ++ [s.newDispatch waitSemaphores isUser])) := by
  refine h.setQueue (q := q) ?_
  rw [record_new_pending hsound]
  grind [System.register, System.newDispatch]

end

theorem descending_step [Fintype κ] {call : Call κ} (allowed : FailsDetached s call)
    (hstep : s.step call = some t) (h : Descending s ∧ NoOrphans s ∧ Sound s) :
    Descending t ∧ NoOrphans t ∧ Sound t := by
  refine ⟨?_, noOrphans_step allowed hstep h.2⟩
  obtain ⟨h, -, hsound⟩ := h
  have hbound : ∀ w, (∃ q, ∃ d ∈ (s.queues q).all, d.signalSemaphore = w) → w < s.next :=
    fun _ ⟨q, d, hd, hw⟩ => hw ▸ (hsound q).bound d hd
  cases call with
  | enqueue q waitList =>
    obtain ⟨-, ⟨⟩⟩ := Option.ite_none_right_eq_some.1 hstep
    unfold System.enqueue
    rcases getCommandBufferPending_cases s q waitList with ⟨_, -, -, heq⟩ | heq <;> rw [heq]
    · exact h.setQueue (q := q) (by grind [System.register])
    · exact h.create hsound _ _ fun w hw =>
        hbound w (named_of_dependentSemaphores (mem_destutter_ne.1 hw))
  | enqueueCommandBuffer q waitList =>
    obtain ⟨-, ⟨⟩⟩ := Option.ite_none_right_eq_some.1 hstep
    refine h.create hsound _ _ fun w hw => hbound w ⟨q, ?_⟩
    simp only [← map_append, mem_map, CommandQueue.all] at hw ⊢
    grind [mem_of_getLast?]
  | flush => exact Option.some.inj hstep ▸ h.flush
  | cleanup => exact Option.some.inj hstep ▸ h.cleanup
  | setUserEventStatus =>
    obtain ⟨-, ⟨⟩⟩ := Option.ite_none_right_eq_some.1 hstep
    exact setUserEventStatus_induct h fun _ _ h => h.userEventDispatch _ _
  | start =>
    obtain ⟨d, event, hstartable, rfl⟩ := startCommand_some hstep
    have hmem := (startable_some hstartable).1
    exact h.setQueue (by grind)
  | finish =>
    obtain ⟨d, event, rest, hmem, -, -, -, rfl⟩ := finishCommand_some hstep
    unfold Descending
    rw [finishedCommand_queues]
    exact h.setQueue (by grind)

/-- If user events fail only when the dispatches that wait on them are detached, command buffers do
not wait in a circle: while one has work left, there is one whose semaphores are signalled. -/
theorem not_all_blocked [Fintype κ] (run : Runs System.step FailsDetached System.init s)
    (hd : d ∈ (s.queues q).all) (hwork : d.commands ≠ []) : ∃ q, ∃ d ∈ (s.queues q).all,
      d.commands ≠ [] ∧ ∀ w ∈ d.waitSemaphores, w ∈ s.signalled := by
  obtain ⟨hdescending, horphans, hsound⟩ := run.invariant descending_step
    ⟨by simp [Descending, CommandQueue.Descends, System.init],
      by simp [NoOrphans, System.init, CommandQueue.all], sound_init⟩
  by_contra hblocked
  push Not at hblocked
  -- each one waits on an older one
  induction hname : d.signalSemaphore using Nat.strong_induction_on generalizing q d with
  | _ n ih =>
  obtain ⟨w, hw, hsignalled⟩ := hblocked q d hd hwork
  obtain ⟨q', d', hd', rfl⟩ := (horphans q d hd w hw).resolve_left hsignalled
  refine ih _ (hname ▸ hdescending q d (mem_append.1 hd) _ hw) hd' ?_ rfl
  rcases mem_append.1 hd' with hp | hr
  · exact (hsound q').recorded d' hp
  · exact fun hempty => hsignalled ((hsound q').complete d' hr hempty)

end

theorem not_all_blocked_queues : ∃ s : System Bool, ∃ q, ∃ d ∈ (s.queues q).all,
    d.commands ≠ [] ∧ ∀ w ∈ d.waitSemaphores, w ∈ s.signalled :=
  have run := Runs.follow_getD System.step FailsDetached (System.init : System Bool)
    [.enqueue false [], .enqueue true [.command false 0], .flush true] System.init (by decide)
  ⟨_, not_all_blocked (q := true) run (mem_cons_self ..) (by decide)⟩

end ConstructionKit.Queue
