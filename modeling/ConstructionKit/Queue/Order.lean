import ConstructionKit.Queue.Ordered

/-! The order in which the commands of a queue start.  A queue is in order as long as its last
pending dispatch is its newest one whenever a command is enqueued. -/

namespace ConstructionKit.Queue

open ProofKit List

variable {κ : Type}

/-! ### The property -/

/-- A command that can start was enqueued, the commands enqueued before it on its queue have
finished, and so is what its wait list names: its user events are complete, and so are the events
of its queue, but for those of its own command buffer, which are set with the last command. -/
def InOrder (s : System κ) : Prop :=
  ∀ q semaphore d c, s.startable q semaphore = some (d, c) → c ∈ s.issued.map (·.1) ∧
    ∀ before waitList after, s.issued = before ++ (c, waitList) :: after →
      (∀ i ∈ before, ∀ id, i.1 = .command q id → i.1 ∈ s.finished) ∧
      (∀ u, .user u ∈ waitList → s.status (.user u) = .complete) ∧
      ∀ id, .command q id ∈ waitList → .command q id ∈ s.finished ∧
        (s.status (.command q id) = .complete ∨ .command q id ∈ d.signalEvents)

/-- User events are completed with success. -/
def Successful : Call κ → Prop
  | .setUserEventStatus _ status => status = .complete
  | _ => True

instance (call : Call κ) : Decidable (Successful call) := by
  cases call <;> unfold Successful <;> infer_instance

/-- A command is enqueued only when the last pending dispatch is newer than all that run. -/
def LastIsNewest (s : System κ) : Call κ → Prop
  | .enqueue q _ => ∀ last ∈ (s.queues q).pending.getLast?, ∀ d ∈ (s.queues q).running,
    d.commands ≠ [] → d.signalSemaphore < last.signalSemaphore
  | _ => True

instance (s : System κ) (call : Call κ) : Decidable (LastIsNewest s call) := by
  cases call <;> unfold LastIsNewest <;> infer_instance

/-! ### All queues -/

structure Ordered (s : System κ) : Prop where
  sound : Sound s
  queues : ∀ q, QueueOrdered s q (s.queues q).all
  sorted : ∀ q, (s.queues q).pending.Pairwise (·.signalSemaphore < ·.signalSemaphore)
  signalled : ∀ w ∈ s.signalled, w < s.next
  apart : ∀ q q', q ≠ q' → ∀ d ∈ (s.queues q).all, ∀ d' ∈ (s.queues q').all,
    d.signalSemaphore ≠ d'.signalSemaphore
  issued : s.issued.Pairwise (·.1.rank < ·.1.rank)
  bound : ∀ i ∈ s.issued, i.1.rank < s.next
  waits : ∀ i ∈ s.issued, ∀ q id, .command q id ∈ i.2 →
    id < i.1.rank ∧ ∃ waitList, (.command q id, waitList) ∈ s.issued

theorem ordered_init : Ordered (System.init : System κ) where
  sound := sound_init
  queues q := ⟨.nil, by simp [System.init, CommandQueue.all], by simp [System.init],
    by simp [System.init, CommandQueue.all], by simp [System.init]⟩
  sorted q := .nil
  signalled := by simp [System.init]
  apart := by simp [System.init, CommandQueue.all]
  issued := .nil
  bound := by simp [System.init]
  waits := by simp [System.init]

theorem Ordered.inOrder {s : System κ} (h : Ordered s) : InOrder s := by
  intro q semaphore d c hstartable
  obtain ⟨hrunning, -, -, hwaits, rest, hcommands⟩ := startable_some hstartable
  have hq := h.queues q
  have hd : d ∈ (s.queues q).all := mem_append_right _ hrunning
  have hc : c ∈ d.commands := by simp [hcommands]
  obtain ⟨-, id, waitList, rfl, hi⟩ := hq.owned d hd c hc
  -- what was enqueued earlier on the queue is in no dispatch any more
  have hfinished : ∀ id' waitList', (.command q id', waitList') ∈ s.issued → id' < id →
      .command q id' ∈ s.finished := by
    intro id' waitList' hi' hlt
    refine (hq.located id' waitList' hi').resolve_right ?_
    rintro ⟨d', hd', hc'⟩
    exact absurd (hq.chained.rank_le_of_waits hd hcommands hwaits hd' hc') (Nat.not_le.2 hlt)
  refine ⟨mem_map.2 ⟨_, hi, rfl⟩, ?_⟩
  intro before waitList after heq
  have hi : (Event.command q id, waitList) ∈ s.issued := by simp [heq]
  refine ⟨?_, ?_, ?_⟩
  · rintro ⟨_, waitList'⟩ hmem id' rfl
    have hsorted := h.issued
    rw [heq] at hsorted
    refine hfinished id' waitList' (by simp [heq, hmem]) ?_
    exact (pairwise_append.1 hsorted).2.2 _ hmem _ (mem_cons_self ..)
  · intro u hu
    refine (hq.users d hd _ hc waitList hi u hu).resolve_right ?_
    rw [(h.sound q).settled d hrunning]
    exact not_mem_nil
  · intro id' hid'
    obtain ⟨hlt, waitList', hi'⟩ := h.waits _ hi q id' hid'
    have hdone := hfinished id' waitList' hi' hlt
    refine ⟨hdone, (hq.published id' hdone).imp_right ?_⟩
    rintro ⟨d', hd', hwork', hsignals, hwaits'⟩
    -- both are the first dispatch with work left
    have hle := hq.chained.first_of_waits hd (by simp [hcommands]) hwaits hd' hwork'
    have hge := hq.chained.first_of_waits hd' hwork' hwaits' hd (by simp [hcommands])
    exact hq.chained.eq_of_name hd hd' (le_antisymm hle hge) ▸ hsignals

section Steps

variable [DecidableEq κ] {s t : System κ} {q : κ}

section

variable (h : Ordered s)
include h

theorem Ordered.move {queue : CommandQueue κ} (hsound : Sound (s.setQueue q queue))
    (hsorted : queue.pending.Pairwise (·.signalSemaphore < ·.signalSemaphore))
    (hback : ∀ d' ∈ queue.all, ∃ d ∈ (s.queues q).all, Follows s d d')
    (hforth : ∀ d ∈ (s.queues q).all, d.commands ≠ [] → ∃ d' ∈ queue.all, Follows s d d') :
    Ordered (s.setQueue q queue) := by
  have hnodup := (hsound q).nodup
  rw [setQueue_queues_self] at hnodup
  -- the names are old ones
  have hname : ∀ q' d', d' ∈ ((s.setQueue q queue).queues q').all →
      ∃ d ∈ (s.queues q').all, d'.signalSemaphore = d.signalSemaphore := by
    intro q' d' hd'
    by_cases heq : q' = q
    · subst heq
      rw [setQueue_queues_self] at hd'
      obtain ⟨d, hd, hfollows⟩ := hback d' hd'
      exact ⟨d, hd, hfollows.name⟩
    · rw [setQueue_queues_of_ne heq] at hd'
      exact ⟨d', hd', rfl⟩
  refine ⟨hsound, ?_, ?_, h.signalled, ?_, h.issued, h.bound, h.waits⟩
  · intro q'
    have hqueue : QueueOrdered s q' ((s.setQueue q queue).queues q').all := by
      by_cases heq : q' = q
      · subst heq
        rw [setQueue_queues_self]
        exact (h.queues q').move hnodup hback hforth
      · rw [setQueue_queues_of_ne heq]
        exact h.queues q'
    exact hqueue.mono hqueue.chained (List.Subset.refl _) (fun _ => id) (fun _ _ => .rfl) fun _ => .rfl
  · intro q'
    by_cases heq : q' = q
    · subst heq
      rw [setQueue_queues_self]
      exact hsorted
    · rw [setQueue_queues_of_ne heq]
      exact h.sorted q'
  · intro q₁ q₂ hne d₁ hd₁ d₂ hd₂
    obtain ⟨d₁', hd₁', heq₁⟩ := hname q₁ d₁ hd₁
    obtain ⟨d₂', hd₂', heq₂⟩ := hname q₂ d₂ hd₂
    rw [heq₁, heq₂]
    exact h.apart q₁ q₂ hne d₁' hd₁' d₂' hd₂'

theorem Ordered.cleanup : Ordered (s.cleanupCompletedCommandBuffers q) := by
  obtain ⟨done, rest, hrunning, hdone, heq⟩ :=
    cleanupLoop_eq (s.queues q).running (s.queues q).pending
  have hfollows : ∀ d, Follows s d { d with
      waitSemaphores := d.waitSemaphores.diff (done.map (·.signalSemaphore)) } := by
    refine fun d => ⟨⟨rfl, rfl, .inl, diff_subset .., ?_⟩, rfl, fun _ => .inr⟩
    intro w hw hsignalled
    refine mem_diff_of_mem hw fun hmem => hsignalled ?_
    obtain ⟨d', hd', rfl⟩ := mem_map.1 hmem
    exact (h.sound q).complete d' (by simp [hrunning, hd']) (hdone d' hd')
  have hsound : Sound (s.cleanupCompletedCommandBuffers q) := h.sound.cleanup
  rw [System.cleanupCompletedCommandBuffers, heq] at hsound ⊢
  refine h.move hsound ?_ ?_ ?_
  · exact pairwise_map.2 (h.sorted q)
  · intro d' hd'
    rcases mem_append.1 hd' with hp | hr
    · obtain ⟨d, hd, rfl⟩ := mem_map.1 hp
      exact ⟨d, mem_append_left _ hd, hfollows d⟩
    · exact ⟨d', mem_append_right _ (by simp [hrunning, show d' ∈ rest from hr]), .refl ..⟩
  · intro d hd hwork
    rcases mem_append.1 hd with hp | hr
    · exact ⟨_, mem_append_left _ (mem_map_of_mem hp), hfollows d⟩
    · rw [hrunning] at hr
      rcases mem_append.1 hr with hr | hr
      · exact absurd (hdone d hr) hwork
      · exact ⟨d, mem_append_right _ hr, .refl ..⟩

theorem Ordered.dispatch :
    Ordered (s.dispatch q ((s.queues q).ready.map (·.signalSemaphore))) := by
  -- a ready dispatch waits on no user event
  have hfollows : ∀ d ∈ (s.queues q).pending,
      d.signalSemaphore ∈ (s.queues q).ready.map (·.signalSemaphore) →
      Follows s d { d with waitEvents := [] } := by
    intro d hd hready
    refine ⟨⟨rfl, rfl, .inl, List.Subset.refl _, fun _ hw _ => hw⟩, rfl, fun u hu => ?_⟩
    have := (mem_filter.1 ((h.sound q).mem_ready hd hready)).2
    simpa [Event.isUserEvent] using all_eq_true.1 this _ hu
  refine h.move (h.sound.dispatch _) ((h.sorted q).sublist filter_sublist) ?_ ?_
  · intro d' hd'
    rcases mem_append.1 hd' with hp | hr
    · exact ⟨d', mem_append_left _ (mem_of_mem_filter hp), .refl ..⟩
    · rcases mem_append.1 hr with hold | hnew
      · exact ⟨d', mem_append_right _ hold, .refl ..⟩
      · obtain ⟨d, hd, rfl⟩ := mem_map.1 hnew
        obtain ⟨hp, hready⟩ := mem_filter.1 hd
        exact ⟨d, mem_append_left _ hp, hfollows d hp (of_decide_eq_true hready)⟩
  · intro d hd _
    rcases mem_append.1 hd with hp | hr
    · by_cases hready : d.signalSemaphore ∈ (s.queues q).ready.map (·.signalSemaphore)
      · refine ⟨{ d with waitEvents := [] }, ?_, hfollows d hp hready⟩
        refine mem_append_right _ (mem_append_right _ (mem_map.2 ⟨d, ?_, rfl⟩))
        exact mem_filter.2 ⟨hp, decide_eq_true hready⟩
      · refine ⟨d, mem_append_left _ (mem_filter.2 ⟨hp, ?_⟩), .refl ..⟩
        exact decide_eq_true hready
    · exact ⟨d, mem_append_right _ (mem_append_left _ hr), .refl ..⟩

theorem Ordered.flush [Fintype κ] : Ordered (s.flush q) :=
  flushFrom_induct (fun _ _ h => h.cleanup) (fun _ _ h => h.dispatch) h

/-! ### User events -/

omit h in
theorem flush_status [Fintype κ] (s : System κ) (q : κ) : (s.flush q).status = s.status :=
  flushFrom_induct (P := fun t => t.status = s.status) (fun _ _ h => h) (fun _ _ h => h) rfl

/-- A complete user event leaves the wait lists of the pending dispatches. -/
theorem Ordered.dispatchPending [Fintype κ] {u : Nat}
    (hcomplete : s.status (.user u) = .complete) : Ordered (s.dispatchPending q u) := by
  have hfollows : ∀ d, Follows s d { d with waitEvents := d.waitEvents.erase (.user u) } := by
    refine fun d => ⟨⟨rfl, rfl, .inl, List.Subset.refl _, fun _ hw _ => hw⟩, rfl, fun u' hu' => ?_⟩
    by_cases heq : u' = u
    · exact .inl (heq ▸ hcomplete)
    · exact .inr ((mem_erase_of_ne (by simpa using heq)).2 hu')
  have hsound : Sound (s.setQueue q ⟨(s.queues q).pending.map fun d =>
      { d with waitEvents := d.waitEvents.erase (.user u) }, (s.queues q).running⟩) :=
    h.sound.setQueue ((h.sound q).map_pending _ (fun _ => rfl) (fun _ => id)
      fun d hd u' hu' => (h.sound q).callbacks d hd u' (mem_of_mem_erase hu'))
  refine Ordered.flush (h.move hsound (pairwise_map.2 (h.sorted q)) ?_ ?_)
  · intro d' hd'
    rcases mem_append.1 hd' with hp | hr
    · obtain ⟨d, hd, rfl⟩ := mem_map.1 hp
      exact ⟨d, mem_append_left _ hd, hfollows d⟩
    · exact ⟨d', mem_append_right _ hr, .refl ..⟩
  · intro d hd _
    rcases mem_append.1 hd with hp | hr
    · exact ⟨_, mem_append_left _ (mem_map_of_mem hp), hfollows d⟩
    · exact ⟨d, mem_append_right _ hr, .refl ..⟩

theorem Ordered.userEventSet (u : Nat) : Ordered (s.userEventSet u .complete) where
  sound := h.sound.userEventSet u (by decide)
  queues q := by
    refine (h.queues q).mono (h.queues q).chained (List.Subset.refl _) (fun e he => ?_)
      (fun _ _ => .rfl) fun _ => .rfl
    show (if e ∈ [Event.user u] then Status.complete else s.status e) = .complete
    split
    · rfl
    · exact he
  sorted := h.sorted
  signalled := h.signalled
  apart := h.apart
  issued := h.issued
  bound := h.bound
  waits := h.waits

theorem Ordered.setUserEventStatus [Fintype κ] (u : Nat) :
    Ordered (s.setUserEventStatus u .complete) := by
  refine (setUserEventStatus_induct
    (P := fun t => Ordered t ∧ t.status (.user u) = .complete) ⟨h.userEventSet u, ?_⟩ ?_).1
  · exact if_pos (mem_singleton_self _)
  · rintro t q ⟨ht, hcomplete⟩
    rw [System.userEventDispatch]
    refine ⟨ht.dispatchPending hcomplete, ?_⟩
    rw [System.dispatchPending, flush_status]
    exact hcomplete

/-! ### The device -/

omit h in
theorem setRunning_all (hsound : Sound s) {d : Dispatch κ} (d' : Dispatch κ)
    (hd : d ∈ (s.queues q).running) (hname : d'.signalSemaphore = d.signalSemaphore) :
    ((s.setRunning q d').queues q).all = Chained.replace d' (s.queues q).all := by
  rw [System.setRunning, setQueue_queues_self]
  have hnodup := (hsound q).nodup
  rw [CommandQueue.all, map_append, nodup_append] at hnodup
  rw [CommandQueue.all, CommandQueue.all, Chained.replace_append, Chained.replace_of_ne]
  · rfl
  · intro x hx heq
    exact hnodup.2.2 _ (mem_map_of_mem hx) _ (mem_map_of_mem hd) (heq.trans hname)

theorem Ordered.startCommand {semaphore : Nat}
    (hstep : s.startCommand q semaphore = some t) : Ordered t := by
  have hsound := h.sound.startCommand hstep
  obtain ⟨d, event, hstartable, rfl⟩ := startCommand_some hstep
  obtain ⟨hd, -, -, hwaits, -⟩ := startable_some hstartable
  have hd' : d ∈ (s.queues q).all := mem_append_right _ hd
  have hfollows : Follows s d { d with busy := true } :=
    ⟨⟨rfl, rfl, fun _ => .inr hwaits, List.Subset.refl _, fun _ hw _ => hw⟩, rfl, fun _ => .inr⟩
  have hall := setRunning_all h.sound { d with busy := true } hd rfl
  rw [System.setRunning, setQueue_queues_self] at hall
  have hmem := Chained.mem_replace (d := { d with busy := true }) ⟨d, hd', rfl⟩
  refine h.move hsound (h.sorted q) ?_ ?_
  · intro x hx
    rw [hall] at hx
    rcases (hmem x).1 hx with rfl | ⟨hx, -⟩
    · exact ⟨d, hd', hfollows⟩
    · exact ⟨x, hx, .refl ..⟩
  · intro x hx _
    rw [hall]
    by_cases heq : x.signalSemaphore = d.signalSemaphore
    · obtain rfl := (h.sound q).eq_of_name hx hd' heq
      exact ⟨_, (hmem _).2 (.inl rfl), hfollows⟩
    · exact ⟨x, (hmem x).2 (.inr ⟨hx, heq⟩), .refl ..⟩

theorem Ordered.finishCommand {semaphore : Nat}
    (hstep : s.finishCommand q semaphore = some t) : Ordered t := by
  have hsound := h.sound.finishCommand hstep
  obtain ⟨d, c, rest, hd, -, hbusy, hcommands, rfl⟩ := finishCommand_some hstep
  have hd' : d ∈ (s.queues q).all := mem_append_right _ hd
  have hall : ((s.finishedCommand q d c rest).queues q).all =
      Chained.replace { d with commands := rest, busy := false } (s.queues q).all := by
    rw [finishedCommand_queues]
    exact setRunning_all h.sound _ hd rfl
  have hother : ∀ q', q' ≠ q → (s.finishedCommand q d c rest).queues q' = s.queues q' := by
    intro q' hne
    rw [finishedCommand_queues]
    exact setQueue_queues_of_ne hne _
  have hname : ∀ q' x, x ∈ ((s.finishedCommand q d c rest).queues q').all →
      ∃ x₀ ∈ (s.queues q').all, x.signalSemaphore = x₀.signalSemaphore := by
    intro q' x hx
    by_cases heq : q' = q
    · subst heq
      rw [hall] at hx
      rcases (Chained.mem_replace (d := { d with commands := rest, busy := false })
        ⟨d, hd', rfl⟩ x).1 hx with rfl | ⟨hx, -⟩
      · exact ⟨d, hd', rfl⟩
      · exact ⟨x, hx, rfl⟩
    · rw [hother q' heq] at hx
      exact ⟨x, hx, rfl⟩
  refine ⟨hsound, ?_, ?_, ?_, ?_, ?_, ?_, ?_⟩
  · intro q'
    by_cases heq : q' = q
    · subst heq
      rw [hall]
      exact (h.queues q').finish hd' hbusy hcommands
    · rw [hother q' heq]
      -- the semaphore is one of another queue
      refine (h.queues q').mono ?_ ?_ (fun e => finishedCommand_complete s q d c rest) ?_ ?_
      · rw [finishedCommand_signalled]
        split
        · exact (h.queues q').chained.signal fun x hx => h.apart q' q heq x hx d hd'
        · exact (h.queues q').chained
      · rw [finishedCommand_signalled]
        split
        · exact subset_append_left ..
        · exact List.Subset.refl _
      · intro id waitList
        rw [finishedCommand_issued]
      · intro id
        obtain ⟨-, id', -, rfl, -⟩ := (h.queues q).owned d hd' c (by simp [hcommands])
        rw [finishedCommand_finished]
        simp [heq]
  · intro q'
    rw [finishedCommand_queues]
    by_cases heq : q' = q
    · subst heq
      rw [System.setRunning, setQueue_queues_self]
      exact h.sorted q'
    · rw [System.setRunning, setQueue_queues_of_ne heq]
      exact h.sorted q'
  · intro w hw
    rw [finishedCommand_next]
    rw [finishedCommand_signalled] at hw
    split at hw
    · rcases mem_append.1 hw with hold | hnew
      · exact h.signalled w hold
      · rw [mem_singleton.1 hnew]
        exact (h.sound q).bound d hd'
    · exact h.signalled w hw
  · intro q₁ q₂ hne d₁ hd₁ d₂ hd₂
    obtain ⟨d₁', hd₁', heq₁⟩ := hname q₁ d₁ hd₁
    obtain ⟨d₂', hd₂', heq₂⟩ := hname q₂ d₂ hd₂
    rw [heq₁, heq₂]
    exact h.apart q₁ q₂ hne d₁' hd₁' d₂' hd₂'
  · rw [finishedCommand_issued]
    exact h.issued
  · rw [finishedCommand_issued, finishedCommand_next]
    exact h.bound
  · rw [finishedCommand_issued]
    exact h.waits

end

/-! ### Enqueuing -/

variable {waitList : List (Event κ)}

theorem validWaitList_issued
    (hvalid : s.validWaitList waitList = true) {id : Nat} (hmem : .command q id ∈ waitList) :
    ∃ waitList', (.command q id, waitList') ∈ s.issued := by
  have := all_eq_true.1 hvalid _ hmem
  simp only [Event.isUserEvent, Bool.false_or, Bool.and_eq_true, any_eq_true,
    decide_eq_true_eq] at this
  obtain ⟨-, ⟨event, waitList'⟩, hi, heq⟩ := this
  exact ⟨waitList', heq ▸ hi⟩

theorem record_queues_replace {pending : List (Dispatch κ)} {d : Dispatch κ} (hd : d ∈ pending)
    (hnames : (pending.map (·.signalSemaphore)).Nodup) (waitList : List (Event κ)) :
    (s.record q waitList d.signalSemaphore pending).queues q =
      ⟨Chained.replace (s.register waitList (.command q s.next) d) pending,
        (s.queues q).running⟩ := by
  rw [record_queues_self]
  congr 1
  refine map_congr_left fun x hx => ?_
  by_cases heq : x.signalSemaphore = d.signalSemaphore
  · rw [inj_on_of_nodup_map hnames hx hd heq]
    rfl
  · rw [if_neg heq]
    exact (if_neg heq).symm

/-- A command is recorded in the newest dispatch with work left, which may be a new one. -/
theorem Ordered.record (h : Ordered s)
    (hvalid : s.validWaitList waitList = true) {pending : List (Dispatch κ)} {d : Dispatch κ}
    (hsound : Sound (s.record q waitList d.signalSemaphore pending))
    (hqueue : QueueOrdered s q (pending ++ (s.queues q).running)) (hd : d ∈ pending)
    (hsorted : pending.Pairwise (·.signalSemaphore < ·.signalSemaphore))
    (hold : ∀ x ∈ pending, x ∈ (s.queues q).pending ∨ x.signalSemaphore = s.next)
    (hsignalled : d.signalSemaphore ∉ s.signalled)
    (hlast : ∀ x ∈ pending ++ (s.queues q).running, x.commands ≠ [] →
      x.signalSemaphore ≤ d.signalSemaphore)
    (hcovers : ∀ x ∈ pending ++ (s.queues q).running, x.commands ≠ [] →
      x.signalSemaphore < d.signalSemaphore → ∃ y ∈ pending ++ (s.queues q).running,
        y.commands ≠ [] ∧ y.signalSemaphore ∈ d.waitSemaphores ∧
          x.signalSemaphore ≤ y.signalSemaphore) :
    Ordered (s.record q waitList d.signalSemaphore pending) := by
  have hd' : d ∈ pending ++ (s.queues q).running := mem_append_left _ hd
  have hnodup := hqueue.chained.names
  rw [map_append, nodup_append] at hnodup
  have hself := record_queues_replace (s := s) (q := q) hd hnodup.1 waitList
  have hall : ((s.record q waitList d.signalSemaphore pending).queues q).all = Chained.replace
      (s.register waitList (.command q s.next) d) (pending ++ (s.queues q).running) := by
    rw [hself, Chained.replace_append]
    refine congrArg _ (Chained.replace_of_ne fun x hx heq => ?_).symm
    exact hnodup.2.2 _ (mem_map_of_mem hd) _ (mem_map_of_mem hx) heq.symm
  -- the names are old ones, or the new one
  have hname : ∀ q' x, x ∈ ((s.record q waitList d.signalSemaphore pending).queues q').all →
      (∃ x₀ ∈ (s.queues q').all, x.signalSemaphore = x₀.signalSemaphore) ∨
        q' = q ∧ x.signalSemaphore = s.next := by
    intro q' x hx
    by_cases heq : q' = q
    · subst heq
      have hx' := mem_map_of_mem (f := (·.signalSemaphore)) hx
      rw [hall, Chained.names_replace] at hx'
      obtain ⟨x₀, hx₀, hname⟩ := mem_map.1 hx'
      rw [← hname]
      rcases mem_append.1 hx₀ with hp | hr
      · rcases hold x₀ hp with hp | hnew
        · exact .inl ⟨x₀, mem_append_left _ hp, rfl⟩
        · exact .inr ⟨rfl, hnew⟩
      · exact .inl ⟨x₀, mem_append_right _ hr, rfl⟩
    · rw [record_queues_of_ne heq] at hx
      exact .inl ⟨x, hx, rfl⟩
  refine ⟨hsound, ?_, ?_, ?_, ?_, ?_, ?_, ?_⟩
  · intro q'
    by_cases heq : q' = q
    · subst heq
      rw [hall]
      exact hqueue.record h.bound hd' hsignalled hlast hcovers waitList _ _
    · rw [record_queues_of_ne heq]
      refine (h.queues q').mono (h.queues q').chained (List.Subset.refl _) (fun _ => id) ?_
        fun _ => .rfl
      intro id waitList'
      simp [System.record, heq]
  · intro q'
    by_cases heq : q' = q
    · subst heq
      rw [hself]
      refine pairwise_map.1 ?_
      rw [Chained.names_replace]
      exact pairwise_map.2 hsorted
    · rw [record_queues_of_ne heq]
      exact h.sorted q'
  · exact fun w hw => Nat.lt_succ_of_lt (h.signalled w hw)
  · intro q₁ q₂ hne d₁ hd₁ d₂ hd₂
    rcases hname q₁ d₁ hd₁ with ⟨d₁', hd₁', heq₁⟩ | ⟨rfl, heq₁⟩
    · rcases hname q₂ d₂ hd₂ with ⟨d₂', hd₂', heq₂⟩ | ⟨rfl, heq₂⟩
      · rw [heq₁, heq₂]
        exact h.apart q₁ q₂ hne d₁' hd₁' d₂' hd₂'
      · rw [heq₁, heq₂]
        exact Nat.ne_of_lt ((h.sound q₁).bound d₁' hd₁')
    · rcases hname q₂ d₂ hd₂ with ⟨d₂', hd₂', heq₂⟩ | ⟨rfl, -⟩
      · rw [heq₁, heq₂]
        exact Nat.ne_of_gt ((h.sound q₂).bound d₂' hd₂')
      · exact absurd rfl hne
  · refine pairwise_append.2 ⟨h.issued, pairwise_singleton _ _, ?_⟩
    intro i hi i' hi'
    rw [mem_singleton.1 hi']
    exact h.bound i hi
  · intro i hi
    rcases mem_append.1 hi with hi | hi
    · exact Nat.lt_succ_of_lt (h.bound i hi)
    · rw [mem_singleton.1 hi]
      exact Nat.lt_succ_self _
  · intro i hi q' id hid
    rcases mem_append.1 hi with hi | hi
    · obtain ⟨hlt, waitList', hi'⟩ := h.waits i hi q' id hid
      exact ⟨hlt, waitList', mem_append_left _ hi'⟩
    · rw [mem_singleton.1 hi] at hid ⊢
      obtain ⟨waitList', hi'⟩ := validWaitList_issued hvalid hid
      exact ⟨h.bound _ hi', waitList', mem_append_left _ hi'⟩

omit [DecidableEq κ] in
theorem le_last {pending : List (Dispatch κ)} {last x : Dispatch κ}
    (hsorted : pending.Pairwise (·.signalSemaphore < ·.signalSemaphore))
    (hlast : pending.getLast? = some last) (hx : x ∈ pending) :
    x.signalSemaphore ≤ last.signalSemaphore := by
  obtain ⟨front, rfl⟩ := getLast?_eq_some_iff.1 hlast
  rcases mem_append.1 hx with hfront | heq
  · exact ((pairwise_append.1 hsorted).2.2 x hfront last (mem_singleton_self _)).le
  · rw [mem_singleton.1 heq]

theorem Ordered.append (h : Ordered s)
    (hvalid : s.validWaitList waitList = true) {last : Dispatch κ}
    (hlast : (s.queues q).pending.getLast? = some last)
    (hnewest : ∀ d ∈ (s.queues q).running, d.commands ≠ [] →
      d.signalSemaphore < last.signalSemaphore) :
    Ordered (s.record q waitList last.signalSemaphore (s.queues q).pending) := by
  have hmem : last ∈ (s.queues q).pending := mem_of_getLast? hlast
  have hmem' : last ∈ (s.queues q).all := mem_append_left _ hmem
  have hwork := (h.sound q).recorded last hmem
  refine h.record hvalid (h.sound.append waitList _) (h.queues q) hmem (h.sorted q)
    (fun x => .inl) ((h.queues q).chained.unsignalled last hmem' hwork) ?_
    ((h.queues q).chained.covers last hmem' hwork)
  intro x hx hwork'
  rcases mem_append.1 hx with hp | hr
  · exact le_last (h.sorted q) hlast hp
  · exact (hnewest x hr hwork').le

theorem Ordered.create (h : Ordered s)
    (hvalid : s.validWaitList waitList = true) {waitSemaphores : List Nat} {isUser : Bool}
    (hwaits : ∀ x ∈ (s.queues q).all, x.commands ≠ [] → ∃ y ∈ (s.queues q).all,
      y.commands ≠ [] ∧ y.signalSemaphore ∈ waitSemaphores ∧
        x.signalSemaphore ≤ y.signalSemaphore) :
    Ordered (s.record q waitList s.next
      ((s.queues q).pending ++ [s.newDispatch waitSemaphores isUser])) := by
  have hperm : ((s.queues q).pending ++ [s.newDispatch waitSemaphores isUser] ++
      (s.queues q).running).Perm (s.newDispatch waitSemaphores isUser :: (s.queues q).all) := by
    rw [append_assoc]
    exact perm_middle
  have hold {x : Dispatch κ} (hx : x ∈ (s.queues q).pending ++
      [s.newDispatch waitSemaphores isUser] ++ (s.queues q).running) (hwork : x.commands ≠ []) :
      x ∈ (s.queues q).all :=
    (mem_cons.1 (hperm.mem_iff.1 hx)).resolve_left fun heq => hwork (heq ▸ rfl)
  have hqueue := (h.queues q).insert (fun x hx => Nat.ne_of_lt ((h.sound q).bound x hx)) rfl rfl hperm
  refine h.record (d := s.newDispatch waitSemaphores isUser) hvalid
    (h.sound.create waitList waitSemaphores isUser) hqueue (by simp) ?_ ?_ ?_ ?_ ?_
  · refine pairwise_append.2 ⟨h.sorted q, pairwise_singleton _ _, ?_⟩
    intro x hx y hy
    rw [mem_singleton.1 hy]
    exact (h.sound q).bound x (mem_append_left _ hx)
  · intro x hx
    rcases mem_append.1 hx with hp | hnew
    · exact .inl hp
    · rw [mem_singleton.1 hnew]
      exact .inr rfl
  · exact fun hmem => Nat.lt_irrefl _ (h.signalled _ hmem)
  · exact fun x hx hwork => ((h.sound q).bound x (hold hx hwork)).le
  · intro x hx hwork _
    obtain ⟨y, hy, hy'⟩ := hwaits x (hold hx hwork) hwork
    exact ⟨y, hperm.mem_iff.2 (mem_cons_of_mem _ hy), hy'⟩

theorem mem_dependentSemaphores_last {last : Dispatch κ}
    (hlast : (s.queues q).pending.getLast? = some last) (waitList : List (Event κ)) :
    last.signalSemaphore ∈ s.dependentSemaphores q waitList
      ((s.dependentDispatches q waitList).destutter (· ≠ ·)) := by
  have hmem : (last.signalSemaphore, q) ∈
      (s.dependentDispatches q waitList).destutter (· ≠ ·) := by
    rw [mem_destutter_ne, System.dependentDispatches, hlast]
    simp
  refine mem_flatMap.2 ⟨q, by simp, ?_⟩
  rw [if_pos (any_eq_true.2 ⟨_, hmem, by simp⟩)]
  exact mem_map.2 ⟨_, mem_filter.2 ⟨hmem, by simp⟩, rfl⟩

theorem mem_dependentSemaphores_running (hpending : (s.queues q).pending = [])
    (waitList : List (Event κ)) {d : Dispatch κ} (hd : d ∈ (s.queues q).running) :
    d.signalSemaphore ∈ s.dependentSemaphores q waitList
      ((s.dependentDispatches q waitList).destutter (· ≠ ·)) := by
  refine mem_flatMap.2 ⟨q, by simp, ?_⟩
  rw [if_neg]
  · exact mem_map_of_mem hd
  · -- the dependent dispatches are those of other queues
    intro hany
    obtain ⟨⟨w, q'⟩, hmem, heq⟩ := any_eq_true.1 hany
    obtain rfl : q' = q := of_decide_eq_true heq
    rw [mem_destutter_ne, System.dependentDispatches, hpending] at hmem
    obtain ⟨event, -, hevent⟩ := mem_flatMap.1 ((mem_append.1 hmem).resolve_left (by simp))
    cases event with
    | user => cases hevent
    | command =>
      simp only [CommandQueue.signallers, hpending] at hevent
      split at hevent
      · obtain ⟨w', -, heq⟩ := mem_map.1 hevent
        exact absurd (Prod.mk.inj heq).2 ‹_›
      · cases hevent

theorem Ordered.enqueue (h : Ordered s) (hvalid : s.validWaitList waitList = true)
    (hnewest : LastIsNewest s (.enqueue q waitList)) : Ordered (s.enqueue q waitList) := by
  unfold System.enqueue
  rcases getCommandBufferPending_cases s q waitList with ⟨last, hlast, -, heq⟩ | heq
  · rw [heq]
    exact h.append hvalid hlast (hnewest last hlast)
  · rw [heq]
    refine h.create hvalid fun x hx hwork => ?_
    simp only [mem_destutter_ne]
    cases hlast : (s.queues q).pending.getLast? with
    | some last =>
      have hmem : last ∈ (s.queues q).pending := mem_of_getLast? hlast
      refine ⟨last, mem_append_left _ hmem, (h.sound q).recorded last hmem,
        mem_dependentSemaphores_last hlast waitList, ?_⟩
      rcases mem_append.1 hx with hp | hr
      · exact le_last (h.sorted q) hlast hp
      · exact (hnewest last hlast x hr hwork).le
    | none =>
      have hpending := getLast?_eq_none_iff.1 hlast
      have hr : x ∈ (s.queues q).running := by
        rw [CommandQueue.all, hpending] at hx
        exact hx
      exact ⟨x, hx, hwork, mem_dependentSemaphores_running hpending waitList hr, le_rfl⟩

/-- A user's command buffer waits on the last pending dispatch and on all that run, so that it does
not matter which is newer. -/
theorem Ordered.enqueueCommandBuffer (h : Ordered s)
    (hvalid : s.validWaitList waitList = true) : Ordered (s.enqueueCommandBuffer q waitList) := by
  refine h.create hvalid fun x hx hwork => ?_
  rcases mem_append.1 hx with hp | hr
  · cases hlast : (s.queues q).pending.getLast? with
    | none =>
      rw [getLast?_eq_none_iff.1 hlast] at hp
      cases hp
    | some last =>
      have hmem : last ∈ (s.queues q).pending := mem_of_getLast? hlast
      exact ⟨last, mem_append_left _ hmem, (h.sound q).recorded last hmem, by simp,
        le_last (h.sorted q) hlast hp⟩
  · exact ⟨x, hx, hwork, mem_append_right _ (mem_map_of_mem hr), le_rfl⟩

/-! ### Runs -/

theorem ordered_step [Fintype κ] {call : Call κ} (allowed : Successful call ∧ LastIsNewest s call)
    (hstep : s.step call = some t) (h : Ordered s) : Ordered t := by
  cases call with
  | enqueue =>
    obtain ⟨hvalid, ⟨⟩⟩ := Option.ite_none_right_eq_some.1 hstep
    exact h.enqueue hvalid allowed.2
  | enqueueCommandBuffer =>
    obtain ⟨hvalid, ⟨⟩⟩ := Option.ite_none_right_eq_some.1 hstep
    exact h.enqueueCommandBuffer hvalid
  | flush => exact Option.some.inj hstep ▸ h.flush
  | cleanup => exact Option.some.inj hstep ▸ h.cleanup
  | setUserEventStatus u status =>
    obtain ⟨-, ⟨⟩⟩ := Option.ite_none_right_eq_some.1 hstep
    obtain rfl : status = .complete := allowed.1
    exact h.setUserEventStatus u
  | start => exact h.startCommand hstep
  | finish => exact h.finishCommand hstep

/-- In a run in which user events complete with success, and commands are enqueued only when the
last pending dispatch is the newest one, every queue is in order. -/
theorem inOrder_of_runs [Fintype κ]
    (run : Runs System.step (fun s call => Successful call ∧ LastIsNewest s call) System.init s) :
    InOrder s :=
  (run.invariant ordered_step ordered_init).inOrder

end Steps

/-- The second of two commands waits on a user event, and on the first one. -/
theorem inOrder_second_started : ∃ s : System Unit,
    Runs System.step (fun s call => Successful call ∧ LastIsNewest s call) System.init s ∧
      (s.startable () 1).map (·.2) = some (.command () 1) ∧ InOrder s :=
  have run := Runs.follow_getD System.step
    (fun s call => Successful call ∧ LastIsNewest s call) (System.init : System Unit)
    [.enqueue () [], .enqueue () [.user 1, .command () 0], .flush (), .start () 0, .finish () 0,
      .setUserEventStatus 1 .complete] System.init (by decide)
  ⟨_, run, by decide, inOrder_of_runs run⟩

/-- The second of two dispatches is dispatched first.  The third command then goes to the first
dispatch, and can start before the second command has. -/
theorem inOrder_fails : ∃ s : System Unit,
    Runs System.step (fun _ call => Successful call) System.init s ∧ ¬InOrder s := by
  have run := Runs.follow_getD System.step (fun _ call => Successful call)
    (System.init : System Unit)
    [.enqueue () [.user 1], .enqueue () [.user 2], .setUserEventStatus 2 .complete,
      .enqueue () [], .setUserEventStatus 1 .complete, .start () 0, .finish () 0]
    System.init (by decide)
  refine ⟨_, run, fun h => ?_⟩
  have hfinished := ((h () 0 _ (.command () 2) rfl).2
    [(.command () 0, [.user 1]), (.command () 1, [.user 2])] [] [] rfl).1 _
    (mem_cons_of_mem _ (mem_cons_self ..)) 1 rfl
  exact absurd hfinished (by decide)

end ConstructionKit.Queue
