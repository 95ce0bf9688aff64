import ConstructionKit.Queue.Chain
import ConstructionKit.Queue.Sound

/-! A queue whose dispatches are a chain that holds exactly its unfinished commands, each with what
it waits on, and what the steps of the queue keep of that. -/

namespace ConstructionKit.Queue

open List

variable {κ : Type}

structure QueueOrdered (s : System κ) (q : κ) (ds : List (Dispatch κ)) : Prop where
  chained : Chained s.signalled ds
  owned : ∀ d ∈ ds, ∀ c ∈ d.commands, c ∈ d.signalEvents ∧
    ∃ id waitList, c = .command q id ∧ (c, waitList) ∈ s.issued
  located : ∀ id waitList, (.command q id, waitList) ∈ s.issued →
    .command q id ∈ s.finished ∨ ∃ d ∈ ds, .command q id ∈ d.commands
  users : ∀ d ∈ ds, ∀ c ∈ d.commands, ∀ waitList, (c, waitList) ∈ s.issued →
    ∀ u, .user u ∈ waitList → s.status (.user u) = .complete ∨ .user u ∈ d.waitEvents
  published : ∀ id, .command q id ∈ s.finished → s.status (.command q id) = .complete ∨
    ∃ d ∈ ds, d.commands ≠ [] ∧ .command q id ∈ d.signalEvents ∧
      ∀ w ∈ d.waitSemaphores, w ∈ s.signalled

/-- `d'` is `d` after a step that is not one of the device. -/
structure Follows (s : System κ) (d d' : Dispatch κ) : Prop
    extends Chained.Same s.signalled d d' where
  signals : d'.signalEvents = d.signalEvents
  events : ∀ u, .user u ∈ d.waitEvents → s.status (.user u) = .complete ∨ .user u ∈ d'.waitEvents

theorem Follows.refl (s : System κ) (d : Dispatch κ) : Follows s d d :=
  ⟨.refl .., rfl, fun _ => .inr⟩

namespace QueueOrdered

variable {s t : System κ} {q : κ} {ds ds' : List (Dispatch κ)}

section

variable (h : QueueOrdered s q ds)
include h

theorem mono (hchained : Chained t.signalled ds)
    (hsignalled : s.signalled ⊆ t.signalled)
    (hstatus : ∀ e, s.status e = .complete → t.status e = .complete)
    (hissued : ∀ id waitList, (.command q id, waitList) ∈ t.issued ↔
      (.command q id, waitList) ∈ s.issued)
    (hfinished : ∀ id, .command q id ∈ t.finished ↔ .command q id ∈ s.finished) :
    QueueOrdered t q ds where
  chained := hchained
  owned d hd c hc := by
    obtain ⟨hsignals, id, waitList, rfl, hmem⟩ := h.owned d hd c hc
    exact ⟨hsignals, id, waitList, rfl, (hissued id waitList).2 hmem⟩
  located id waitList hmem :=
    (h.located id waitList ((hissued id waitList).1 hmem)).imp_left (hfinished id).2
  users d hd c hc waitList hmem u hu := by
    obtain ⟨-, id, -, rfl, -⟩ := h.owned d hd c hc
    exact (h.users d hd _ hc waitList ((hissued id waitList).1 hmem) u hu).imp_left (hstatus _)
  published id hmem := by
    refine (h.published id ((hfinished id).1 hmem)).imp (hstatus _) ?_
    rintro ⟨d, hd, hwork, hsignals, hwaits⟩
    exact ⟨d, hd, hwork, hsignals, fun w hw => hsignalled (hwaits w hw)⟩

theorem move (hnames : (ds'.map (·.signalSemaphore)).Nodup)
    (hback : ∀ d' ∈ ds', ∃ d ∈ ds, Follows s d d')
    (hforth : ∀ d ∈ ds, d.commands ≠ [] → ∃ d' ∈ ds', Follows s d d') : QueueOrdered s q ds' where
  chained := by
    refine h.chained.of_same hnames ?_ ?_
    · intro d' hd'
      obtain ⟨d, hd, hfollows⟩ := hback d' hd'
      exact ⟨d, hd, hfollows.toSame⟩
    · intro d hd hwork
      obtain ⟨d', hd', hfollows⟩ := hforth d hd hwork
      exact ⟨d', hd', hfollows.toSame⟩
  owned d' hd' c hc := by
    obtain ⟨d, hd, hfollows⟩ := hback d' hd'
    rw [hfollows.signals]
    exact h.owned d hd c (hfollows.commands ▸ hc)
  located id waitList hmem := by
    refine (h.located id waitList hmem).imp_right ?_
    rintro ⟨d, hd, hc⟩
    obtain ⟨d', hd', hfollows⟩ := hforth d hd (ne_nil_of_mem hc)
    exact ⟨d', hd', hfollows.commands ▸ hc⟩
  users d' hd' c hc waitList hmem u hu := by
    obtain ⟨d, hd, hfollows⟩ := hback d' hd'
    rcases h.users d hd c (hfollows.commands ▸ hc) waitList hmem u hu with hcomplete | hwait
    · exact .inl hcomplete
    · exact hfollows.events u hwait
  published id hmem := by
    refine (h.published id hmem).imp_right ?_
    rintro ⟨d, hd, hwork, hsignals, hwaits⟩
    obtain ⟨d', hd', hfollows⟩ := hforth d hd hwork
    exact ⟨d', hd', hfollows.commands ▸ hwork, hfollows.signals ▸ hsignals,
      fun w hw => hwaits w (hfollows.waits hw)⟩

theorem finish [DecidableEq κ] {d : Dispatch κ} (hd : d ∈ ds)
    (hbusy : d.busy = true) {c : Event κ} {rest : List (Event κ)}
    (hcommands : d.commands = c :: rest) :
    QueueOrdered (s.finishedCommand q d c rest) q
      (Chained.replace { d with commands := rest, busy := false } ds) := by
  have hmem := Chained.mem_replace (d := { d with commands := rest, busy := false }) ⟨d, hd, rfl⟩
  have hstatus : ∀ e, s.status e = .complete → (s.finishedCommand q d c rest).status e = .complete :=
    fun e => finishedCommand_complete s q d c rest
  have hissued : (s.finishedCommand q d c rest).issued = s.issued := finishedCommand_issued ..
  have hfinished : (s.finishedCommand q d c rest).finished = s.finished ++ [c] :=
    finishedCommand_finished ..
  have hsignalled : s.signalled ⊆ (s.finishedCommand q d c rest).signalled := by
    rw [finishedCommand_signalled]
    split
    · exact subset_append_left ..
    · exact List.Subset.refl _
  have hback : ∀ x ∈ Chained.replace { d with commands := rest, busy := false } ds, ∃ x₀ ∈ ds,
      x.commands ⊆ x₀.commands ∧ x.signalEvents = x₀.signalEvents ∧
        x.waitEvents = x₀.waitEvents := by
    intro x hx
    rcases (hmem x).1 hx with rfl | ⟨hx, -⟩
    · exact ⟨d, hd, hcommands ▸ subset_cons_self .., rfl, rfl⟩
    · exact ⟨x, hx, List.Subset.refl _, rfl, rfl⟩
  -- an event that the dispatch signals is complete, or the dispatch has work left
  have hpublished : ∀ e ∈ d.signalEvents, (s.finishedCommand q d c rest).status e = .complete ∨
      ∃ x ∈ Chained.replace { d with commands := rest, busy := false } ds, x.commands ≠ [] ∧
        e ∈ x.signalEvents ∧
        ∀ w ∈ x.waitSemaphores, w ∈ (s.finishedCommand q d c rest).signalled := by
    intro e he
    by_cases hrest : rest = []
    · exact .inl (finishedCommand_signals s q d c hrest he)
    · exact .inr ⟨_, (hmem _).2 (.inl rfl), hrest, he,
        fun w hw => hsignalled (h.chained.begun d hd hbusy w hw)⟩
  refine ⟨?_, ?_, ?_, ?_, ?_⟩
  · rw [finishedCommand_signalled]
    exact h.chained.finish hd hbusy hcommands
  · intro x hx c' hc'
    obtain ⟨x₀, hx₀, hsub, hsignals, -⟩ := hback x hx
    rw [hsignals, hissued]
    exact h.owned x₀ hx₀ c' (hsub hc')
  · intro id waitList hid
    rw [hissued] at hid
    rw [hfinished, mem_append, mem_singleton]
    rcases h.located id waitList hid with hdone | ⟨x, hx, hc'⟩
    · exact .inl (.inl hdone)
    · by_cases heq : x.signalSemaphore = d.signalSemaphore
      · obtain rfl := h.chained.eq_of_name hx hd heq
        rw [hcommands] at hc'
        rcases mem_cons.1 hc' with heq' | hrest
        · exact .inl (.inr heq')
        · exact .inr ⟨_, (hmem _).2 (.inl rfl), hrest⟩
      · exact .inr ⟨x, (hmem x).2 (.inr ⟨hx, heq⟩), hc'⟩
  · intro x hx c' hc' waitList hid u hu
    obtain ⟨x₀, hx₀, hsub, -, hevents⟩ := hback x hx
    rw [hissued] at hid
    rw [hevents]
    exact (h.users x₀ hx₀ c' (hsub hc') waitList hid u hu).imp_left (hstatus _)
  · intro id hid
    rw [hfinished, mem_append, mem_singleton] at hid
    rcases hid with hdone | heq
    · rcases h.published id hdone with hcomplete | ⟨x, hx, hwork, hsignals, hwaits⟩
      · exact .inl (hstatus _ hcomplete)
      · by_cases heq : x.signalSemaphore = d.signalSemaphore
        · obtain rfl := h.chained.eq_of_name hx hd heq
          exact hpublished _ hsignals
        · exact .inr ⟨x, (hmem x).2 (.inr ⟨hx, heq⟩), hwork, hsignals,
            fun w hw => hsignalled (hwaits w hw)⟩
    · exact hpublished _ (heq ▸ (h.owned d hd c (by simp [hcommands])).1)

theorem insert {d : Dispatch κ}
    (hname : ∀ x ∈ ds, x.signalSemaphore ≠ d.signalSemaphore) (hcommands : d.commands = [])
    (hbusy : d.busy = false) (hperm : ds'.Perm (d :: ds)) : QueueOrdered s q ds' := by
  have hold {x : Dispatch κ} (hx : x ∈ ds') {c : Event κ} (hc : c ∈ x.commands) : x ∈ ds := by
    refine (mem_cons.1 (hperm.mem_iff.1 hx)).resolve_left ?_
    rintro rfl
    rw [hcommands] at hc
    cases hc
  have hnew {x : Dispatch κ} (hx : x ∈ ds) : x ∈ ds' :=
    hperm.mem_iff.2 (mem_cons_of_mem _ hx)
  refine ⟨h.chained.insert hname hcommands hbusy hperm, fun d hd c hc => h.owned d (hold hd hc) c hc,
    ?_, fun d hd c hc => h.users d (hold hd hc) c hc, ?_⟩
  · intro id waitList hid
    refine (h.located id waitList hid).imp_right ?_
    rintro ⟨x, hx, hc⟩
    exact ⟨x, hnew hx, hc⟩
  · intro id hid
    refine (h.published id hid).imp_right ?_
    rintro ⟨x, hx, hx'⟩
    exact ⟨x, hnew hx, hx'⟩

theorem record [DecidableEq κ]
    (hbound : ∀ i ∈ s.issued, i.1.rank < s.next) {d : Dispatch κ} (hd : d ∈ ds)
    (hsignalled : d.signalSemaphore ∉ s.signalled)
    (hlast : ∀ x ∈ ds, x.commands ≠ [] → x.signalSemaphore ≤ d.signalSemaphore)
    (hcovers : ∀ x ∈ ds, x.commands ≠ [] → x.signalSemaphore < d.signalSemaphore →
      ∃ y ∈ ds, y.commands ≠ [] ∧ y.signalSemaphore ∈ d.waitSemaphores ∧
        x.signalSemaphore ≤ y.signalSemaphore)
    (waitList : List (Event κ)) (commandBuffer : Nat) (pending : List (Dispatch κ)) :
    QueueOrdered (s.record q waitList commandBuffer pending) q
      (Chained.replace (s.register waitList (.command q s.next) d) ds) := by
  have hmem := Chained.mem_replace (d := s.register waitList (.command q s.next) d) ⟨d, hd, rfl⟩
  have hissued (i : Event κ × List (Event κ)) :
      i ∈ (s.record q waitList commandBuffer pending).issued ↔
        i ∈ s.issued ∨ i = (.command q s.next, waitList) := by
    simp only [System.record, mem_append, mem_singleton]
  have hrank : ∀ x ∈ ds, ∀ c ∈ x.commands, c.rank < (Event.command q s.next).rank := by
    intro x hx c hc
    obtain ⟨-, -, waitList', -, hi⟩ := h.owned x hx c hc
    exact hbound _ hi
  refine ⟨h.chained.record hd hsignalled hlast hcovers hrank _ _, ?_, ?_, ?_, ?_⟩
  · intro x hx c hc
    have hold {x₀ : Dispatch κ} (hx₀ : x₀ ∈ ds) (hc₀ : c ∈ x₀.commands) := h.owned x₀ hx₀ c hc₀
    rcases (hmem x).1 hx with rfl | ⟨hx', -⟩
    · rcases mem_append.1 hc with hc₀ | hnew
      · obtain ⟨hsignals, id, waitList', heq, hi⟩ := hold hd hc₀
        exact ⟨mem_append_left _ hsignals, id, waitList', heq, (hissued _).2 (.inl hi)⟩
      · obtain rfl := mem_singleton.1 hnew
        exact ⟨mem_append_right _ hnew, s.next, waitList, rfl, (hissued _).2 (.inr rfl)⟩
    · obtain ⟨hsignals, id, waitList', heq, hi⟩ := hold hx' hc
      exact ⟨hsignals, id, waitList', heq, (hissued _).2 (.inl hi)⟩
  · intro id waitList' hi
    rcases (hissued _).1 hi with hi | heq
    · refine (h.located id waitList' hi).imp_right ?_
      rintro ⟨x, hx, hc⟩
      by_cases heq : x.signalSemaphore = d.signalSemaphore
      · obtain rfl := h.chained.eq_of_name hx hd heq
        exact ⟨_, (hmem _).2 (.inl rfl), mem_append_left _ hc⟩
      · exact ⟨x, (hmem x).2 (.inr ⟨hx, heq⟩), hc⟩
    · rw [(Prod.mk.inj heq).1]
      exact .inr ⟨_, (hmem _).2 (.inl rfl), mem_append_right _ (mem_singleton_self _)⟩
  · intro x hx c hc waitList' hi u hu
    -- a command recorded before keeps its wait list
    have hold {x₀ : Dispatch κ} (hx₀ : x₀ ∈ ds) (hc₀ : c ∈ x₀.commands) :
        s.status (.user u) = .complete ∨ .user u ∈ x₀.waitEvents := by
      refine h.users x₀ hx₀ c hc₀ waitList' (((hissued _).1 hi).resolve_right fun heq => ?_) u hu
      have := hrank x₀ hx₀ c hc₀
      rw [(Prod.mk.inj heq).1] at this
      exact Nat.lt_irrefl _ this
    rcases (hmem x).1 hx with rfl | ⟨hx', -⟩
    · rcases mem_append.1 hc with hc₀ | hnew
      · exact (hold hd hc₀).imp_right (mem_append_left _)
      · obtain rfl := mem_singleton.1 hnew
        rcases (hissued _).1 hi with hi | heq
        · exact absurd (hbound _ hi) (Nat.lt_irrefl _)
        · by_cases hcomplete : s.status (.user u) = .complete
          · exact .inl hcomplete
          · refine .inr (mem_append_right _ (mem_filter.2 ⟨?_, by simp [hcomplete]⟩))
            rw [← (Prod.mk.inj heq).2]
            exact hu
    · exact hold hx' hc
  · intro id hid
    refine (h.published id hid).imp_right ?_
    rintro ⟨x, hx, hwork, hsignals, hwaits⟩
    by_cases heq : x.signalSemaphore = d.signalSemaphore
    · obtain rfl := h.chained.eq_of_name hx hd heq
      exact ⟨_, (hmem _).2 (.inl rfl), by simp [System.register],
        mem_append_left _ hsignals, hwaits⟩
    · exact ⟨x, (hmem x).2 (.inr ⟨hx, heq⟩), hwork, hsignals, hwaits⟩

end

end QueueOrdered

end ConstructionKit.Queue
