import ConstructionKit.Ur.Queue
import ConstructionKit.ProofKit.Runs
import ConstructionKit.ProofKit.Unique

/-! What the dispatches of the Unified Runtime wait on: enough, and when no released event. -/

namespace ConstructionKit.Ur

open ProofKit List Function

/-! ### The property -/

/-- A dispatch that signals `e` waits on `e'`. -/
def System.WaitsOn (s : System) (e e' : Event) : Prop :=
  ∃ k, ∃ d ∈ (s.queues k).dispatches, d.signalEvent = e ∧ e' ∈ d.waitSemaphores

/-- What a dispatch of queue `k` has to wait for: the earlier commands of the queue and the events it
was given. -/
def System.MustWait (s : System) (k : Nat) (d : Dispatch) (e : Event) : Prop :=
  (e < d.signalEvent ∧ ∃ command, s.enqueued[e]? = some command ∧ command.queue = k) ∨
    ∃ command, s.enqueued[d.signalEvent]? = some command ∧ e ∈ command.waitEvents

structure System.Sound (s : System) : Prop where
  complete : ∀ k, ∀ d ∈ (s.queues k).dispatches, ∀ e, s.MustWait k d e → e ∉ s.finished →
    Relation.TransGen s.WaitsOn d.signalEvent e
  live : ∀ k, ∀ d ∈ (s.queues k).dispatches, ∀ e ∈ d.waitSemaphores, e ∉ (s.queues k).released

def System.Works (s : System) (label : Step) : Prop :=
  ∃ s', s.step label = some s' ∧ s'.Sound

/-! ### One queue -/

variable {k : Nat} {enqueued : List Enqueued} {finished : List Event} {q : Queue} {d : Dispatch}
  {e : Event} {running : List Dispatch}

/-- What holds of queue `k`. -/
structure Queue.Valid (k : Nat) (enqueued : List Enqueued) (finished : List Event) (q : Queue) :
    Prop where
  given : ∀ d ∈ q.dispatches, ∃ command, enqueued[d.signalEvent]? = some command ∧ command.queue = k ∧
    ∀ e ∈ command.waitEvents, e ∈ d.waitSemaphores ∨ e ∈ finished
  sorted : (q.dispatches.map (·.signalEvent)).Pairwise (· < ·)
  left : ∀ e command, enqueued[e]? = some command → command.queue = k →
    e ∈ finished ∨ e ∈ q.dispatches.map (·.signalEvent)
  chained : q.dispatches.IsChain fun d d' => d.signalEvent ∈ d'.waitSemaphores
  gone : ∀ e ∈ q.dispatches.map (·.signalEvent), e ∉ q.completedEvents ∧ e ∉ q.released
  known : ∀ e ∈ q.completedEvents ++ q.released, e < enqueued.length

theorem Queue.create_valid : Queue.create.Valid k [] [] where
  given := nofun
  sorted := .nil
  left := nofun
  chained := .nil
  gone := nofun
  known := nofun

theorem Queue.Valid.signalEvent_lt (hq : q.Valid k enqueued finished)
    (hd : d ∈ q.dispatches) : d.signalEvent < enqueued.length := by
  obtain ⟨command, hcommand, -⟩ := hq.given d hd
  exact (List.getElem?_eq_some_iff.1 hcommand).1

/-! ### Steps -/

theorem Queue.dispatches_getCommandBuffer (q : Queue) (signalEvent : Event)
    (waitEvents : List Event) :
    (q.getCommandBuffer signalEvent waitEvents).dispatches =
      q.dispatches ++ [⟨(q.waitSemaphores waitEvents).destutter (· ≠ ·), signalEvent⟩] :=
  (append_assoc ..).symm

/-- A new dispatch waits on the last one. -/
theorem Queue.getLast_mem_waitSemaphores (hd : q.dispatches.getLast? = some d)
    (waitEvents : List Event) : d.signalEvent ∈ q.waitSemaphores waitEvents := by
  rw [dispatches, getLast?_append] at hd
  rw [waitSemaphores, append_assoc, mem_append, mem_append, mem_map]
  cases hlast : q.pendingDispatches.getLast? with
  | some =>
    rw [hlast] at hd
    cases hd
    exact .inl mem_cons_self
  | none =>
    rw [hlast] at hd
    exact .inr (.inl ⟨d, mem_of_getLast? hd, rfl⟩)

theorem getElem?_concat_cases {command command' : Enqueued}
    (he : (enqueued ++ [command])[e]? = some command') :
    enqueued[e]? = some command' ∨ e = enqueued.length ∧ command' = command := by
  by_cases hlt : e < enqueued.length
  · rw [getElem?_append_left hlt] at he
    exact .inl he
  · have hlength := (List.getElem?_eq_some_iff.1 he).1
    rw [length_append] at hlength
    obtain rfl : e = enqueued.length :=
      Nat.le_antisymm (Nat.le_of_lt_succ hlength) (Nat.le_of_not_lt hlt)
    rw [getElem?_concat_length] at he
    exact .inr ⟨rfl, (Option.some.inj he).symm⟩

theorem Queue.Valid.getCommandBuffer (hq : q.Valid k enqueued finished) (waitEvents : List Event) :
    (q.getCommandBuffer enqueued.length waitEvents).Valid k (enqueued ++ [⟨k, waitEvents⟩])
      finished := by
  have hold : ∀ {e : Event} {command : Enqueued}, enqueued[e]? = some command →
      (enqueued ++ [⟨k, waitEvents⟩])[e]? = some command := fun {e command} he => by
    rw [getElem?_append_left (List.getElem?_eq_some_iff.1 he).1]
    exact he
  constructor
  · intro d hd
    rw [Queue.dispatches_getCommandBuffer, mem_append, mem_singleton] at hd
    rcases hd with hd | rfl
    · obtain ⟨command, hcommand, hrest⟩ := hq.given d hd
      exact ⟨command, hold hcommand, hrest⟩
    · refine ⟨_, getElem?_concat_length, rfl, fun e he => .inl (mem_destutter_ne.2 ?_)⟩
      exact mem_append_right _ he
  · rw [Queue.dispatches_getCommandBuffer, map_append, pairwise_append]
    refine ⟨hq.sorted, pairwise_singleton .., fun e he e' he' => ?_⟩
    obtain ⟨d, hd, rfl⟩ := mem_map.1 he
    rw [map_singleton, mem_singleton] at he'
    rw [he']
    exact hq.signalEvent_lt hd
  · intro e command he hk
    rw [Queue.dispatches_getCommandBuffer, map_append, mem_append]
    rcases getElem?_concat_cases he with he | ⟨rfl, -⟩
    · exact (hq.left e command he hk).imp_right .inl
    · exact .inr (.inr mem_cons_self)
  · rw [Queue.dispatches_getCommandBuffer]
    refine hq.chained.append (isChain_singleton _) fun d hd d' hd' => ?_
    cases hd'
    exact mem_destutter_ne.2 (Queue.getLast_mem_waitSemaphores hd waitEvents)
  · intro e he
    rw [Queue.dispatches_getCommandBuffer, map_append, mem_append] at he
    rcases he with he | he
    · exact hq.gone e he
    · rw [map_singleton, mem_singleton] at he
      subst he
      refine ⟨fun hmem => ?_, fun hmem => ?_⟩
      · exact Nat.lt_irrefl _ (hq.known _ (mem_append_left _ hmem))
      · exact Nat.lt_irrefl _ (hq.known _ (mem_append_right _ hmem))
  · intro e he
    rw [length_append]
    exact Nat.lt_add_right _ (hq.known e he)

theorem Queue.dispatches_flush (q : Queue) : q.flush.dispatches = q.dispatches :=
  append_nil _

theorem Queue.Valid.flush (hq : q.Valid k enqueued finished) : q.flush.Valid k enqueued finished where
  given := by rw [Queue.dispatches_flush]; exact hq.given
  sorted := by rw [Queue.dispatches_flush]; exact hq.sorted
  left := by rw [Queue.dispatches_flush]; exact hq.left
  chained := by rw [Queue.dispatches_flush]; exact hq.chained
  gone := by rw [Queue.dispatches_flush]; exact hq.gone
  known := hq.known

theorem Queue.Valid.finish (hq : q.Valid k enqueued finished) (e : Event) :
    q.Valid k enqueued (e :: finished) where
  given := fun d hd =>
    have ⟨command, hcommand, hk, hwaits⟩ := hq.given d hd
    ⟨command, hcommand, hk, fun e' he' => (hwaits e' he').imp_right (mem_cons_of_mem e)⟩
  sorted := hq.sorted
  left := fun e' command he' hk => (hq.left e' command he' hk).imp_left (mem_cons_of_mem e)
  chained := hq.chained
  gone := hq.gone
  known := hq.known

theorem Queue.mem_deadEvents {completedEvents : List Event} :
    e ∈ deadEvents running completedEvents ↔
      e ∈ completedEvents ∧ ∀ d ∈ running, e ∉ d.waitSemaphores := by
  rw [deadEvents, mem_filter, decide_eq_true_iff, mem_destutter_ne, mem_flatMap]
  push Not
  exact Iff.rfl

theorem Queue.Valid.enqueue_other (hq : q.Valid k enqueued finished) {command : Enqueued}
    (hk : command.queue ≠ k) : q.Valid k (enqueued ++ [command]) finished where
  given := fun d hd => by
    obtain ⟨command', hcommand', hrest⟩ := hq.given d hd
    refine ⟨command', ?_, hrest⟩
    rwa [getElem?_append_left (hq.signalEvent_lt hd)]
  sorted := hq.sorted
  left := fun e command' he hk' => by
    rcases getElem?_concat_cases he with he | ⟨-, rfl⟩
    · exact hq.left e command' he hk'
    · exact absurd hk' hk
  chained := hq.chained
  gone := hq.gone
  known := fun e he => by
    rw [length_append]
    exact Nat.lt_add_right _ (hq.known e he)

section Cleanup

variable {completed : Dispatch}

/-- A pending dispatch after the first running one has completed. -/
def Dispatch.prune (e : Event) (d : Dispatch) : Dispatch :=
  { d with waitSemaphores := d.waitSemaphores.erase e }

theorem Queue.cleanup_eq (hrunning : q.runningDispatches = completed :: running)
    (hfinished : completed.signalEvent ∈ finished) :
    q.cleanup finished =
      let dead := deadEvents running (q.completedEvents ++ [completed.signalEvent])
      { pendingDispatches := q.pendingDispatches.map (Dispatch.prune completed.signalEvent)
        runningDispatches := running
        completedEvents := (q.completedEvents ++ [completed.signalEvent]).filter (· ∉ dead)
        released := q.released ++ dead } := by
  rw [cleanup, hrunning]
  exact if_pos hfinished

theorem Queue.signalEvents_cleanup (hrunning : q.runningDispatches = completed :: running)
    (hfinished : completed.signalEvent ∈ finished) :
    q.dispatches.map (·.signalEvent) =
      completed.signalEvent :: (q.cleanup finished).dispatches.map (·.signalEvent) := by
  rw [cleanup_eq hrunning hfinished, dispatches, dispatches, hrunning, map_append,
    map_append, map_map]
  rfl

theorem Queue.Valid.cleanup (hq : q.Valid k enqueued finished)
    (hrunning : q.runningDispatches = completed :: running)
    (hfinished : completed.signalEvent ∈ finished) :
    (q.cleanup finished).Valid k enqueued finished := by
  have hevents := Queue.signalEvents_cleanup hrunning hfinished
  have hsorted := hq.sorted
  rw [hevents, pairwise_cons] at hsorted
  have hdispatches : q.dispatches = completed :: (running ++ q.pendingDispatches) := by
    rw [Queue.dispatches, hrunning, cons_append]
  have hne : ∀ d ∈ running ++ q.pendingDispatches, d.signalEvent ≠ completed.signalEvent := by
    intro d hd
    have hlt := (pairwise_cons.1 (hdispatches ▸ hq.sorted)).1 d.signalEvent
      (mem_map_of_mem hd)
    exact Nat.ne_of_gt hlt
  have hchained := hq.chained
  rw [hdispatches] at hchained
  rw [Queue.cleanup_eq hrunning hfinished] at hsorted hevents ⊢
  constructor
  · intro d hd
    rw [Queue.dispatches, mem_append, mem_map] at hd
    rcases hd with hd | ⟨d, hd, rfl⟩
    · exact hq.given d (hdispatches ▸ mem_cons_of_mem _ (mem_append_left _ hd))
    · obtain ⟨command, hcommand, hk, hwaits⟩ :=
        hq.given d (hdispatches ▸ mem_cons_of_mem _ (mem_append_right _ hd))
      refine ⟨command, hcommand, hk, fun e he => ?_⟩
      by_cases heq : e = completed.signalEvent
      · exact .inr (heq ▸ hfinished)
      · exact (hwaits e he).imp_left (mem_erase_of_ne heq).2
  · exact hsorted.2
  · intro e command he hk
    rcases hq.left e command he hk with hleft | hleft
    · exact .inl hleft
    · rw [hevents, mem_cons] at hleft
      rcases hleft with rfl | hleft
      · exact .inl hfinished
      · exact .inr hleft
  · obtain ⟨hfirst, hlast, hlink⟩ := isChain_append.1 hchained.tail
    rw [Queue.dispatches, isChain_append]
    refine ⟨hfirst, ?_, fun d hd d' hd' => ?_⟩
    · rw [isChain_map]
      refine hlast.imp_of_mem_imp fun d d' hd _ hmem => ?_
      exact (mem_erase_of_ne (hne d (mem_append_right _ hd))).2 hmem
    · rw [head?_map, Option.mem_def, Option.map_eq_some_iff] at hd'
      obtain ⟨d', hd', rfl⟩ := hd'
      refine (mem_erase_of_ne (hne d ?_)).2 (hlink d hd d' hd')
      exact mem_append_left _ (mem_of_getLast? hd)
  · intro e he
    have hgone := hq.gone e (by rw [hevents]; exact mem_cons_of_mem _ he)
    have hne' : e ≠ completed.signalEvent := Nat.ne_of_gt (hsorted.1 e he)
    have hcompleted : e ∉ q.completedEvents ++ [completed.signalEvent] := by
      rw [mem_append, mem_singleton]
      exact not_or_intro hgone.1 hne'
    refine ⟨fun hmem => hcompleted (mem_filter.1 hmem).1, fun hmem => ?_⟩
    rcases mem_append.1 hmem with hmem | hmem
    · exact hgone.2 hmem
    · exact hcompleted (Queue.mem_deadEvents.1 hmem).1
  · intro e he
    have hcompleted : ∀ e ∈ q.completedEvents ++ [completed.signalEvent], e < enqueued.length := by
      intro e he
      rcases mem_append.1 he with he | he
      · exact hq.known e (mem_append_left _ he)
      · rw [mem_singleton.1 he]
        exact hq.signalEvent_lt (hdispatches ▸ mem_cons_self)
    rcases mem_append.1 he with he | he
    · exact hcompleted e (mem_filter.1 he).1
    · rcases mem_append.1 he with he | he
      · exact hq.known e (mem_append_right _ he)
      · exact hcompleted e (Queue.mem_deadEvents.1 he).1

theorem Queue.Valid.cleanup_round (hq : q.Valid k enqueued finished) :
    (q.cleanup finished).Valid k enqueued finished := by
  cases hrunning : q.runningDispatches with
  | nil =>
    rw [Queue.cleanup, hrunning]
    exact hq
  | cons completed =>
    by_cases hfinished : completed.signalEvent ∈ finished
    · exact hq.cleanup hrunning hfinished
    · have hsame : q.cleanup finished = q := by
        rw [Queue.cleanup, hrunning]
        exact if_neg hfinished
      rwa [hsame]

end Cleanup

/-! ### Waiting for enough -/

def System.Valid (s : System) : Prop := ∀ k, (s.queues k).Valid k s.enqueued s.finished

variable {s s' : System} {label : Step} {d' : Dispatch}

/-- Of two dispatches, the one with the smaller event stands first. -/
theorem pairwise_earlier {R : Dispatch → Dispatch → Prop} {ds : List Dispatch}
    (hds : ds.Pairwise R) (hsorted : (ds.map (·.signalEvent)).Pairwise (· < ·)) (hd : d ∈ ds)
    (hd' : d' ∈ ds) (hlt : d'.signalEvent < d.signalEvent) : R d' d := by
  induction ds with
  | nil => cases hd
  | cons a ds ih =>
    obtain ⟨hfirst, hrest⟩ := pairwise_cons.1 hds
    obtain ⟨hlow, hsorted⟩ := pairwise_cons.1 hsorted
    rcases mem_cons.1 hd' with rfl | htail'
    · rcases mem_cons.1 hd with rfl | htail
      · exact absurd hlt (Nat.lt_irrefl _)
      · exact hfirst d htail
    · rcases mem_cons.1 hd with rfl | htail
      · exact absurd (hlow _ (mem_map_of_mem htail')) (Nat.lt_asymm hlt)
      · exact ih hrest hsorted htail htail'

/-- A dispatch waits on all earlier ones of its queue through its predecessors. -/
theorem System.Valid.waits_earlier (hs : s.Valid)
    (hd : d ∈ (s.queues k).dispatches) (hd' : d' ∈ (s.queues k).dispatches)
    (hlt : d'.signalEvent < d.signalEvent) :
    Relation.TransGen s.WaitsOn d.signalEvent d'.signalEvent := by
  have hchain : (s.queues k).dispatches.IsChain fun a b =>
      Relation.TransGen s.WaitsOn b.signalEvent a.signalEvent :=
    (hs k).chained.imp_of_mem_imp fun a b _ hb hmem => .single ⟨k, b, hb, rfl, hmem⟩
  exact pairwise_earlier (isChain_iff_pairwise.1 hchain) (hs k).sorted hd hd' hlt

theorem System.Valid.complete (hs : s.Valid) (hd : d ∈ (s.queues k).dispatches)
    (hmust : s.MustWait k d e) (hunfinished : e ∉ s.finished) :
    Relation.TransGen s.WaitsOn d.signalEvent e := by
  rcases hmust with ⟨hlt, command, he, hk⟩ | ⟨command, hcommand, he⟩
  · obtain ⟨d', hd', rfl⟩ := mem_map.1 (((hs k).left e command he hk).resolve_left hunfinished)
    exact hs.waits_earlier hd hd' hlt
  · obtain ⟨command', hcommand', -, hwaits⟩ := (hs k).given d hd
    cases hcommand.symm.trans hcommand'
    exact .single ⟨k, d, hd, rfl, (hwaits e he).resolve_right hunfinished⟩

/-! ### Waiting on released events -/

def Queue.Live (q : Queue) : Prop := ∀ d ∈ q.dispatches, ∀ e ∈ d.waitSemaphores, e ∉ q.released

theorem System.Valid.sound_iff (hs : s.Valid) : s.Sound ↔ ∀ k, (s.queues k).Live :=
  ⟨fun hsound => hsound.live, fun hlive => ⟨fun _ _ hd _ => hs.complete hd, hlive⟩⟩

theorem Queue.Valid.live_getCommandBuffer_iff (hq : q.Valid k enqueued finished) (hlive : q.Live)
    (signalEvent : Event) (waitEvents : List Event) :
    (q.getCommandBuffer signalEvent waitEvents).Live ↔ ∀ e ∈ waitEvents, e ∉ q.released := by
  rw [Live, Queue.dispatches_getCommandBuffer]
  constructor
  · intro h e he
    refine h _ (mem_append_right _ mem_cons_self) e (mem_destutter_ne.2 ?_)
    exact mem_append_right _ he
  · intro h d hd e he
    rcases mem_append.1 hd with hd | hd
    · exact hlive d hd e he
    · rw [mem_singleton.1 hd] at he
      have hmem := mem_destutter_ne.1 he
      rw [waitSemaphores, append_assoc, mem_append, mem_append] at hmem
      rcases hmem with hmem | hmem | hmem
      · rw [Option.mem_toList, Option.map_eq_some_iff] at hmem
        obtain ⟨d', hd', rfl⟩ := hmem
        exact (hq.gone _ (mem_map_of_mem
          (mem_append_right _ (mem_of_getLast? hd')))).2
      · obtain ⟨d', hd', rfl⟩ := mem_map.1 hmem
        exact (hq.gone _ (mem_map_of_mem (mem_append_left _ hd'))).2
      · exact h e hmem

/-- In the round that removes the first running dispatch, no pending dispatch waits on its event more
than once, unless a running one does too, or on a completed event that no other running one waits
on. -/
def Queue.Releasable (q : Queue) (finished : List Event) : Prop :=
  match q.runningDispatches with
  | [] => True
  | completed :: running => completed.signalEvent ∈ finished → ∀ d ∈ q.pendingDispatches,
    ((∀ r ∈ running, completed.signalEvent ∉ r.waitSemaphores) →
      d.waitSemaphores.count completed.signalEvent ≤ 1) ∧
    ∀ e ∈ q.completedEvents, (∀ r ∈ running, e ∉ r.waitSemaphores) → e ∉ d.waitSemaphores

theorem Queue.Valid.live_cleanup_iff (hq : q.Valid k enqueued finished) (hlive : q.Live) :
    (q.cleanup finished).Live ↔ q.Releasable finished := by
  rw [Releasable]
  split
  · next hrunning =>
    rw [Queue.cleanup, hrunning]
    exact iff_of_true hlive trivial
  · next completed running hrunning =>
    by_cases hfinished : completed.signalEvent ∈ finished
    · have hdispatches : q.dispatches = completed :: (running ++ q.pendingDispatches) := by
        rw [Queue.dispatches, hrunning, cons_append]
      have hcompleted : completed.signalEvent ∉ q.completedEvents :=
        (hq.gone _ (mem_map_of_mem (hdispatches ▸ mem_cons_self))).1
      rw [Queue.cleanup_eq hrunning hfinished]
      constructor
      · intro h _ d hd
        have hd' := h (d.prune completed.signalEvent)
          (mem_append_right _ (mem_map_of_mem hd))
        refine ⟨fun hfree => ?_, fun e he hfree hmem => ?_⟩
        · by_contra hcount
          have hmem : completed.signalEvent ∈ d.waitSemaphores.erase completed.signalEvent := by
            rw [← count_pos_iff, count_erase_self]
            omega
          refine hd' _ hmem (mem_append_right _ (mem_deadEvents.2 ⟨?_, hfree⟩))
          exact mem_append_right _ mem_cons_self
        · have hne : e ≠ completed.signalEvent := fun heq => hcompleted (heq ▸ he)
          refine hd' e ((mem_erase_of_ne hne).2 hmem)
            (mem_append_right _ (mem_deadEvents.2 ⟨?_, hfree⟩))
          exact mem_append_left _ he
      · intro h d hd e he hreleased
        rcases mem_append.1 hd with hd | hd
        · have hold := hlive d (hdispatches ▸ mem_cons_of_mem _ (mem_append_left _ hd)) e he
          have hdead := (mem_append.1 hreleased).resolve_left hold
          exact (mem_deadEvents.1 hdead).2 d hd he
        · obtain ⟨d, hpending, rfl⟩ := mem_map.1 hd
          have hold := hlive d
            (hdispatches ▸ mem_cons_of_mem _ (mem_append_right _ hpending)) e
            (mem_of_mem_erase he)
          have hdead := (mem_append.1 hreleased).resolve_left hold
          obtain ⟨hmem, hfree⟩ := mem_deadEvents.1 hdead
          obtain ⟨honce, hnone⟩ := h hfinished d hpending
          rcases mem_append.1 hmem with hmem | hmem
          · exact hnone e hmem hfree (mem_of_mem_erase he)
          · cases mem_singleton.1 hmem
            have hcount := count_pos_iff.2 he
            rw [Dispatch.prune, count_erase_self] at hcount
            have := honce hfree
            omega
    · rw [Queue.cleanup, hrunning]
      refine iff_of_true ?_ fun h => absurd h hfinished
      exact (congrArg Queue.Live (if_neg hfinished)).mpr hlive

/-! ### Runs -/

/-- A command that is enqueued waits on no released event of its queue, and when an event is released
no pending dispatch is left that waits on it. -/
def System.Handled (s : System) : Step → Prop
  | .enqueue k waitEvents => ∀ e ∈ waitEvents, e ∉ (s.queues k).released
  | .cleanup k => (s.queues k).Releasable s.finished
  | .finish .. | .flush _ => True

theorem forall_update_iff {queues : Nat → Queue} {P : Nat → Queue → Prop}
    (hother : ∀ j, j ≠ k → P j (queues j)) :
    (∀ j, P j (update queues k q j)) ↔ P k q := by
  constructor
  · intro h
    have hk := h k
    rwa [update_self] at hk
  · intro hk j
    by_cases hjk : j = k
    · subst hjk
      rwa [update_self]
    · rw [update_of_ne hjk]
      exact hother j hjk

theorem System.Valid.step (hs : s.Valid) (hlive : ∀ k, (s.queues k).Live)
    (hstep : s.step label = some s') :
    s'.Valid ∧ ((∀ k, (s'.queues k).Live) ↔ s.Handled label) := by
  cases label with
  | enqueue k waitEvents =>
    rw [System.step] at hstep
    split at hstep
    · cases hstep
      refine ⟨?_, ?_⟩
      · refine (forall_update_iff fun j hj => ?_).2 ((hs k).getCommandBuffer waitEvents)
        exact (hs j).enqueue_other hj.symm
      · refine (forall_update_iff (P := fun _ q => q.Live) fun j _ => hlive j).trans ?_
        exact (hs k).live_getCommandBuffer_iff (hlive k) _ waitEvents
    · cases hstep
  | finish k e =>
    rw [System.step] at hstep
    split at hstep
    · cases hstep
      exact ⟨fun j => (hs j).finish e, iff_of_true hlive trivial⟩
    · cases hstep
  | cleanup k =>
    cases hstep
    refine ⟨?_, ?_⟩
    · refine (forall_update_iff fun j _ => hs j).2 ?_
      exact (hs k).cleanup_round
    · refine (forall_update_iff (P := fun _ q => q.Live) fun j _ => hlive j).trans ?_
      exact (hs k).live_cleanup_iff (hlive k)
  | flush k =>
    cases hstep
    refine ⟨(forall_update_iff fun j _ => hs j).2 (hs k).flush, iff_of_true ?_ trivial⟩
    refine (forall_update_iff (P := fun _ q => q.Live) fun j _ => hlive j).2 fun d hd => ?_
    rw [Queue.dispatches_flush] at hd
    exact hlive k d hd

def System.Possible (s : System) (label : Step) : Prop := (s.step label).isSome

def System.next (s : System) (label : Step) : System := (s.step label).getD s

/-- After every step of a run all dispatches wait for enough, and on no released event of their queue,
exactly if the run has no command that is given a released event of its queue, and no event is
released while a pending dispatch waits on it. -/
theorem dependencies_iff (labels : List Step)
    (hruns : Along System.next System.Possible .create labels) :
    Along System.next System.Works .create labels ↔
      Along System.next System.Handled .create labels := by
  refine along_congr (fun s => s.Valid ∧ ∀ k, (s.queues k).Live) ?_ ?_ hruns
    ⟨fun k => Queue.create_valid, fun k => nofun⟩
  · rintro s label ⟨hs, hlive⟩ hpossible
    obtain ⟨s', hstep⟩ := Option.isSome_iff_exists.1 hpossible
    obtain ⟨hs', hiff⟩ := hs.step hlive hstep
    rw [← hiff, ← hs'.sound_iff]
    constructor
    · rintro ⟨s'', hstep', hsound⟩
      cases hstep.symm.trans hstep'
      exact hsound
    · exact fun hsound => ⟨s', hstep, hsound⟩
  · rintro s label ⟨hs, hlive⟩ - ⟨s', hstep, hsound⟩
    obtain ⟨hs', -⟩ := hs.step hlive hstep
    have hnext : s.next label = s' := by rw [System.next, hstep, Option.getD_some]
    rw [hnext]
    exact ⟨hs', hs'.sound_iff.1 hsound⟩

/-- The second command waits for the first twice, once for the queue and once for its wait list. -/
def waitsTwice : List Step :=
  [.enqueue 0 [], .flush 0, .enqueue 0 [0], .finish 0 0, .cleanup 0, .flush 0]

theorem dependencies_waitsTwice :
    Along System.next System.Possible .create waitsTwice ∧
      Along System.next System.Works .create waitsTwice := by
  have hruns : Along System.next System.Possible .create waitsTwice :=
    ⟨rfl, rfl, rfl, rfl, rfl, rfl, trivial⟩
  refine ⟨hruns, (dependencies_iff waitsTwice hruns).2
    ⟨nofun, trivial, fun _ _ => not_mem_nil, trivial, fun _ d hd => ?_, trivial, trivial⟩⟩
  cases mem_singleton.1 hd
  exact ⟨fun _ => Nat.le_refl 1, nofun⟩

/-- The third command is given the event of the first while both earlier ones run. -/
def apart : List Step :=
  [.enqueue 0 [], .enqueue 0 [], .flush 0, .enqueue 0 [0], .finish 0 0, .cleanup 0, .finish 0 1,
    .cleanup 0]

/-- The second command is given the event of the first after the cleanup. -/
def afterCleanup : List Step :=
  [.enqueue 0 [], .flush 0, .finish 0 0, .cleanup 0, .enqueue 0 [0]]

/-- A pending dispatch is left that waits on a released event of its queue. -/
theorem waits_on_released :
    (Along System.next System.Possible .create apart ∧
      ¬ Along System.next System.Works .create apart ∧
      (apart.foldl System.next .create).queues 0 = ⟨[⟨[0], 2⟩], [], [], [0, 1]⟩) ∧
    (Along System.next System.Possible .create afterCleanup ∧
      ¬ Along System.next System.Works .create afterCleanup ∧
      (afterCleanup.foldl System.next .create).queues 0 = ⟨[⟨[0], 1⟩], [], [], [0]⟩) := by
  refine ⟨⟨⟨rfl, rfl, rfl, rfl, rfl, rfl, rfl, rfl, trivial⟩, fun hworks => ?_, rfl⟩,
    ⟨⟨rfl, rfl, rfl, rfl, rfl, trivial⟩, fun hworks => ?_, rfl⟩⟩
  · obtain ⟨-, -, -, -, -, -, -, ⟨s', hstep, hsound⟩, -⟩ := hworks
    cases hstep
    exact hsound.live 0 ⟨[0], 2⟩ (by decide) 0 (by decide) (by decide)
  · obtain ⟨-, -, -, -, ⟨s', hstep, hsound⟩, -⟩ := hworks
    cases hstep
    exact hsound.live 0 ⟨[0], 1⟩ (by decide) 0 (by decide) (by decide)

end ConstructionKit.Ur
