import ConstructionKit.Khr.Executions
import ConstructionKit.ProofKit.Lists
import ConstructionKit.ProofKit.Runs

/-! What the queues know about the executions of command buffers. -/

namespace ConstructionKit.Khr

open ProofKit List Function

variable {κ : Type}

/-! ### The property -/

/-- A dispatch without the events that it waits on. -/
def Dispatch.flight (d : Dispatch κ) : Dispatch κ := { d with waitEvents := [] }

/-- The dispatches that are pending or running. -/
def System.flights (s : System κ) : List (Dispatch κ) := (s.running ++ s.pending).map Dispatch.flight

/-- The queues count and map the executions in flight, run each mux command buffer once at a time, and
destroy none that a `cl_command_buffer_khr` owns. -/
structure System.Sound (s : System κ) : Prop where
  counted : ∀ c, s.executionRefcount c = s.flights.countP (·.execution = some c)
  mapped : ∀ q m c, s.userCommandBuffers q m = some c ↔
    ∃ d ∈ s.flights, d.queue = q ∧ d.commandBuffer = m ∧ d.execution = some c
  once : (s.flights.map (·.commandBuffer)).Nodup
  destroys : ∀ c, .owned c ∉ s.destroyed
  state : ∀ c, s.getState c = .pending ↔ ∃ d ∈ s.flights, d.execution = some c

def System.Works [DecidableEq κ] (s : System κ) (label : Step κ) : Prop :=
  ∃ s', s.step label = some s' ∧ s'.Sound

/-! ### The invariant -/

/-- An execution of an owned mux command buffer, or of one that its queue has to destroy. -/
inductive Dispatch.Proper (d : Dispatch κ) : Prop where
  | owned (c : Nat) (hmux : d.commandBuffer = .owned c) (hexecution : d.execution = some c)
      (hkeep : d.shouldDestroyCommandBuffer = false)
  | made (id : Nat) (hmux : d.commandBuffer = .made id) (hdestroy : d.shouldDestroyCommandBuffer = true)

/-- The mux command buffers that are in use or can be used again. -/
def System.held (s : System κ) : List MuxCommandBuffer :=
  s.flights.map (·.commandBuffer) ++ s.cachedCommandBuffers.map (·.2)

structure System.Tracks (s : System κ) : Prop where
  counted : ∀ c, s.executionRefcount c = s.flights.countP (·.execution = some c)
  mapped : ∀ q m c, s.userCommandBuffers q m = some c ↔
    ∃ d ∈ s.flights, d.queue = q ∧ d.commandBuffer = m ∧ d.execution = some c
  held : s.held.Nodup
  proper : ∀ d ∈ s.flights, d.Proper
  cached : ∀ c, .owned c ∉ s.cachedCommandBuffers.map (·.2)
  fresh : ∀ id, .made id ∈ s.held → id < s.next
  destroys : ∀ c, .owned c ∉ s.destroyed
  finalized : ∀ c, s.isFinalized c = false → s.executionRefcount c = 0

variable {s s' : System κ} {d : Dispatch κ} {label : Step κ}

theorem System.Tracks.sound (hs : s.Tracks) : s.Sound where
  counted := hs.counted
  mapped := hs.mapped
  once := (nodup_append.1 hs.held).1
  destroys := hs.destroys
  state c := by
    have hcount : 0 < s.executionRefcount c ↔ ∃ d ∈ s.flights, d.execution = some c := by
      rw [hs.counted, countP_pos_iff]
      simp only [decide_eq_true_iff]
    rw [← hcount, getState]
    cases hfinal : s.isFinalized c with
    | false =>
      rw [hs.finalized c hfinal]
      exact iff_of_false nofun (Nat.lt_irrefl 0)
    | true =>
      rw [Bool.not_true, if_neg Bool.false_ne_true]
      split
      · next hpos => exact iff_of_true rfl hpos
      · next hzero => exact iff_of_false nofun hzero

theorem System.create_tracks (supportsSimultaneousUse : Nat → Bool) :
    (create supportsSimultaneousUse : System κ).Tracks where
  counted _ := rfl
  mapped _ _ _ := ⟨nofun, nofun⟩
  held := nodup_nil
  proper := nofun
  cached := nofun
  fresh := nofun
  destroys := nofun
  finalized _ _ := rfl

theorem System.Tracks.of_perm (hs : s.Tracks) (hflights : s'.flights.Perm s.flights)
    (hmap : s'.userCommandBuffers = s.userCommandBuffers)
    (hcached : s'.cachedCommandBuffers = s.cachedCommandBuffers)
    (hcount : s'.executionRefcount = s.executionRefcount) (hnext : s'.next = s.next)
    (hdestroyed : s'.destroyed = s.destroyed)
    (hfinalized : ∀ c, s'.isFinalized c = false → s.isFinalized c = false) : s'.Tracks := by
  have hheld : s'.held.Perm s.held := by
    rw [System.held, hcached]
    exact (hflights.map _).append_right _
  refine ⟨fun c => ?_, fun q m c => ?_, hheld.nodup_iff.2 hs.held, fun d hd => ?_, ?_, fun id hid => ?_,
    ?_, fun c hc => ?_⟩
  · rw [hcount, hs.counted]
    exact (hflights.countP_eq _).symm
  · rw [hmap, hs.mapped]
    simp only [hflights.mem_iff]
  · exact hs.proper d (hflights.mem_iff.1 hd)
  · rw [hcached]
    exact hs.cached
  · rw [hnext]
    exact hs.fresh id (hheld.mem_iff.1 hid)
  · rw [hdestroyed]
    exact hs.destroys
  · rw [hcount]
    exact hs.finalized c (hfinalized c hc)

/-- A step that ends command buffers keeps what else there is. -/
structure System.Keeps (s s' : System κ) : Prop where
  cached : s'.cachedCommandBuffers = s.cachedCommandBuffers
  next : s'.next = s.next
  destroyed : s'.destroyed = s.destroyed
  finalized : s'.isFinalized = s.isFinalized

variable [DecidableEq κ]

omit [DecidableEq κ] in
theorem System.Tracks.remove (hs : s.Tracks) (ds : List (Dispatch κ))
    (hflights : s.flights.Perm (ds ++ s'.flights))
    (hkeeps : s.Keeps s')
    (hcount : ∀ c, s'.executionRefcount c =
      s.executionRefcount c - ds.countP (·.execution = some c))
    (hmap : ∀ q m c, s'.userCommandBuffers q m = some c ↔ s.userCommandBuffers q m = some c ∧
      ∀ d ∈ ds, ¬(d.queue = q ∧ d.commandBuffer = m ∧ d.execution ≠ none)) :
    s'.Tracks ∧ (ds.map (·.commandBuffer) ++ s'.held).Nodup := by
  have hheld : s.held.Perm (ds.map (·.commandBuffer) ++ s'.held) := by
    rw [System.held, System.held, hkeeps.cached, ← append_assoc, ← map_append]
    exact (hflights.map _).append_right _
  have hnodup := hheld.nodup_iff.1 hs.held
  have hmem : ∀ d' ∈ s'.flights, d' ∈ s.flights := fun d' hd' =>
    hflights.mem_iff.2 (mem_append_right _ hd')
  have hne : ∀ d ∈ ds, ∀ d' ∈ s'.flights, d.commandBuffer ≠ d'.commandBuffer := fun d hd d' hd' =>
    (nodup_append.1 hnodup).2.2 _ (mem_map_of_mem hd) _
      (mem_append_left _ (mem_map_of_mem hd'))
  refine ⟨⟨fun c => ?_, fun q m c => ?_, (nodup_append.1 hnodup).2.1,
    fun d' hd' => hs.proper d' (hmem d' hd'), ?_, fun id hid => ?_, ?_, fun c hc => ?_⟩, hnodup⟩
  · rw [hcount, hs.counted, hflights.countP_eq, countP_append, Nat.add_sub_cancel_left]
  · rw [hmap, hs.mapped]
    constructor
    · rintro ⟨⟨d', hd', hqueue, hmux, hc⟩, hkept⟩
      rcases mem_append.1 (hflights.mem_iff.1 hd') with hended | hd'
      · exact absurd ⟨hqueue, hmux, by rw [hc]; exact nofun⟩ (hkept d' hended)
      · exact ⟨d', hd', hqueue, hmux, hc⟩
    · rintro ⟨d', hd', hqueue, hmux, hc⟩
      refine ⟨⟨d', hmem d' hd', hqueue, hmux, hc⟩, fun d hd hat => ?_⟩
      exact hne d hd d' hd' (hat.2.1.trans hmux.symm)
  · rw [hkeeps.cached]
    exact hs.cached
  · rw [hkeeps.next]
    exact hs.fresh id (hheld.mem_iff.2 (mem_append_right _ hid))
  · rw [hkeeps.destroyed]
    exact hs.destroys
  · rw [hcount, hs.finalized c (hkeeps.finalized ▸ hc), Nat.zero_sub]

/-! ### Destroyed command buffers -/

/-- The end of command buffers that a queue made. -/
def System.destroyAll (s : System κ) (q : κ) (ms : List MuxCommandBuffer) : System κ :=
  { s with
    cachedCommandBuffers := ms.foldl (cache q) s.cachedCommandBuffers
    destroyed := s.destroyed ++ ms }

theorem System.destroyAll_cons (s : System κ) (q : κ) (m : MuxCommandBuffer)
    (ms : List MuxCommandBuffer) : s.destroyAll q (m :: ms) = (s.destroyAll q [m]).destroyAll q ms := by
  rw [destroyAll, destroyAll, destroyAll, append_assoc]
  rfl

theorem System.cache_cases (q : κ) (cached : List (κ × MuxCommandBuffer)) (m : MuxCommandBuffer) :
    cache q cached m = cached ∨ cache q cached m = cached ++ [(q, m)] := by
  unfold cache
  split
  · exact .inr rfl
  · exact .inl rfl

theorem System.held_destroy (s : System κ) (q : κ) (m : MuxCommandBuffer) :
    (s.destroyAll q [m]).held.Sublist (s.held ++ [m]) := by
  rw [held, held, append_assoc]
  refine List.Sublist.append_left ?_ _
  change ((cache q s.cachedCommandBuffers m).map (·.2)).Sublist _
  rcases cache_cases q s.cachedCommandBuffers m with hcache | hcache
  · rw [hcache]
    exact sublist_append_left ..
  · rw [hcache, map_append]
    exact List.Sublist.refl _

theorem System.Tracks.destroyAll (hs : s.Tracks) (q : κ) (ms : List MuxCommandBuffer)
    (hnodup : (ms ++ s.held).Nodup) (hmade : ∀ m ∈ ms, ∃ id < s.next, m = .made id) :
    (s.destroyAll q ms).Tracks := by
  induction ms generalizing s with
  | nil =>
    rw [System.destroyAll, append_nil]
    exact hs
  | cons m ms ih =>
    rw [destroyAll_cons]
    obtain ⟨id, hid, rfl⟩ := hmade _ mem_cons_self
    have hmiddle : (ms ++ (s.held ++ [MuxCommandBuffer.made id])).Nodup := by
      rw [← append_assoc]
      exact (perm_append_singleton _ _).nodup_iff.2 hnodup
    have hheld := held_destroy s q (.made id)
    have hsub : (ms ++ (s.destroyAll q [.made id]).held).Nodup := hmiddle.sublist (hheld.append_left ms)
    refine ih ?_ hsub fun m hm => hmade m (mem_cons_of_mem _ hm)
    refine ⟨hs.counted, hs.mapped, (nodup_append.1 hsub).2.1, hs.proper, fun c hc => ?_,
      fun id' hid' => ?_, fun c hc => ?_, hs.finalized⟩
    · change _ ∈ (cache q s.cachedCommandBuffers (.made id)).map (·.2) at hc
      rcases cache_cases q s.cachedCommandBuffers (.made id) with hcache | hcache
      · exact hs.cached c (hcache ▸ hc)
      · rw [hcache, map_append] at hc
        rcases mem_append.1 hc with hc | hc
        · exact hs.cached c hc
        · cases mem_singleton.1 hc
    · rcases mem_append.1 (hheld.subset hid') with hid' | hid'
      · exact hs.fresh id' hid'
      · cases mem_singleton.1 hid'
        exact hid
    · rcases mem_append.1 hc with hc | hc
      · exact hs.destroys c hc
      · cases mem_singleton.1 hc

/-! ### Steps -/

theorem System.flights_flush (s : System κ) (q : κ) : (s.flush q).flights.Perm s.flights := by
  refine List.Perm.map _ ?_
  change (s.running ++ s.pending.filter (ready q) ++ s.pending.filter fun d => !ready q d).Perm _
  rw [append_assoc]
  exact (filter_append_perm (ready q) s.pending).append_left _

theorem System.flights_removeWaitEvent (s : System κ) (q : κ) (userEvent : Nat) :
    (s.removeWaitEvent q userEvent).flights = s.flights := by
  rw [flights, flights, removeWaitEvent, map_append, map_append, map_map]
  congr 1
  refine map_congr_left fun d _ => ?_
  rw [comp_apply]
  split <;> rfl

omit [DecidableEq κ] in
theorem System.flights_of_append (hrunning : s'.running = s.running)
    (hpending : s'.pending = s.pending ++ [d]) : s'.flights = s.flights ++ [d.flight] := by
  rw [flights, hrunning, hpending, ← append_assoc, map_append]
  rfl

omit [DecidableEq κ] in
theorem System.held_of_append (hflights : s'.flights = s.flights ++ [d])
    (hcached : s'.cachedCommandBuffers = s.cachedCommandBuffers) :
    s'.held.Perm (d.commandBuffer :: s.held) := by
  rw [held, hflights, hcached, map_append, append_assoc]
  exact perm_middle

omit [DecidableEq κ] in
/-- An owned mux command buffer is in use only where it is executed. -/
theorem System.Tracks.owned_notMem (hs : s.Tracks) {c : Nat} (hc : s.executionRefcount c = 0) :
    .owned c ∉ s.held := by
  intro hmem
  rcases mem_append.1 hmem with hmem | hmem
  · obtain ⟨d, hd, hmux⟩ := mem_map.1 hmem
    rw [hs.counted, countP_eq_zero] at hc
    cases hs.proper d hd with
    | owned c' hmux' hexecution =>
      cases hmux.symm.trans hmux'
      exact hc d hd (decide_eq_true hexecution)
    | made id hmux' => cases hmux.symm.trans hmux'
  · exact hs.cached c hmem

omit [DecidableEq κ] in
theorem System.Tracks.made_notMem (hs : s.Tracks) : .made s.next ∉ s.held := fun hmem =>
  Nat.lt_irrefl _ (hs.fresh _ hmem)

section Added

variable (hs : s.Tracks) (hflights : s'.flights = s.flights ++ [d]) (hproper : d.Proper)
  (hdestroyed : s'.destroyed = s.destroyed)
  (hcount : ∀ c, s'.executionRefcount c =
    s.executionRefcount c + if d.execution = some c then 1 else 0)
  (hmap : ∀ q m, s'.userCommandBuffers q m =
    if q = d.queue ∧ m = d.commandBuffer ∧ d.execution ≠ none then d.execution
    else s.userCommandBuffers q m)
  (hfinalized : ∀ c, s'.isFinalized c = false → s.isFinalized c = false ∧ d.execution ≠ some c)
include hs hflights hproper hdestroyed hcount hmap hfinalized

theorem System.Tracks.add (hheld : s'.held.Nodup) (hfresh : ∀ id, .made id ∈ s'.held → id < s'.next)
    (hcached : ∀ c, .owned c ∉ s'.cachedCommandBuffers.map (·.2)) : s'.Tracks := by
  have hnew : d.commandBuffer ∉ s.flights.map (·.commandBuffer) := by
    have hnodup := (nodup_append.1 hheld).1
    rw [hflights, map_append] at hnodup
    intro hmem
    exact (nodup_append.1 hnodup).2.2 _ hmem _ mem_cons_self rfl
  refine ⟨fun c => ?_, fun q m c => ?_, hheld, fun d' hd' => ?_, hcached, hfresh, ?_, fun c hc => ?_⟩
  · rw [hcount, hs.counted, hflights, countP_append, countP_singleton]
    simp only [decide_eq_true_iff]
  · rw [hmap, hflights]
    split
    · next hat =>
      obtain ⟨rfl, rfl, -⟩ := hat
      constructor
      · intro hc
        exact ⟨d, mem_append_right _ mem_cons_self, rfl, rfl, hc⟩
      · rintro ⟨d', hd', -, hmux, hc⟩
        rcases mem_append.1 hd' with hd' | hd'
        · exact absurd (hmux ▸ mem_map_of_mem hd') hnew
        · rwa [mem_singleton.1 hd'] at hc
    · next hat =>
      rw [hs.mapped]
      constructor
      · rintro ⟨d', hd', hrest⟩
        exact ⟨d', mem_append_left _ hd', hrest⟩
      · rintro ⟨d', hd', rfl, rfl, hc⟩
        rcases mem_append.1 hd' with hd' | hd'
        · exact ⟨d', hd', rfl, rfl, hc⟩
        · rw [mem_singleton.1 hd'] at hat hc
          exact absurd ⟨rfl, rfl, by rw [hc]; exact nofun⟩ hat
  · rw [hflights] at hd'
    rcases mem_append.1 hd' with hd' | hd'
    · exact hs.proper d' hd'
    · rwa [mem_singleton.1 hd']
  · rw [hdestroyed]
    exact hs.destroys
  · obtain ⟨hold, hne⟩ := hfinalized c hc
    rw [hcount, hs.finalized c hold, if_neg hne]

theorem System.Tracks.add_held (hnew : d.commandBuffer ∉ s.held)
    (hcached : s'.cachedCommandBuffers = s.cachedCommandBuffers) (hnext : s.next ≤ s'.next)
    (hfresh : ∀ id, d.commandBuffer = .made id → id < s'.next) : s'.Tracks := by
  have hheld := held_of_append hflights hcached
  refine hs.add hflights hproper hdestroyed hcount hmap hfinalized
    (hheld.nodup_iff.2 (nodup_cons.2 ⟨hnew, hs.held⟩)) (fun id hid => ?_) (hcached ▸ hs.cached)
  rcases mem_cons.1 (hheld.mem_iff.1 hid) with hid | hid
  · exact hfresh id hid.symm
  · exact Nat.lt_of_lt_of_le (hs.fresh id hid) hnext

theorem System.Tracks.add_cached (hcached : (s.cachedCommandBuffers.map (·.2)).Perm
      (d.commandBuffer :: s'.cachedCommandBuffers.map (·.2))) (hnext : s'.next = s.next) :
    s'.Tracks := by
  have hheld : s'.held.Perm s.held := by
    rw [System.held, hflights, map_append, append_assoc]
    exact hcached.symm.append_left _
  refine hs.add hflights hproper hdestroyed hcount hmap hfinalized (hheld.nodup_iff.2 hs.held)
    (fun id hid => hnext ▸ hs.fresh id (hheld.mem_iff.1 hid)) fun c hc => ?_
  exact hs.cached c (hcached.mem_iff.2 (mem_cons_of_mem _ hc))

end Added

section

variable (hs : s.Tracks)
include hs

theorem System.Tracks.enqueueCommandBuffer {c : Nat} (hfinal : s.isFinalized c = true)
    (q : κ) (waitEvents : List Nat) : (s.enqueueCommandBuffer q c waitEvents).Tracks := by
  have hcount : ∀ c', (s.enqueueCommandBuffer q c waitEvents).executionRefcount c' =
      s.executionRefcount c' + if some c = some c' then 1 else 0 := by
    intro c'
    by_cases hc : c = c'
    · subst hc
      rw [if_pos rfl]
      exact update_self ..
    · rw [if_neg fun heq => hc (Option.some.inj heq)]
      exact update_of_ne (Ne.symm hc) ..
  have hmap : ∀ m, (s.enqueueCommandBuffer q c waitEvents).userCommandBuffers =
      update s.userCommandBuffers q (update (s.userCommandBuffers q) m (some c)) →
      ∀ q' m', (s.enqueueCommandBuffer q c waitEvents).userCommandBuffers q' m' =
        if q' = q ∧ m' = m ∧ some c ≠ none then some c else s.userCommandBuffers q' m' := by
    intro m hupdate q' m'
    rw [hupdate]
    by_cases hq : q' = q
    · subst hq
      rw [update_self, update_apply]
      simp
    · rw [update_of_ne hq, if_neg fun hat => hq hat.1]
  have hfinalized : ∀ c', s.isFinalized c' = false → s.isFinalized c' = false ∧ some c ≠ some c' := by
    rintro c' hc'
    refine ⟨hc', fun heq => ?_⟩
    rw [← Option.some.inj heq, hfinal] at hc'
    cases hc'
  by_cases hpos : 0 < s.executionRefcount c
  · have hmux : (if decide (0 < s.executionRefcount c) then MuxCommandBuffer.made s.next else .owned c) =
        .made s.next := if_pos (decide_eq_true hpos)
    have hnext : (s.enqueueCommandBuffer q c waitEvents).next = s.next + 1 :=
      if_pos (decide_eq_true hpos)
    refine hs.add_held (flights_of_append rfl rfl) (.made s.next hmux (decide_eq_true hpos)) rfl hcount
      (hmap _ rfl) hfinalized ?_ rfl (hnext ▸ Nat.le_succ _) fun id hid => ?_
    · exact hmux.symm ▸ hs.made_notMem
    · cases hmux.symm.trans hid
      exact hnext ▸ Nat.lt_succ_self _
  · have hmux : (if decide (0 < s.executionRefcount c) then MuxCommandBuffer.made s.next else .owned c) =
        .owned c := if_neg fun htrue => hpos (of_decide_eq_true htrue)
    have hnext : (s.enqueueCommandBuffer q c waitEvents).next = s.next :=
      if_neg fun htrue => hpos (of_decide_eq_true htrue)
    refine hs.add_held (flights_of_append rfl rfl) (.owned c hmux rfl (decide_eq_false hpos)) rfl hcount
      (hmap _ rfl) hfinalized ?_ rfl (Nat.le_of_eq hnext.symm) fun id hid => ?_
    · exact hmux.symm ▸ hs.owned_notMem (Nat.eq_zero_of_not_pos hpos)
    · cases hmux.symm.trans hid

theorem System.Tracks.clEnqueueCommandBuffer (q : κ) (c : Nat)
    (waitEvents : List Nat) : (s.clEnqueueCommandBuffer q c waitEvents).Tracks := by
  unfold System.clEnqueueCommandBuffer
  split
  · exact hs
  · next hfinal =>
    split
    · exact hs
    · exact hs.enqueueCommandBuffer (by simpa using hfinal) q waitEvents

theorem System.Tracks.createCommandBuffer (q : κ) (waitEvents : List Nat) :
    (s.createCommandBuffer q waitEvents).Tracks := by
  unfold System.createCommandBuffer
  split
  · next cached hfind =>
    have hmem := mem_map_of_mem (f := (·.2)) (mem_of_find?_eq_some hfind)
    obtain ⟨id, hid⟩ : ∃ id, cached.2 = .made id := by
      cases hmux : cached.2 with
      | owned c => exact absurd (hmux ▸ hmem) (hs.cached c)
      | made id => exact ⟨id, rfl⟩
    have hcached := find_perm_eraseP hfind
    refine hs.add_cached (flights_of_append rfl rfl) (.made id hid rfl) rfl (fun _ => rfl)
      (fun q' m => ?_) (fun c hc => ⟨hc, nofun⟩) (hcached.map (·.2)) rfl
    rw [if_neg fun hat => hat.2.2 rfl]
  · refine hs.add_held (flights_of_append rfl rfl) (.made s.next rfl rfl) rfl (fun _ => rfl)
      (fun q' m => ?_) (fun c hc => ⟨hc, nofun⟩) hs.made_notMem rfl (Nat.le_succ _) fun id hid => ?_
    · rw [if_neg fun hat => hat.2.2 rfl]
    · cases hid
      exact Nat.lt_succ_self _

theorem System.Tracks.complete (q : κ) (hflights : s.flights.Perm (d.flight :: s'.flights))
    (hkeeps : s.Keeps s')
    (hcount : ∀ c, s'.executionRefcount c =
      s.executionRefcount c - if d.execution = some c then 1 else 0)
    (hmap : ∀ q m c, s'.userCommandBuffers q m = some c ↔ s.userCommandBuffers q m = some c ∧
      ¬(d.queue = q ∧ d.commandBuffer = m ∧ d.execution ≠ none)) :
    (s'.destroyCompleted q d).Tracks := by
  have hmem : d.flight ∈ s.flights := hflights.mem_iff.2 mem_cons_self
  obtain ⟨hs', hnodup⟩ := hs.remove [d.flight] hflights hkeeps
    (fun c => by
      rw [hcount, countP_singleton]
      simp only [decide_eq_true_iff]
      rfl)
    (fun q' m c => by
      rw [hmap, forall_mem_singleton]
      rfl)
  unfold System.destroyCompleted
  split
  · next hdestroy =>
    refine hs'.destroyAll q [d.commandBuffer] hnodup fun m hm => ?_
    rw [mem_singleton.1 hm]
    cases hs.proper _ hmem with
    | owned c hmux hexecution hkeep => cases hkeep.symm.trans hdestroy
    | made id hmux =>
      refine ⟨id, ?_, hmux⟩
      rw [hkeeps.next]
      exact hs.fresh id (mem_append_left _ (mem_map.2 ⟨_, hmem, hmux⟩))
  · exact hs'

/-- A round of `cleanup` finds the command buffer that it completes. -/
theorem System.Tracks.cleanup (q : κ) : ∃ s', s.cleanup q = some s' ∧ s'.Tracks := by
  unfold System.cleanup
  split
  · exact ⟨s, rfl, hs⟩
  · next completed hfind =>
    have hqueue := find?_some hfind
    rw [decide_eq_true_iff] at hqueue
    have hflights : s.flights.Perm (completed.flight ::
        ((s.running.eraseP (·.queue = q)) ++ s.pending).map Dispatch.flight) :=
      ((find_perm_eraseP hfind).append_right s.pending).map Dispatch.flight
    cases hexecution : completed.execution with
    | none =>
      refine ⟨_, rfl, hs.complete q hflights ⟨rfl, rfl, rfl, rfl⟩ (fun c => ?_) fun q' m c => ?_⟩
      · rw [hexecution]
        rfl
      · exact ⟨fun hc => ⟨hc, fun hat => hat.2.2 hexecution⟩, fun hc => hc.1⟩
    | some c =>
      have hentry : s.userCommandBuffers q completed.commandBuffer = some c :=
        (hs.mapped ..).2 ⟨_, hflights.mem_iff.2 mem_cons_self, hqueue, rfl, hexecution⟩
      rw [Option.isSome_some, if_pos rfl, hentry]
      refine ⟨_, rfl, hs.complete q hflights ⟨rfl, rfl, rfl, rfl⟩ (fun c' => ?_) fun q' m c' => ?_⟩
      · rw [hexecution]
        by_cases hc : c = c'
        · subst hc
          rw [if_pos rfl]
          exact update_self ..
        · rw [if_neg fun heq => hc (Option.some.inj heq)]
          exact update_of_ne (Ne.symm hc) ..
      · rw [hqueue, hexecution]
        change update s.userCommandBuffers q _ q' m = some c' ↔ _
        by_cases hq : q' = q
        · subst hq
          rw [update_self, update_apply]
          split
          · next hm => exact iff_of_false nofun fun hc => hc.2 ⟨rfl, hm.symm, nofun⟩
          · next hm => exact ⟨fun hc => ⟨hc, fun hat => hm hat.2.1.symm⟩, fun hc => hc.1⟩
        · rw [update_of_ne hq]
          exact ⟨fun hc => ⟨hc, fun hat => hq hat.1.symm⟩, fun hc => hc.1⟩

omit hs in
theorem System.flights_dropDispatchesPending (s : System κ) (q : κ) (userEvent : Nat) :
    s.flights.Perm ((s.pending.filter (waitsOn q userEvent)).map Dispatch.flight ++
      (s.dropDispatchesPending q userEvent).flights) := by
  rw [flights, flights, ← map_append]
  refine List.Perm.map _ ?_
  rw [← append_assoc]
  refine ((filter_append_perm (waitsOn q userEvent) s.pending).symm.append_left s.running).trans ?_
  rw [← append_assoc]
  exact perm_append_comm.append_right _

theorem System.Tracks.discard (q : κ) (ds : List (Dispatch κ))
    (hflights : s.flights.Perm (ds ++ s'.flights)) (hnone : ∀ d ∈ ds, d.execution = none)
    (hkeeps : s.Keeps s')
    (hcount : s'.executionRefcount = s.executionRefcount)
    (hmap : s'.userCommandBuffers = s.userCommandBuffers) :
    (s'.destroyAll q (ds.map (·.commandBuffer))).Tracks := by
  obtain ⟨hs', hnodup⟩ := hs.remove ds hflights hkeeps
    (fun c => by
      rw [hcount, countP_eq_zero.2 fun d hd => ?_, Nat.sub_zero]
      rw [hnone d hd]
      exact nofun)
    (fun q' m c => by
      rw [hmap]
      exact ⟨fun hc => ⟨hc, fun d hd hat => hat.2.2 (hnone d hd)⟩, fun hc => hc.1⟩)
  refine hs'.destroyAll q _ hnodup fun m hm => ?_
  obtain ⟨d, hd, rfl⟩ := mem_map.1 hm
  have hmem : d ∈ s.flights := hflights.mem_iff.2 (mem_append_left _ hd)
  cases hs.proper d hmem with
  | owned c hmux hexecution => cases (hnone d hd).symm.trans hexecution
  | made id hmux =>
    refine ⟨id, ?_, hmux⟩
    rw [hkeeps.next]
    exact hs.fresh id (mem_append_left _ (mem_map.2 ⟨d, hmem, hmux⟩))

theorem System.Tracks.dropDispatchesPending (q : κ) (userEvent : Nat)
    (hnone : ∀ d ∈ s.pending, waitsOn q userEvent d → d.execution = none) :
    (s.dropDispatchesPending q userEvent).Tracks := by
  have hdropped : ∀ d ∈ (s.pending.filter (waitsOn q userEvent)).map Dispatch.flight,
      d.execution = none := by
    intro d hd
    obtain ⟨d', hd', rfl⟩ := mem_map.1 hd
    obtain ⟨hmem, hwaits⟩ := mem_filter.1 hd'
    exact hnone d' hmem hwaits
  have hflights : s.flights.Perm ((s.pending.filter (waitsOn q userEvent)).map Dispatch.flight ++
      flights { s with pending := s.pending.filter fun d => !waitsOn q userEvent d }) :=
    s.flights_dropDispatchesPending q userEvent
  have htracks := hs.discard q _ hflights hdropped ⟨rfl, rfl, rfl, rfl⟩ rfl rfl
  rw [map_map] at htracks
  exact htracks

/-- A `cl_command_buffer_khr` whose execution is dropped stays counted. -/
theorem System.Tracks.not_sound_dropDispatchesPending {q : κ} {userEvent c : Nat}
    (hd : d ∈ s.pending) (hwaits : waitsOn q userEvent d) (hexecution : d.execution = some c) :
    ¬(s.dropDispatchesPending q userEvent).Sound := by
  intro hsound
  have hcount := hsound.counted c
  change s.executionRefcount c = _ at hcount
  rw [hs.counted, (s.flights_dropDispatchesPending q userEvent).countP_eq, countP_append,
    Nat.add_eq_right, countP_eq_zero] at hcount
  exact hcount d.flight (mem_map_of_mem (mem_filter.2 ⟨hd, hwaits⟩))
    (decide_eq_true hexecution)

end

/-! ### Runs -/

namespace System

/-- A step; `cleanup` of a command buffer that the queue does not know ends the run. -/
def nextState (s : System κ) (label : Step κ) : System κ := (s.step label).getD s

/-- No execution of a `cl_command_buffer_khr` waits on a user event that fails. -/
def Handled (s : System κ) : Step κ → Prop
  | .dropDispatchesPending q userEvent => ∀ d ∈ s.pending, waitsOn q userEvent d → d.execution = none
  | .finalize .. | .enqueueCommandBuffer .. | .createCommandBuffer .. | .flush .. | .cleanup ..
  | .removeWaitEvent .. => True

theorem Tracks.step (hs : s.Tracks) (hhandled : s.Handled label) :
    ∃ s', s.step label = some s' ∧ s'.Tracks := by
  cases label with
  | finalize c =>
    refine ⟨_, rfl, hs.of_perm (.refl _) rfl rfl rfl rfl rfl fun c' hc' => ?_⟩
    change update s.isFinalized c true c' = false at hc'
    rw [update_apply] at hc'
    split at hc'
    · cases hc'
    · exact hc'
  | enqueueCommandBuffer q c waitEvents => exact ⟨_, rfl, hs.clEnqueueCommandBuffer q c waitEvents⟩
  | createCommandBuffer q waitEvents => exact ⟨_, rfl, hs.createCommandBuffer q waitEvents⟩
  | flush q => exact ⟨_, rfl, hs.of_perm (s.flights_flush q) rfl rfl rfl rfl rfl fun _ hc => hc⟩
  | cleanup q => exact hs.cleanup q
  | removeWaitEvent =>
    refine ⟨_, rfl, hs.of_perm ?_ rfl rfl rfl rfl rfl fun _ hc => hc⟩
    rw [flights_removeWaitEvent]
  | dropDispatchesPending q userEvent => exact ⟨_, rfl, hs.dropDispatchesPending q userEvent hhandled⟩

theorem Tracks.works_iff (hs : s.Tracks) : s.Works label ↔ s.Handled label := by
  constructor
  · rintro ⟨s', hstep, hsound⟩
    cases label with
    | dropDispatchesPending =>
      intro d hd hwaits
      cases hexecution : d.execution with
      | none => rfl
      | some =>
        cases hstep
        exact absurd hsound (hs.not_sound_dropDispatchesPending hd hwaits hexecution)
    | _ => trivial
  · intro hhandled
    obtain ⟨s', hstep, hs'⟩ := hs.step hhandled
    exact ⟨s', hstep, hs'.sound⟩

end System

end ConstructionKit.Khr
