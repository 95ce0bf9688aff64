import ConstructionKit.Host.Phase
import ConstructionKit.ProofKit.Runs

/-! The order of dispatches: a group is enqueued when the last semaphore that it waits for is
signalled. -/

namespace ConstructionKit.Host

open ProofKit List Function

variable {s : State} {t u : Tracked} {group g : Group} {sem other : Sem} {phases : Group → Phase}
  {waits : List Sem} {job : Job} {n : Nat} (sems : List Sem) (groups : List Group)

/-! ### What is missing -/

/-- How many of the semaphores of a dispatch have not been signalled. -/
def Waits.missing (waits : Waits) : Nat := waits.countP (!·.2)

/-- How often a dispatch still waits for a semaphore. -/
def awaited (waits : Option Waits) (sem : Sem) : Nat :=
  match waits with
  | none => 0
  | some waits => waits.count (sem, false)

def Phase.ofMissing : Nat → Phase
  | 0 => .running
  | n + 1 => .waiting (n + 1)

def phaseOf : Option Waits → Phase
  | none => .idle
  | some waits => .ofMissing waits.missing

/-- A group is enqueued exactly if none of its semaphores is missing, and until then the wait count is
the number of those that are. -/
def Tracked.Sound (t : Tracked) : Prop :=
  ∀ group, match t.waits group with
    | none => t.state.counts group = [] ∧ t.state.jobs group = []
    | some waits =>
      if waits.missing = 0 then t.state.counts group = [] ∧ t.state.jobs group = [false]
      else t.state.counts group = [waits.missing] ∧ t.state.jobs group = []

theorem Phase.signalled_ofMissing (n : Nat) : (ofMissing n).signalled = ofMissing (n - 1) := by
  match n with
  | 0 => rfl
  | 1 => rfl
  | n + 2 => rfl

theorem Phase.iterate_ofMissing (k n : Nat) : signalled^[k] (ofMissing n) = ofMissing (n - k) := by
  induction k generalizing n with
  | zero => rfl
  | succ k ih =>
    rw [iterate_succ_apply, signalled_ofMissing, ih]
    congr 1
    omega

theorem Phase.iterate_idle (k : Nat) : signalled^[k] idle = idle := by
  induction k with
  | zero => rfl
  | succ k ih => rw [iterate_succ_apply]; exact ih

theorem missing_mark (waits : Waits) (sem : Sem) :
    (waits.mark sem).missing = waits.missing - waits.count (sem, false) := by
  have hadd : (waits.mark sem).missing + waits.count (sem, false) = waits.missing := by
    induction waits with
    | nil => rfl
    | cons w waits ih =>
      obtain ⟨other, signalled⟩ := w
      simp only [Waits.missing, Waits.mark] at ih ⊢
      by_cases hsem : other = sem <;> cases signalled <;> simp [hsem] at ih ⊢ <;> omega
  omega

theorem count_mark_self (waits : Waits) (sem : Sem) : (waits.mark sem).count (sem, false) = 0 := by
  rw [count_eq_zero, Waits.mark, mem_map]
  rintro ⟨w, -, hw⟩
  simp only [Prod.mk.injEq, Bool.or_eq_false_iff, beq_eq_false_iff_ne] at hw
  exact hw.2.2 hw.1

theorem count_mark_of_ne (waits : Waits) (hne : other ≠ sem) :
    (waits.mark sem).count (other, false) = waits.count (other, false) := by
  induction waits with
  | nil => rfl
  | cons w waits ih =>
    obtain ⟨x, signalled⟩ := w
    simp only [Waits.mark, map_cons, count_cons] at ih ⊢
    rw [ih]
    congr 1
    by_cases hx : x = sem
    · subst hx
      simp [Ne.symm hne]
    · simp [hx]

theorem awaited_mark_self (waits : Option Waits) (sem : Sem) :
    awaited (waits.map (·.mark sem)) sem = 0 := by
  cases waits with
  | none => rfl
  | some waits => exact count_mark_self waits sem

theorem awaited_mark_of_ne (waits : Option Waits) (hne : other ≠ sem) :
    awaited (waits.map (·.mark sem)) other = awaited waits other := by
  cases waits with
  | none => rfl
  | some waits => exact count_mark_of_ne waits hne

theorem iterate_phaseOf (waits : Option Waits) (sem : Sem) :
    Phase.signalled^[awaited waits sem] (phaseOf waits) = phaseOf (waits.map (·.mark sem)) := by
  cases waits with
  | none => exact Phase.iterate_idle _
  | some =>
    rw [awaited, phaseOf, Phase.iterate_ofMissing, Option.map_some, phaseOf, missing_mark]

/-! ### What signals leave alone -/

@[simp] theorem State.semaphores_signalCompleted (s : State) (group : Group) (terminate : Bool) :
    (s.signalCompleted group terminate).semaphores = s.semaphores := by
  rw [signalCompleted]
  split
  · rfl
  · split
    · rfl
    · simp only
      split <;> rfl

theorem semaphores_signalAll (s : State) (terminate : Bool) :
    (groups.foldl (fun s group => s.signalCompleted group terminate) s).semaphores =
      s.semaphores := by
  induction groups generalizing s with
  | nil => rfl
  | cons group groups ih => rw [foldl_cons, ih, State.semaphores_signalCompleted]

theorem inPhase_signalAll (h : ∀ g, s.InPhase g (phases g)) (g : Group) :
    (groups.foldl (fun s group => s.signalCompleted group false) s).InPhase g
      (Phase.signalled^[groups.count g] (phases g)) := by
  induction groups generalizing s phases with
  | nil => exact h g
  | cons group groups ih =>
    have hstep : ∀ g, (s.signalCompleted group false).InPhase g
        (if g = group then (phases g).signalled else phases g) := by
      intro g
      split
      · rename_i heq
        rw [heq]
        exact inPhase_signalCompleted (h group)
      · rename_i hne
        exact inPhase_signalCompleted_of_ne hne (h g)
    have hrest := ih hstep
    rw [foldl_cons, count_cons]
    by_cases heq : g = group
    · subst heq
      simpa only [if_true, beq_self_eq_true, iterate_succ_apply] using hrest
    · simpa only [heq, if_false, beq_iff_eq, Ne.symm heq, Nat.add_zero] using hrest

/-! ### The invariant -/

structure Tracked.Inv (t : Tracked) : Prop where
  phase : ∀ g, t.state.InPhase g (phaseOf (t.waits g))
  notFailed : ∀ sem, (t.state.semaphores sem).failed = false
  listed : ∀ sem, (t.state.semaphores sem).signalled = false → ∀ g,
    (t.state.semaphores sem).waitingGroups.count g = awaited (t.waits g) sem
  done : ∀ sem, (t.state.semaphores sem).signalled = true → ∀ g, awaited (t.waits g) sem = 0

theorem Tracked.inv_create : Tracked.create.Inv :=
  ⟨fun _ => ⟨rfl, rfl⟩, fun _ => rfl, fun _ _ _ => rfl, fun _ h => by cases h⟩

/-- A signal of a semaphore, in the queue and in the history. -/
def Tracked.signal (t : Tracked) (sem : Sem) : Tracked :=
  { t.mark sem with state := t.state.signal sem false }

theorem semaphores_signal (s : State) (sem : Sem) (terminate : Bool) :
    (s.signal sem terminate).semaphores = update s.semaphores sem
      { s.semaphores sem with signalled := true, failed := terminate } := by
  rw [State.signal, semaphores_signalAll]
  rfl

theorem Tracked.Inv.signal (h : t.Inv) (hsem : (t.state.semaphores sem).signalled = false) :
    (t.signal sem).Inv := by
  refine ⟨fun g => ?_, fun other => ?_, fun other hother g => ?_, fun other hother g => ?_⟩
  · have hphase := inPhase_signalAll (s := t.state.setSemaphore sem
      { t.state.semaphores sem with signalled := true, failed := false })
      (t.state.semaphores sem).waitingGroups h.phase g
    rw [h.listed sem hsem g, iterate_phaseOf] at hphase
    exact hphase
  all_goals
    simp only [Tracked.signal, Tracked.mark, semaphores_signal] at *
    by_cases hne : other = sem
  · rw [hne, update_self]
  · rw [update_of_ne hne]
    exact h.notFailed other
  · rw [hne, update_self] at hother
    cases hother
  · rw [update_of_ne hne] at hother ⊢
    rw [awaited_mark_of_ne _ hne]
    exact h.listed other hother g
  · rw [hne, awaited_mark_self]
  · rw [update_of_ne hne] at hother
    rw [awaited_mark_of_ne _ hne]
    exact h.done other hother g

/-! ### Dispatches -/

theorem inPhase_addGroup (h : ∀ g, s.InPhase g (phases g))
    (hgroup : phases group = .idle) (fence : Option Fence) (hn : n < 2 ^ 32) (g : Group) :
    (s.addGroup group fence (UInt64.ofNat n)).InPhase g
      (if g = group then .ofMissing n else phases g) := by
  have htoNat : (UInt64.ofNat n).toNat = n := by
    rw [UInt64.toNat_ofNat']
    omega
  have hzero : UInt64.ofNat n = 0 ↔ n = 0 := by
    rw [← UInt64.toNat_inj, htoNat]
    rfl
  have hslot := slot_addGroup s group fence (UInt64.ofNat n) g
  by_cases heq : g = group
  · subst heq
    obtain ⟨hcounts, hjobs⟩ : s.InPhase g .idle := hgroup ▸ h g
    rw [State.counts_eq, map_eq_nil_iff] at hcounts
    rw [State.jobs_eq, map_eq_nil_iff] at hjobs
    simp only [hzero, hcounts, hjobs] at hslot ⊢
    cases n with
    | zero => exact ⟨by rw [State.counts_eq, hslot]; rfl, by rw [State.jobs_eq, hslot]; rfl⟩
    | succ n =>
      refine ⟨Nat.succ_pos n, ?_, ?_⟩
      · rw [State.counts_eq, hslot]
        exact congrArg (fun k => [k]) htoNat
      · rw [State.jobs_eq, hslot]
        rfl
  · rw [if_neg heq] at hslot ⊢
    exact (h g).of_slot hslot

/-- The semaphores after the loop over the wait list: those that were not signalled know the group. -/
def State.semaphoresWith (s : State) (group : Group) (sems : List Sem) (sem : Sem) : Semaphore :=
  let semaphore := s.semaphores sem
  if semaphore.signalled then semaphore
  else { semaphore with
    waitingGroups := semaphore.waitingGroups ++ List.replicate (sems.count sem) group }

theorem semaphores_addWait (s : State) (group : Group) (sem other : Sem) :
    (s.addWait group sem).semaphores other =
      if other = sem ∧ (s.semaphores sem).signalled = false then
        { s.semaphores sem with waitingGroups := (s.semaphores sem).waitingGroups ++ [group] }
      else s.semaphores other := by
  rw [State.addWait]
  cases hsignalled : (s.semaphores sem).signalled with
  | true => simp
  | false =>
    by_cases heq : other = sem
    · subst heq
      simp [State.setSemaphore, hsignalled]
    · simp [State.setSemaphore, heq]

theorem flags_addWait (s : State) (group : Group) (sem other : Sem) :
    ((s.addWait group sem).semaphores other).signalled = (s.semaphores other).signalled ∧
      ((s.addWait group sem).semaphores other).failed = (s.semaphores other).failed := by
  rw [semaphores_addWait]
  split
  · rename_i heq
    rw [heq.1]
    exact ⟨rfl, rfl⟩
  · exact ⟨rfl, rfl⟩

theorem semaphores_addWaits (s : State) (group : Group) (other : Sem) :
    (sems.foldl (fun s sem => s.addWait group sem) s).semaphores other =
      s.semaphoresWith group sems other := by
  induction sems generalizing s with
  | nil => simp [State.semaphoresWith]
  | cons sem sems ih =>
    rw [foldl_cons, ih, State.semaphoresWith, State.semaphoresWith, semaphores_addWait]
    by_cases heq : other = sem
    · subst heq
      cases hsignalled : (s.semaphores other).signalled with
      | true => simp [hsignalled]
      | false => simp [hsignalled, replicate_succ]
    · simp [heq, Ne.symm heq]

theorem semaphores_hostDispatch (s : State) (group : Group) (fence : Option Fence)
    (waits signals : List Sem) (sem : Sem) :
    (s.hostDispatch group fence waits signals).semaphores sem = s.semaphoresWith group waits sem := by
  rw [State.hostDispatch, semaphores_addWaits, State.addGroup]
  split <;> rfl

theorem flags_semaphoresWith (s : State) (group : Group) (waits : List Sem) (sem : Sem) :
    (s.semaphoresWith group waits sem).signalled = (s.semaphores sem).signalled ∧
      (s.semaphoresWith group waits sem).failed = (s.semaphores sem).failed := by
  simp only [State.semaphoresWith]
  split <;> exact ⟨rfl, rfl⟩

theorem count_semaphoresWith (h : (s.semaphores sem).signalled = false) (g : Group) :
    (s.semaphoresWith group waits sem).waitingGroups.count g =
      (s.semaphores sem).waitingGroups.count g + if g = group then waits.count sem else 0 := by
  rw [State.semaphoresWith]
  by_cases heq : g = group
  · simp [h, heq]
  · simp [h, heq, count_replicate, Ne.symm heq]

theorem inPhase_addWaits (hfailed : ∀ sem, (s.semaphores sem).failed = false)
    (h : ∀ g, s.InPhase g (if g = group then .ofMissing n else phases g)) (g : Group) :
    (sems.foldl (fun s sem => s.addWait group sem) s).InPhase g
      (if g = group then .ofMissing (n - sems.countP fun sem => (s.semaphores sem).signalled)
        else phases g) := by
  induction sems generalizing s n with
  | nil => exact h g
  | cons sem sems ih =>
    have hflags := flags_addWait s group sem
    have hstep : ∀ g, (s.addWait group sem).InPhase g
        (if g = group then .ofMissing (n - if (s.semaphores sem).signalled then 1 else 0)
          else phases g) := by
      intro g
      rw [State.addWait]
      cases hsignalled : (s.semaphores sem).signalled with
      | false => exact h g
      | true =>
        simp only [if_true, hfailed sem]
        have hgroup := h group
        rw [if_pos rfl] at hgroup
        split
        · rename_i heq
          rw [heq, ← Phase.signalled_ofMissing]
          exact inPhase_signalCompleted hgroup
        · rename_i hne
          have hg := h g
          rw [if_neg hne] at hg
          exact inPhase_signalCompleted_of_ne hne hg
    have hrest := ih (fun other => (hflags other).2.trans (hfailed other)) hstep
    simp only [(hflags _).1] at hrest
    rw [countP_cons]
    rwa [Nat.sub_sub, Nat.add_comm] at hrest

theorem missing_dispatch (signalled : Sem → Bool) :
    Waits.missing (sems.map fun sem => (sem, signalled sem)) =
      sems.length - sems.countP signalled := by
  have hadd : Waits.missing (sems.map fun sem => (sem, signalled sem)) + sems.countP signalled =
      sems.length := by
    induction sems with
    | nil => rfl
    | cons sem sems ih =>
      simp only [Waits.missing, map_cons, countP_cons] at ih ⊢
      cases signalled sem <;> simp at ih ⊢ <;> omega
  omega

theorem count_dispatch {β : Type} [BEq β] [LawfulBEq β] (how : Sem → β) (sem : Sem)
    (b : β) :
    (sems.map fun sem => (sem, how sem)).count (sem, b) = if how sem == b then sems.count sem else 0 := by
  induction sems with
  | nil => simp
  | cons other sems ih =>
    rw [map_cons, count_cons, ih]
    by_cases heq : other = sem
    · subst heq
      by_cases hb : how other = b <;> simp [hb]
    · simp [heq]

theorem awaited_dispatch (h : t.Inv) (hgroup : t.waits group = none) (waits : List Sem) (g : Group)
    (sem : Sem) :
    awaited (update t.waits group
      (some (waits.map fun sem => (sem, (t.state.semaphores sem).signalled))) g) sem =
      if (t.state.semaphores sem).signalled then 0
      else (t.state.semaphores sem).waitingGroups.count g +
        if g = group then waits.count sem else 0 := by
  by_cases heq : g = group
  · subst heq
    rw [update_self, awaited, count_dispatch waits (fun sem =>
      (t.state.semaphores sem).signalled) sem]
    cases hsem : (t.state.semaphores sem).signalled with
    | true => rfl
    | false =>
      have hlisted := h.listed sem hsem g
      rw [hgroup, awaited] at hlisted
      simp [hlisted]
  · rw [update_of_ne heq]
    cases hsem : (t.state.semaphores sem).signalled with
    | true => exact h.done sem hsem g
    | false => simp [heq, h.listed sem hsem g]

theorem Tracked.Inv.dispatch (h : t.Inv) (hgroup : t.waits group = none)
    (hlength : waits.length < 2 ^ 32) (fence : Option Fence) (signals : List Sem) :
    Tracked.Inv ⟨t.state.hostDispatch group fence waits signals, update t.waits group
      (some (waits.map fun sem => (sem, (t.state.semaphores sem).signalled)))⟩ := by
  let s := (t.state.setSignalSemaphores group (t.state.signalSemaphores group ++ signals)).addGroup
    group fence (UInt64.ofNat waits.length)
  have hs : s.semaphores = t.state.semaphores := by
    simp only [s, State.addGroup]
    split <;> rfl
  have hphase : ∀ g, s.InPhase g
      (if g = group then .ofMissing waits.length else phaseOf (t.waits g)) := by
    apply inPhase_addGroup (s := t.state.setSignalSemaphores group _) h.phase _ fence hlength
    rw [hgroup, phaseOf]
  have hsemaphores := semaphores_hostDispatch t.state group fence waits signals
  have hflags := flags_semaphoresWith t.state group waits
  refine ⟨fun g => ?_, fun sem => ?_, fun sem hsem g => ?_, fun sem hsem g => ?_⟩
  · have hwaits := inPhase_addWaits waits (fun sem => by rw [hs]; exact h.notFailed sem) hphase g
    rw [hs] at hwaits
    simp only [update_apply]
    split at hwaits
    · rename_i heq
      rw [if_pos heq, phaseOf, missing_dispatch]
      exact hwaits
    · rename_i hne
      rw [if_neg hne]
      exact hwaits
  · rw [hsemaphores, (hflags sem).2]
    exact h.notFailed sem
  · rw [hsemaphores, (hflags sem).1] at hsem
    rw [hsemaphores, awaited_dispatch h hgroup, count_semaphoresWith hsem, hsem,
      if_neg Bool.false_ne_true]
  · rw [hsemaphores, (hflags sem).1] at hsem
    rw [awaited_dispatch h hgroup, hsem, if_pos rfl]

/-! ### Completions -/

theorem jobs_erase (hjob : job ∈ s.pool) (hone : s.jobs job.group = [false]) (g : Group) :
    job.terminate = false ∧ State.jobs { s with pool := s.pool.erase job } g =
      if g = job.group then [] else s.jobs g := by
  rw [State.jobs, map_eq_singleton_iff] at hone
  obtain ⟨only, hfilter, honly⟩ := hone
  have hmem : job ∈ s.pool.filter fun other => other.group = job.group :=
    mem_filter.2 ⟨hjob, by simp⟩
  rw [hfilter, mem_singleton] at hmem
  subst hmem
  refine ⟨honly, ?_⟩
  rw [State.jobs, ← erase_filter]
  split
  · rename_i heq
    rw [heq, hfilter, erase_cons_head, map_nil]
  · rename_i hne
    rw [erase_of_not_mem, State.jobs]
    simp [Ne.symm hne]

/-- The pool and the history without a job that is done. -/
def Tracked.finish (t : Tracked) (job : Job) : Tracked :=
  { state := { t.state with
      pool := t.state.pool.erase job
      completions := t.state.completions ++ [⟨job.group, job.fence, job.terminate⟩] }
    waits := update t.waits job.group none }

/-- A job in the pool is the only one of its group, which waits for nothing. -/
theorem Tracked.Inv.running (h : t.Inv) (hjob : job ∈ t.state.pool) :
    t.state.counts job.group = [] ∧ t.state.jobs job.group = [false] ∧
      phaseOf (t.waits job.group) = .running := by
  have hjobs : t.state.jobs job.group ≠ [] := by
    rw [State.jobs, ne_eq, map_eq_nil_iff, filter_eq_nil_iff]
    intro hnone
    exact hnone job hjob (by simp)
  have hphase := h.phase job.group
  cases hcase : phaseOf (t.waits job.group) with
  | idle => rw [hcase] at hphase; exact absurd hphase.2 hjobs
  | waiting => rw [hcase] at hphase; exact absurd hphase.2.2 hjobs
  | running => rw [hcase] at hphase; exact ⟨hphase.1, hphase.2, rfl⟩

theorem awaited_eq_zero {waits : Option Waits} (h : phaseOf waits = .running) (sem : Sem) :
    awaited waits sem = 0 := by
  cases waits with
  | none => rfl
  | some waits =>
    have hmissing : waits.missing = 0 := by
      rw [phaseOf] at h
      cases hcase : waits.missing with
      | zero => rfl
      | succ => rw [hcase] at h; cases h
    rw [Waits.missing, countP_eq_zero] at hmissing
    rw [awaited, count_eq_zero]
    intro hmem
    exact hmissing _ hmem rfl

theorem Tracked.Inv.finish (h : t.Inv) (hjob : job ∈ t.state.pool) :
    job.terminate = false ∧ (t.finish job).Inv := by
  obtain ⟨hcounts, hone, hphase⟩ := h.running hjob
  have hjobs := jobs_erase hjob hone
  have hawaited : ∀ g sem, awaited (update t.waits job.group none g) sem =
      awaited (t.waits g) sem := by
    intro g sem
    rw [update_apply]
    split
    · rename_i heq
      rw [heq, awaited_eq_zero hphase]
      rfl
    · rfl
  refine ⟨(hjobs job.group).1, fun g => ?_, h.notFailed, fun sem hsem g => ?_, fun sem hsem g => ?_⟩
  · have hg := (hjobs g).2
    simp only [Tracked.finish, update_apply]
    split
    · rename_i heq
      rw [if_pos heq] at hg
      exact ⟨heq ▸ hcounts, hg⟩
    · rename_i hne
      rw [if_neg hne] at hg
      exact (h.phase g).of_eq rfl hg
  · exact (h.listed sem hsem g).trans (hawaited g sem).symm
  · exact (hawaited g sem).trans (h.done sem hsem g)

theorem Tracked.Inv.signals {sems : List Sem} (h : t.Inv) (hnodup : sems.Nodup)
    (hsems : ∀ sem ∈ sems, (t.state.semaphores sem).signalled = false) :
    (sems.foldl Tracked.signal t).Inv := by
  induction sems generalizing t with
  | nil => exact h
  | cons sem sems ih =>
    rw [nodup_cons] at hnodup
    refine ih (h.signal (hsems sem (by simp))) hnodup.2 fun other hother => ?_
    have hne : other ≠ sem := fun heq => hnodup.1 (heq ▸ hother)
    simp only [Tracked.signal, semaphores_signal, update_of_ne hne]
    exact hsems other (mem_cons_of_mem _ hother)

/-! A completion signals in the queue first and then in the history. -/

theorem state_signals (t : Tracked) :
    (sems.foldl Tracked.signal t).state =
      sems.foldl (fun s sem => s.signal sem false) t.state := by
  induction sems generalizing t with
  | nil => rfl
  | cons sem sems ih => exact ih (t.signal sem)

theorem waits_signals (h : t.waits = u.waits) :
    (sems.foldl Tracked.signal t).waits = (sems.foldl Tracked.mark u).waits := by
  induction sems generalizing t u with
  | nil => exact h
  | cons sem sems ih =>
    apply ih
    rw [Tracked.mark, ← h]
    rfl

/-- The list of semaphores that a group is to signal does not matter for who waits. -/
theorem Tracked.Inv.setSignalSemaphores (h : t.Inv) (group : Group) (sems : List Sem) :
    Tracked.Inv { t with state := t.state.setSignalSemaphores group sems } :=
  ⟨h.phase, h.notFailed, h.listed, h.done⟩

/-! ### Runs -/

/-- A reset is only made of a semaphore that no dispatch still waits for. -/
def Tracked.AllowedUnawaited (t : Tracked) (event : Event) : Prop :=
  t.Allowed event ∧ ∀ sem, event = .reset sem → ∀ g, awaited (t.waits g) sem = 0

theorem Tracked.Inv.complete (h : t.Inv) (hallowed : t.Allowed (.complete job))
    (hstep : t.step (.complete job) = some u) : u.Inv := by
  rw [Tracked.step] at hstep
  split at hstep
  · rename_i hjob
    obtain ⟨hterminate, hfinish⟩ := h.finish hjob
    have hsignals := (hfinish.signals hallowed.1 hallowed.2).setSignalSemaphores job.group []
    let done : Tracked := { t with waits := update t.waits job.group none }
    rw [state_signals, waits_signals _ (show (t.finish job).waits = done.waits from rfl)] at hsignals
    cases hstep
    simpa only [State.threadPoolCleanup, Tracked.finish, hterminate] using hsignals
  · cases hstep

theorem Tracked.Inv.reset (h : t.Inv) (hunawaited : ∀ g, awaited (t.waits g) sem = 0) :
    Tracked.Inv { t with state := t.state.reset sem } := by
  have hother : ∀ {other}, other ≠ sem → (t.state.reset sem).semaphores other =
      t.state.semaphores other := fun hne => update_of_ne hne _ _
  have hself : (t.state.reset sem).semaphores sem = ⟨false, false, []⟩ := update_self _ _ _
  refine ⟨h.phase, fun other => ?_, fun other hsem g => ?_, fun other hsem g => ?_⟩ <;>
    by_cases hne : other = sem
  · rw [hne, hself]
  · rw [hother hne]
    exact h.notFailed other
  · rw [hne, hself, hunawaited]
    rfl
  · rw [hother hne] at hsem ⊢
    exact h.listed other hsem g
  · rw [hne, hself] at hsem
    cases hsem
  · rw [hother hne] at hsem
    exact h.done other hsem g

theorem Tracked.Inv.step (h : t.Inv) {event : Event} (hallowed : t.AllowedUnawaited event)
    (hstep : t.step event = some u) : u.Inv := by
  cases event with
  | dispatch group fence waits signals =>
    cases hstep
    exact h.dispatch hallowed.1.1 hallowed.1.2 fence signals
  | complete => exact h.complete hallowed.1 hstep
  | signal =>
    cases hstep
    exact h.signal hallowed.1
  | reset sem =>
    cases hstep
    exact h.reset (hallowed.2 sem rfl)

theorem Tracked.Inv.sound (h : t.Inv) : t.Sound := by
  intro group
  have hphase := h.phase group
  cases hwaits : t.waits group with
  | none =>
    rw [hwaits] at hphase
    exact hphase
  | some waits =>
    rw [hwaits, phaseOf] at hphase
    cases hmissing : waits.missing with
    | zero =>
      rw [hmissing] at hphase
      simp only [hmissing]
      exact hphase
    | succ =>
      rw [hmissing] at hphase
      simp only [hmissing]
      exact hphase.2

/-- In every run whose resets are of semaphores that nothing waits for, a dispatched group is in the
thread pool once as soon as its last semaphore is signalled and not before; until then its wait count
is the number of semaphores that are missing. -/
theorem sound_of_dispatches (h : Runs Tracked.step Tracked.AllowedUnawaited Tracked.create t) :
    t.Sound := by
  suffices hinv : t.Inv from hinv.sound
  apply h.invariant
  · intro s t event hallowed hstep hs
    exact hs.step hallowed hstep
  · exact Tracked.inv_create

/-- A group that waits twice for one semaphore. -/
theorem sound_of_dispatches_twice : ∃ t : Tracked, t.state.jobs 0 = [false] ∧
    t.waits 0 = some [(5, true), (5, true)] ∧ t.Sound := by
  let dispatched : Tracked := ⟨State.create.hostDispatch 0 none [5, 5] [7],
    update (fun _ => none) 0 (some [(5, false), (5, false)])⟩
  have hdispatch : Tracked.AllowedUnawaited .create (.dispatch 0 none [5, 5] [7]) :=
    ⟨⟨rfl, by decide⟩, fun _ h => by cases h⟩
  have hsignal : dispatched.AllowedUnawaited (.signal 5) := ⟨rfl, fun _ h => by cases h⟩
  have hrun : Runs Tracked.step Tracked.AllowedUnawaited .create dispatched :=
    .tail .refl hdispatch rfl
  exact ⟨dispatched.signal 5, rfl, rfl, sound_of_dispatches (.tail hrun hsignal rfl)⟩

/-- A reset of a semaphore that a group waits for drops the group: the next signal does not enqueue
it. -/
theorem not_sound_of_reset :
    ∃ t, Runs Tracked.step Tracked.Allowed Tracked.create t ∧ ¬ t.Sound := by
  let dispatched : Tracked := ⟨State.create.hostDispatch 0 none [5] [],
    update (fun _ => none) 0 (some [(5, false)])⟩
  have hdispatch : Tracked.Allowed .create (.dispatch 0 none [5] []) := ⟨rfl, by decide⟩
  have hrun : Runs Tracked.step Tracked.Allowed .create dispatched := .tail .refl hdispatch rfl
  let reset : Tracked := { dispatched with state := dispatched.state.reset 5 }
  have hreset : Runs Tracked.step Tracked.Allowed .create reset :=
    .tail hrun (show dispatched.Allowed (.reset 5) from trivial) rfl
  refine ⟨reset.signal 5, .tail hreset (show reset.Allowed (.signal 5) from rfl) rfl, fun h => ?_⟩
  have hjobs : (reset.signal 5).state.jobs 0 = [false] := (h 0).2
  cases hjobs

end ConstructionKit.Host
