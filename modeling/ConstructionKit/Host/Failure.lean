import Mathlib.Data.List.Count
import ConstructionKit.Host.Dispatch

/-! Semaphores that are signalled with a failure, and the groups that wait for them. -/

namespace ConstructionKit.Host.Failure

open ProofKit List Function

variable {s : State} {group g : Group} {sem : Sem}

/-! ### Histories -/

/-- A dispatch that is not complete.  Each semaphore that it waits for comes with how it was signalled,
at the dispatch or later: `some true` is a failure. -/
structure Dispatch where
  fence : Option Fence
  waits : List (Sem × Option Bool)
deriving DecidableEq, Repr

def Dispatch.missing (d : Dispatch) : Nat := d.waits.countP (·.2.isNone)

def Dispatch.failures (d : Dispatch) : Nat := d.waits.countP (·.2 == some true)

def Dispatch.mark (d : Dispatch) (sem : Sem) (terminate : Bool) : Dispatch :=
  { d with waits := d.waits.map fun w => (w.1, w.2.or (if w.1 = sem then some terminate else none)) }

/-- How often a dispatch still waits for a semaphore. -/
def awaited (d : Option Dispatch) (sem : Sem) : Nat :=
  match d with
  | none => 0
  | some d => d.waits.count (sem, none)

/-- A queue, the dispatches that are not complete, and the completions that the others should have
got. -/
structure History where
  state : State
  dispatches : Group → Option Dispatch
  outcomes : List Completion

inductive Event where
  | dispatch (group : Group) (fence : Option Fence) (waitSemaphores signalSemaphores : List Sem)
  | complete (job : Job)
  | signal (sem : Sem) (terminate : Bool)
  | reset (sem : Sem)
deriving DecidableEq, Repr

namespace History

def create : History := ⟨.create, fun _ => none, []⟩

/-- A signal of a semaphore, in the queue and in the dispatches. -/
def signal (t : History) (terminate : Bool) (sem : Sem) : History :=
  { t with
    state := t.state.signal sem terminate
    dispatches := fun group => (t.dispatches group).map (·.mark sem terminate) }

/-- The job of a group is done, and its completion reported. -/
def finish (t : History) (job : Job) : History :=
  { state := { t.state with
      pool := t.state.pool.erase job
      completions := t.state.completions ++ [⟨job.group, job.fence, job.terminate⟩] }
    dispatches := update t.dispatches job.group none
    outcomes :=
      match t.dispatches job.group with
      | none => t.outcomes
      | some d => t.outcomes ++ [⟨job.group, d.fence, decide (0 < d.failures)⟩] }

def next (t : History) : Event → History
  | .dispatch group fence waitSemaphores signalSemaphores =>
    let waits := waitSemaphores.map fun sem =>
      let semaphore := t.state.semaphores sem
      (sem, if semaphore.signalled then some semaphore.failed else none)
    { t with
      state := t.state.hostDispatch group fence waitSemaphores signalSemaphores
      dispatches := update t.dispatches group (some ⟨fence, waits⟩) }
  | .complete job =>
    let marked := (t.state.signalSemaphores job.group).foldl (signal · job.terminate) (t.finish job)
    { marked with
      state := State.threadPoolCleanup { t.state with pool := t.state.pool.erase job } job }
  | .signal sem terminate => t.signal terminate sem
  | .reset sem => { t with state := t.state.reset sem }

/-- A command buffer is dispatched at most once before it completes, semaphores are signalled at most
once between resets, and are only reset when nothing waits for them. -/
def Allowed (t : History) : Event → Prop
  | .dispatch group _ waitSemaphores _ =>
    t.dispatches group = none ∧ waitSemaphores.length < 2 ^ 32
  | .complete job => job ∈ t.state.pool ∧ (t.state.signalSemaphores job.group).Nodup ∧
      ∀ sem ∈ t.state.signalSemaphores job.group, (t.state.semaphores sem).signalled = false
  | .signal sem _ => (t.state.semaphores sem).signalled = false
  | .reset sem => ∀ g, awaited (t.dispatches g) sem = 0

/-- Every dispatch that is over has got one completion, a failed one exactly if a semaphore that it
waited for failed.  What is not dispatched has left nothing behind.  What is dispatched has one job
once a semaphore has failed or all of them are signalled, and until then waits for those that are
missing. -/
def Sound (t : History) : Prop :=
  t.state.completions = t.outcomes ∧
    ∀ g, match t.dispatches g with
      | none => t.state.slot g = ⟨[], []⟩
      | some d =>
        if 0 < d.failures then (t.state.slot g).jobs = [⟨g, d.fence, true⟩]
        else if d.missing = 0 then t.state.slot g = ⟨[], [⟨g, d.fence, false⟩]⟩
        else t.state.slot g = ⟨[⟨UInt64.ofNat d.missing, d.fence⟩], []⟩

/-- No job that only cleans up completes, and no dispatch has two failures among its semaphores. -/
def FailsAtMostOnce (t : History) (event : Event) : Prop :=
  (∀ job, event = .complete job → job.terminate = false) ∧
    ∀ g d, (t.next event).dispatches g = some d → d.failures ≤ 1

end History

/-! ### What a dispatch has in the queue -/

/-- The entry is only erased with the last signal that is not a failure, so failures keep it. -/
def slotAt (g : Group) (fence : Option Fence) (missing failures : Nat) : Slot :=
  { infos := if missing + failures = 0 then [] else [⟨UInt64.ofNat (missing + failures), fence⟩]
    jobs := List.replicate failures ⟨g, fence, true⟩ ++
      if missing + failures = 0 then [⟨g, fence, false⟩] else [] }

def slotOf (g : Group) : Option Dispatch → Slot
  | none => ⟨[], []⟩
  | some d => slotAt g d.fence d.missing d.failures

variable {fence : Option Fence} {failures missing : Nat} (d : Dispatch)

theorem signalled_slotAt (h : missing + 1 + failures < 2 ^ 64) (terminate : Bool) :
    (slotAt g fence (missing + 1) failures).signalled g terminate =
      slotAt g fence missing (failures + terminate.toNat) := by
  have hpos : missing + 1 + failures ≠ 0 := by omega
  rw [slotAt, Slot.signalled]
  simp only [if_neg hpos]
  cases terminate with
  | true =>
    have hcount : missing + (failures + 1) = missing + 1 + failures := by omega
    simp only [slotAt, Bool.toNat_true, hcount, if_neg hpos, if_true, append_nil,
      replicate_succ']
  | false =>
    have hsub : UInt64.ofNat (missing + 1 + failures) - 1 = UInt64.ofNat (missing + failures) := by
      rw [show missing + 1 + failures = missing + failures + 1 by omega, UInt64.ofNat_add]
      exact UInt64.add_sub_cancel _ _
    have hzero : UInt64.ofNat (missing + failures) = 0 ↔ missing + failures = 0 := by
      rw [← UInt64.toNat_inj, UInt64.toNat_ofNat', Nat.mod_eq_of_lt (by omega)]
      rfl
    simp only [slotAt, hsub, hzero, Bool.toNat_false, Nat.add_zero, Bool.false_eq_true, if_false]
    by_cases hn : missing + failures = 0
    · simp [hn]
    · rw [if_neg hn, if_neg hn, if_neg hn, append_nil]

theorem iterate_slotAt {k : Nat} (h : missing + k + failures < 2 ^ 64) (terminate : Bool) :
    (fun slot : Slot => slot.signalled g terminate)^[k] (slotAt g fence (missing + k) failures) =
      slotAt g fence missing (failures + k * terminate.toNat) := by
  induction k generalizing failures with
  | zero => simp
  | succ k ih =>
    have hone : terminate.toNat ≤ 1 := Bool.toNat_le terminate
    rw [iterate_succ_apply, ← Nat.add_assoc, signalled_slotAt (by omega), ih (by omega),
      Nat.succ_mul, Nat.add_assoc, Nat.add_comm terminate.toNat]

theorem missing_mark (sem : Sem) (terminate : Bool) :
    (d.mark sem terminate).missing + d.waits.count (sem, none) = d.missing ∧
      (d.mark sem terminate).failures =
        d.failures + d.waits.count (sem, none) * terminate.toNat := by
  obtain ⟨fence, waits⟩ := d
  simp only [Dispatch.missing, Dispatch.failures, Dispatch.mark]
  induction waits with
  | nil => simp
  | cons w waits ih =>
    obtain ⟨other, how⟩ := w
    obtain ⟨hmissing, hfailures⟩ := ih
    simp only [map_cons, countP_cons, hfailures, ← hmissing]
    cases how with
    | some => simp; omega
    | none =>
      by_cases hsem : other = sem
      · cases terminate <;> simp [hsem] <;> omega
      · simp [hsem]; omega

theorem count_mark (sem : Sem) (terminate : Bool) (other : Sem) :
    (d.mark sem terminate).waits.count (other, none) =
      if other = sem then 0 else d.waits.count (other, none) := by
  obtain ⟨fence, waits⟩ := d
  simp only [Dispatch.mark]
  induction waits with
  | nil => simp
  | cons w waits ih =>
    obtain ⟨x, how⟩ := w
    simp only [map_cons, count_cons, ih]
    cases how with
    | some => simp
    | none =>
      by_cases hother : other = sem
      · subst hother
        by_cases hx : x = other <;> simp [hx]
      · by_cases hx : x = sem
        · subst hx
          simp [Ne.symm hother]
        · simp [hother, hx]

theorem missing_add_failures_le : d.missing + d.failures ≤ d.waits.length := by
  obtain ⟨fence, waits⟩ := d
  simp only [Dispatch.missing, Dispatch.failures]
  induction waits with
  | nil => simp
  | cons w =>
    obtain ⟨sem, how⟩ := w
    cases how with
    | none => simp; omega
    | some how => cases how <;> simp <;> omega

theorem count_eq_zero_of_missing {d : Dispatch} (h : d.missing = 0) (sem : Sem) :
    d.waits.count (sem, none) = 0 := by
  rw [Dispatch.missing, countP_eq_zero] at h
  rw [count_eq_zero]
  intro hmem
  exact h _ hmem rfl

/-! ### What signals leave alone -/

theorem completions_signalCompleted (s : State) (group : Group) (terminate : Bool) :
    (s.signalCompleted group terminate).completions = s.completions := by
  cases hinfos : infosOf s.signalInfos group with
  | nil => rw [signalCompleted_of_nil hinfos]
  | cons =>
    rw [signalCompleted_of_cons hinfos]
    split
    · rfl
    · split <;> rfl

theorem completions_signalAll (groups : List Group) (s : State) (terminate : Bool) :
    (groups.foldl (fun s group => s.signalCompleted group terminate) s).completions =
      s.completions := by
  induction groups generalizing s with
  | nil => rfl
  | cons group groups ih => rw [foldl_cons, ih, completions_signalCompleted]

theorem slot_signal (s : State) (sem : Sem) (terminate : Bool) (g : Group) :
    (s.signal sem terminate).slot g =
      (fun slot : Slot => slot.signalled g terminate)^[(s.semaphores sem).waitingGroups.count g]
        (s.slot g) :=
  slot_signalAll _ _ _ g

theorem infos_signal_true (s : State) (sem : Sem) (g : Group) :
    ((s.signal sem true).slot g).infos = (s.slot g).infos := by
  rw [slot_signal]
  generalize (s.semaphores sem).waitingGroups.count g = k
  induction k generalizing s with
  | zero => rfl
  | succ k ih => rw [iterate_succ_apply', infos_signalled_true, ih]

/-! ### The invariant -/

namespace History

variable {t : History} {waits : List Sem} {event : Event} {job : Job} (sems : List Sem)

structure Inv (t : History) : Prop where
  slot : ∀ g, t.state.slot g = slotOf g (t.dispatches g)
  outcomes : t.state.completions = t.outcomes
  short : ∀ {g d}, t.dispatches g = some d → d.waits.length < 2 ^ 32
  listed : ∀ sem, (t.state.semaphores sem).signalled = false → ∀ g,
    (t.state.semaphores sem).waitingGroups.count g = awaited (t.dispatches g) sem
  done : ∀ sem, (t.state.semaphores sem).signalled = true → ∀ g,
    awaited (t.dispatches g) sem = 0

theorem inv_create : create.Inv :=
  ⟨fun _ => rfl, rfl, (fun h => by cases h), fun _ _ _ => rfl, fun _ h => by cases h⟩

theorem awaited_mark (d : Option Dispatch) (sem : Sem) (terminate : Bool) (other : Sem) :
    awaited (d.map (·.mark sem terminate)) other = if other = sem then 0 else awaited d other := by
  cases d with
  | none => simp [awaited]
  | some d => exact count_mark d sem terminate other

theorem Inv.signal (h : t.Inv) (hsem : (t.state.semaphores sem).signalled = false)
    (terminate : Bool) : (t.signal terminate sem).Inv := by
  refine ⟨fun g => ?_, ?_, fun {g d} hd => ?_, fun other hother g => ?_, fun other hother g => ?_⟩
  · simp only [History.signal]
    rw [slot_signal, h.listed sem hsem g, h.slot g]
    cases hd : t.dispatches g with
    | none => rfl
    | some d =>
      have hshort := h.short hd
      have hle := missing_add_failures_le d
      obtain ⟨hmissing, hfailures⟩ := missing_mark d sem terminate
      simp only [awaited, slotOf, Option.map_some]
      rw [hfailures, ← hmissing, iterate_slotAt (by omega)]
      rfl
  · exact (completions_signalAll _ _ _).trans h.outcomes
  · obtain ⟨d', hd', rfl⟩ := Option.map_eq_some_iff.1 hd
    simpa [Dispatch.mark] using h.short hd'
  · simp only [History.signal, semaphores_signal, update_apply, awaited_mark] at hother ⊢
    split at hother
    · cases hother
    · rename_i hne
      rw [if_neg hne, if_neg hne]
      exact h.listed other hother g
  · simp only [History.signal, semaphores_signal, update_apply, awaited_mark] at hother ⊢
    split at hother
    · rename_i heq
      rw [if_pos heq]
    · rename_i hne
      rw [if_neg hne]
      exact h.done other hother g

/-! ### Dispatches -/

theorem slot_addWaits (h : s.slot group = slotAt group fence (sems.length + missing) failures)
    (hshort : sems.length + missing + failures < 2 ^ 64) :
    (sems.foldl (fun s sem => s.addWait group sem) s).slot group =
      slotAt group fence (missing + sems.countP fun sem => !(s.semaphores sem).signalled)
        (failures + sems.countP fun sem =>
          (s.semaphores sem).signalled && (s.semaphores sem).failed) := by
  induction sems generalizing s missing failures with
  | nil => simpa using h
  | cons sem sems ih =>
    have hflags := flags_addWait s group sem
    have hslot := slot_addWait s group sem group
    rw [length_cons] at h hshort
    rw [foldl_cons, countP_cons, countP_cons]
    cases hsem : (s.semaphores sem).signalled with
    | true =>
      have hone : (s.semaphores sem).failed.toNat ≤ 1 := Bool.toNat_le _
      rw [if_pos ⟨rfl, hsem⟩, h, show sems.length + 1 + missing = sems.length + missing + 1 by omega,
        signalled_slotAt (by omega)] at hslot
      rw [ih hslot (by omega)]
      simp only [(hflags _).1, (hflags _).2]
      cases (s.semaphores sem).failed with
      | true => simp; congr 1; omega
      | false => simp
    | false =>
      rw [if_neg (by simp [hsem]), h,
        show sems.length + 1 + missing = sems.length + (missing + 1) by omega] at hslot
      rw [ih hslot (by omega)]
      simp only [(hflags _).1, (hflags _).2]
      simp
      congr 1
      omega

theorem slot_addWaits_of_ne (hne : g ≠ group) :
    (sems.foldl (fun s sem => s.addWait group sem) s).slot g = s.slot g := by
  induction sems generalizing s with
  | nil => rfl
  | cons sem sems ih => rw [foldl_cons, ih, slot_addWait, if_neg fun h => hne h.1]

theorem completions_hostDispatch (s : State) (group : Group) (fence : Option Fence)
    (waits signals : List Sem) :
    (s.hostDispatch group fence waits signals).completions = s.completions := by
  have hwaits : ∀ s : State, (waits.foldl (fun s sem => s.addWait group sem) s).completions =
      s.completions := by
    induction waits with
    | nil => exact fun _ => rfl
    | cons sem waits ih =>
      intro s
      rw [foldl_cons, ih, State.addWait]
      split
      · exact completions_signalCompleted s group _
      · rfl
  rw [State.hostDispatch, hwaits, State.addGroup]
  split <;> rfl

theorem slot_hostDispatch (signals : List Sem)
    (h : s.slot group = ⟨[], []⟩) (hshort : waits.length < 2 ^ 32) :
    (s.hostDispatch group fence waits signals).slot group = slotAt group fence
      (waits.countP fun sem => !(s.semaphores sem).signalled)
      (waits.countP fun sem => (s.semaphores sem).signalled && (s.semaphores sem).failed) := by
  let s' := (s.setSignalSemaphores group (s.signalSemaphores group ++ signals)).addGroup group fence
    (UInt64.ofNat waits.length)
  have hzero : UInt64.ofNat waits.length = 0 ↔ waits.length = 0 := by
    rw [← UInt64.toNat_inj, UInt64.toNat_ofNat', Nat.mod_eq_of_lt (by omega)]
    rfl
  have hslot : s'.slot group = slotAt group fence (waits.length + 0) 0 := by
    rw [slot_addGroup, if_pos rfl, show (s.setSignalSemaphores group _).slot group = _ from h]
    simp only [slotAt, Nat.add_zero, hzero]
    split <;> rfl
  have hsemaphores : s'.semaphores = s.semaphores := by
    simp only [s', State.addGroup]
    split <;> rfl
  have hwaits := slot_addWaits waits hslot (by omega)
  rw [hsemaphores, Nat.zero_add, Nat.zero_add] at hwaits
  exact hwaits

theorem slot_hostDispatch_of_ne {signals : List Sem} (hne : g ≠ group) :
    (s.hostDispatch group fence waits signals).slot g = s.slot g := by
  rw [State.hostDispatch, slot_addWaits_of_ne _ hne, slot_addGroup, if_neg hne]
  rfl

theorem awaited_dispatch (h : t.Inv) (hgroup : t.dispatches group = none) (fence : Option Fence)
    (waits : List Sem) (g : Group) (sem : Sem) :
    awaited (update t.dispatches group (some ⟨fence, waits.map fun sem =>
      (sem, if (t.state.semaphores sem).signalled then some (t.state.semaphores sem).failed
        else none)⟩) g) sem =
      if (t.state.semaphores sem).signalled then 0
      else (t.state.semaphores sem).waitingGroups.count g +
        if g = group then waits.count sem else 0 := by
  by_cases heq : g = group
  · subst heq
    rw [update_self, awaited]
    rw [count_dispatch waits (fun sem =>
      if (t.state.semaphores sem).signalled then some (t.state.semaphores sem).failed else none)]
    cases hsem : (t.state.semaphores sem).signalled with
    | true => simp
    | false =>
      have hlisted := h.listed sem hsem g
      rw [hgroup, awaited] at hlisted
      simp [hlisted]
  · rw [update_of_ne heq]
    cases hsem : (t.state.semaphores sem).signalled with
    | true => exact h.done sem hsem g
    | false => simp [heq, h.listed sem hsem g]

theorem Inv.dispatch (h : t.Inv) (hgroup : t.dispatches group = none)
    (hshort : waits.length < 2 ^ 32) (fence : Option Fence) (signals : List Sem) :
    (t.next (.dispatch group fence waits signals)).Inv := by
  have hsemaphores := semaphores_hostDispatch t.state group fence waits signals
  have hflags := flags_semaphoresWith t.state group waits
  refine ⟨fun g => ?_, ?_, fun {g d} hd => ?_, fun sem hsem g => ?_, fun sem hsem g => ?_⟩
  · simp only [next]
    by_cases heq : g = group
    · subst heq
      have hslot := h.slot g
      rw [hgroup] at hslot
      rw [slot_hostDispatch signals hslot hshort, update_self]
      simp only [slotOf, Dispatch.missing, Dispatch.failures, countP_map]
      congr 1
      all_goals
        congr 1
        funext sem
        cases hsem : (t.state.semaphores sem).signalled <;> simp [hsem]
    · rw [slot_hostDispatch_of_ne heq, update_of_ne heq]
      exact h.slot g
  · exact (completions_hostDispatch ..).trans h.outcomes
  · simp only [next, update_apply] at hd
    split at hd
    · cases hd
      simpa using hshort
    · exact h.short hd
  · simp only [next] at hsem ⊢
    rw [hsemaphores, (hflags sem).1] at hsem
    rw [hsemaphores, awaited_dispatch h hgroup, count_semaphoresWith hsem, hsem,
      if_neg Bool.false_ne_true]
  · simp only [next] at hsem ⊢
    rw [hsemaphores, (hflags sem).1] at hsem
    rw [awaited_dispatch h hgroup, hsem, if_pos rfl]

/-! ### Completions -/

theorem slot_finish (t : History) (job : Job) (g : Group) :
    (t.finish job).state.slot g =
      { t.state.slot g with jobs := (t.state.slot g).jobs.erase job } := by
  simp only [finish, State.slot]
  rw [erase_filter]

theorem Inv.mem_pool (h : t.Inv) (hjob : job ∈ t.state.pool) :
    ∃ d, t.dispatches job.group = some d ∧
      (job.terminate = true ∧ 0 < d.failures ∨
        job = ⟨job.group, d.fence, false⟩ ∧ d.missing + d.failures = 0) := by
  have hmem : job ∈ (t.state.slot job.group).jobs := mem_filter.2 ⟨hjob, by simp⟩
  rw [h.slot] at hmem
  cases hd : t.dispatches job.group with
  | none =>
    rw [hd] at hmem
    cases hmem
  | some d =>
    rw [hd] at hmem
    refine ⟨d, rfl, ?_⟩
    obtain hmem | hmem := mem_append.1 hmem
    · obtain ⟨hfailures, heq⟩ := mem_replicate.1 hmem
      exact .inl ⟨by rw [heq], Nat.pos_of_ne_zero hfailures⟩
    · split at hmem
      · rename_i hcount
        exact .inr ⟨mem_singleton.1 hmem, hcount⟩
      · cases hmem

theorem Inv.finish (h : t.Inv) (hjob : job ∈ t.state.pool)
    (hterminate : job.terminate = false) : (t.finish job).Inv := by
  obtain ⟨d, hd, hfail | ⟨heq, hcount⟩⟩ := h.mem_pool hjob
  · rw [hterminate] at hfail
    cases hfail.1
  have hawaited : ∀ g sem, awaited (update t.dispatches job.group none g) sem =
      awaited (t.dispatches g) sem := by
    intro g sem
    rw [update_apply]
    split
    · rename_i hg
      rw [hg, hd]
      exact (count_eq_zero_of_missing (by omega) sem).symm
    · rfl
  refine ⟨fun g => ?_, ?_, fun {g d'} hd' => ?_, fun sem hsem g => ?_, fun sem hsem g => ?_⟩
  · rw [slot_finish, h.slot g]
    simp only [History.finish, update_apply]
    split
    · rename_i hg
      obtain ⟨hmissing, hfailures⟩ := Nat.add_eq_zero_iff.1 hcount
      simp only [hg, hd, slotOf, slotAt, hmissing, hfailures, if_true, replicate_zero,
        nil_append, ← heq, erase_cons_head]
    · rename_i hg
      rw [erase_of_not_mem]
      intro hmem
      rw [← h.slot g] at hmem
      exact hg (by simpa [eq_comm] using (mem_filter.1 hmem).2)
  · simp only [History.finish, hd, h.outcomes]
    rw [heq]
    simp only [show ¬0 < d.failures by omega, decide_false]
  · simp only [History.finish, update_apply] at hd'
    split at hd'
    · cases hd'
    · exact h.short hd'
  · exact (h.listed sem hsem g).trans (hawaited g sem).symm
  · exact (hawaited g sem).trans (h.done sem hsem g)

theorem Inv.signals {sems : List Sem} (h : t.Inv) (hnodup : sems.Nodup)
    (hsems : ∀ sem ∈ sems, (t.state.semaphores sem).signalled = false) (terminate : Bool) :
    (sems.foldl (History.signal · terminate) t).Inv := by
  induction sems generalizing t with
  | nil => exact h
  | cons sem sems ih =>
    rw [nodup_cons] at hnodup
    refine ih (h.signal (hsems sem (by simp)) terminate) hnodup.2 fun other hother => ?_
    have hne : other ≠ sem := fun heq => hnodup.1 (heq ▸ hother)
    simp only [History.signal, semaphores_signal, update_of_ne hne]
    exact hsems other (mem_cons_of_mem _ hother)

theorem state_signals (t : History) (terminate : Bool) :
    (sems.foldl (History.signal · terminate) t).state =
      sems.foldl (fun s sem => s.signal sem terminate) t.state := by
  induction sems generalizing t with
  | nil => rfl
  | cons sem sems ih => exact ih (t.signal terminate sem)

theorem next_complete (t : History) (job : Job) :
    t.next (.complete job) =
      let marked := (t.state.signalSemaphores job.group).foldl (signal · job.terminate)
        (t.finish job)
      { marked with state := marked.state.setSignalSemaphores job.group [] } := by
  simp only [state_signals]
  rfl

/-- The list of semaphores that a group is to signal does not matter for who waits. -/
theorem Inv.setSignalSemaphores (h : t.Inv) (group : Group) (sems : List Sem) :
    Inv { t with state := t.state.setSignalSemaphores group sems } :=
  ⟨h.slot, h.outcomes, h.short, h.listed, h.done⟩

theorem Inv.reset (h : t.Inv) (hunawaited : ∀ g, awaited (t.dispatches g) sem = 0) :
    (t.next (.reset sem)).Inv := by
  have hsemaphores : ∀ other, (t.state.reset sem).semaphores other =
      if other = sem then ⟨false, false, []⟩ else t.state.semaphores other := by
    intro other
    exact update_apply ..
  refine ⟨h.slot, h.outcomes, h.short, fun other hsem g => ?_, fun other hsem g => ?_⟩
  · simp only [next, hsemaphores] at hsem ⊢
    split at hsem
    · rename_i heq
      rw [if_pos heq, heq, hunawaited]
      rfl
    · rename_i hne
      rw [if_neg hne]
      exact h.listed other hsem g
  · simp only [next, hsemaphores] at hsem ⊢
    split at hsem
    · cases hsem
    · exact h.done other hsem g

/-! ### Runs -/

/-- Every step but the completion of a job that only cleans up. -/
theorem Inv.next (h : t.Inv) (hallowed : t.Allowed event)
    (hterminate : ∀ job, event = .complete job → job.terminate = false) : (t.next event).Inv := by
  cases event with
  | dispatch group fence waits signals => exact h.dispatch hallowed.1 hallowed.2 fence signals
  | complete job =>
    obtain ⟨hjob, hnodup, hsems⟩ := hallowed
    rw [next_complete]
    exact ((h.finish hjob (hterminate job rfl)).signals hnodup hsems _).setSignalSemaphores _ _
  | signal sem terminate => exact h.signal hallowed terminate
  | reset => exact h.reset hallowed

/-- A group that fails leaves its entry behind. -/
theorem Inv.not_sound (h : t.Inv) (hjob : job ∈ t.state.pool)
    (hterminate : job.terminate = true) : ¬(t.next (.complete job)).Sound := by
  obtain ⟨d, hd, ⟨-, hfailures⟩ | ⟨heq, -⟩⟩ := h.mem_pool hjob
  · have hinfos : ∀ (sems : List Sem) (u : History),
        ((sems.foldl (History.signal · true) u).state.slot job.group).infos =
            (u.state.slot job.group).infos ∧
          (u.dispatches job.group = none →
            (sems.foldl (History.signal · true) u).dispatches job.group = none) := by
      intro sems
      induction sems with
      | nil => exact fun u => ⟨rfl, id⟩
      | cons sem sems ih =>
        intro u
        obtain ⟨hsame, hnone⟩ := ih (u.signal true sem)
        refine ⟨hsame.trans (infos_signal_true _ _ _), fun hu => hnone ?_⟩
        simp only [History.signal, hu, Option.map_none]
    obtain ⟨hsame, hnone⟩ := hinfos (t.state.signalSemaphores job.group) (t.finish job)
    intro hsound
    rw [next_complete, hterminate] at hsound
    have hslot := hsound.2 job.group
    rw [hnone (update_self ..)] at hslot
    have hempty : (t.state.slot job.group).infos = [] := by
      exact hsame.symm.trans (congrArg Slot.infos hslot)
    rw [h.slot, hd, slotOf, slotAt, if_neg (by omega)] at hempty
    cases hempty
  · rw [heq] at hterminate
    cases hterminate

theorem Inv.sound_iff (h : t.Inv) :
    t.Sound ↔ ∀ g d, t.dispatches g = some d → d.failures ≤ 1 := by
  constructor
  · intro hsound g d hd
    have hg := hsound.2 g
    rw [h.slot g, hd] at hg
    by_cases hfailures : 0 < d.failures
    · simp only [hfailures, if_true, slotOf, slotAt] at hg
      rw [if_neg (by omega), append_nil] at hg
      have hlength := congrArg List.length hg
      rw [length_replicate] at hlength
      exact Nat.le_of_eq hlength
    · omega
  · intro hone
    refine ⟨h.outcomes, fun g => ?_⟩
    rw [h.slot g]
    cases hd : t.dispatches g with
    | none => rfl
    | some d =>
      have hle := hone g d hd
      simp only [slotOf, slotAt]
      split
      · rw [show d.failures = 1 by omega]
        rfl
      · rw [show d.failures = 0 by omega]
        simp only [Nat.add_zero]
        split <;> rfl

theorem Inv.sound_next_iff (h : t.Inv) (hallowed : t.Allowed event) :
    (t.next event).Sound ↔ t.FailsAtMostOnce event := by
  by_cases hterminate : ∀ job, event = .complete job → job.terminate = false
  · rw [(h.next hallowed hterminate).sound_iff]
    exact ⟨fun hone => ⟨hterminate, hone⟩, fun hone => hone.2⟩
  · refine ⟨fun hsound => ?_, fun hone => absurd hone.1 hterminate⟩
    push Not at hterminate
    obtain ⟨job, rfl, hterminate⟩ := hterminate
    exact absurd hsound (h.not_sound hallowed.1 (by simpa using hterminate))

end History

/-- In a run every dispatch is completed once and leaves nothing behind exactly as long as no group
that has failed completes and none fails twice: the entry of a group is only erased by a signal that
is not a failure. -/
theorem sound_along_iff {events : List Event}
    (h : Along History.next History.Allowed .create events) :
    Along History.next (fun t event => (t.next event).Sound) .create events ↔
      Along History.next History.FailsAtMostOnce .create events := by
  apply along_congr History.Inv _ _ h History.inv_create
  · intro t event ht hallowed
    exact ht.sound_next_iff hallowed
  · intro t event ht hallowed hsound
    exact ht.next hallowed ((ht.sound_next_iff hallowed).1 hsound).1

/-- Group 0 waits for two semaphores.  The first one fails. -/
def oneFailure : List Event := [.dispatch 0 none [5, 6] [], .signal 5 true]

theorem sound_along_oneFailure :
    Along History.next (fun t event => (t.next event).Sound) .create oneFailure := by
  have hallowed : Along History.next History.Allowed .create oneFailure :=
    ⟨⟨rfl, by decide⟩, rfl, trivial⟩
  refine (sound_along_iff hallowed).2 ⟨⟨?_, ?_⟩, ⟨?_, ?_⟩, trivial⟩
  · exact fun _ h => by cases h
  · intro g d hd
    obtain rfl | hg := eq_or_ne g 0
    · cases hd
      decide
    · simp [History.next, History.create, hg] at hd
  · exact fun _ h => by cases h
  · intro g d hd
    obtain rfl | hg := eq_or_ne g 0
    · cases hd
      decide
    · simp [History.next, History.create, History.signal, hg] at hd

/-- Group 0 fails, completes, and is dispatched again with two other semaphores.  The first one of
them is signalled. -/
def failedAndReused : List Event :=
  oneFailure ++ [.complete ⟨0, none, true⟩, .signal 6 false, .dispatch 0 none [7, 8] [],
    .signal 7 false]

/-- The completion leaves the entry behind, and with it the second dispatch starts although a
semaphore is missing. -/
theorem not_sound_along_failedAndReused :
    Along History.next History.Allowed .create failedAndReused ∧
      ¬Along History.next (fun t event => (t.next event).Sound) .create failedAndReused ∧
      (failedAndReused.foldl History.next .create).state.pool = [⟨0, none, false⟩] ∧
      (failedAndReused.foldl History.next .create).dispatches 0 =
        some ⟨none, [(7, some false), (8, none)]⟩ := by
  refine ⟨⟨⟨rfl, by decide⟩, rfl, ⟨mem_singleton.2 rfl, nodup_nil, fun _ h => ?_⟩, rfl,
    ⟨rfl, by decide⟩, rfl, trivial⟩, ?_, rfl, rfl⟩
  · cases h
  · rintro ⟨-, -, h, -⟩
    cases h.2 0

end ConstructionKit.Host.Failure
