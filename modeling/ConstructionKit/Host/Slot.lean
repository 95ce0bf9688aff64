import ConstructionKit.Host.Queue
import Mathlib.Logic.Function.Iterate

/-! What the queue holds of one group, and what the operations on the queue do to it. -/

namespace ConstructionKit.Host

open List

variable {s : State} {group g : Group} (entries : List (Group × SignalInfo))

/-- The entries of a group in `signalInfos` and its jobs in the thread pool. -/
structure Slot where
  infos : List SignalInfo
  jobs : List Job
deriving DecidableEq

def infosOf (entries : List (Group × SignalInfo)) (g : Group) : List SignalInfo :=
  (entries.filter (·.1 = g)).map (·.2)

def State.slot (s : State) (g : Group) : Slot :=
  ⟨infosOf s.signalInfos g, s.pool.filter (·.group = g)⟩

/-- `signalCompleted`, as its group sees it. -/
def Slot.signalled (slot : Slot) (group : Group) (terminate : Bool) : Slot :=
  match slot.infos with
  | [] => slot
  | info :: infos =>
    if terminate then { slot with jobs := slot.jobs ++ [⟨group, info.fence, true⟩] }
    else
      let waitCount := info.waitCount - 1
      if waitCount = 0 then ⟨infos, slot.jobs ++ [⟨group, info.fence, false⟩]⟩
      else { slot with infos := { info with waitCount } :: infos }

/-! ### Entries -/

theorem infosOf_cons (entry : Group × SignalInfo) (entries : List (Group × SignalInfo)) (g : Group) :
    infosOf (entry :: entries) g =
      if entry.1 = g then entry.2 :: infosOf entries g else infosOf entries g := by
  simp only [infosOf, filter_cons, decide_eq_true_eq]
  split <;> rfl

theorem find?_eq_head? (group : Group) :
    entries.find? (·.1 = group) = (infosOf entries group).head?.map (group, ·) := by
  induction entries with
  | nil => rfl
  | cons entry entries ih =>
    rw [infosOf_cons]
    by_cases h : entry.1 = group
    · subst h
      simp
    · rw [find?_cons_of_neg (by simpa using h), ih, if_neg h]

theorem infosOf_eraseP (group g : Group) :
    infosOf (entries.eraseP (·.1 = group)) g =
      if g = group then (infosOf entries g).tail else infosOf entries g := by
  induction entries with
  | nil => simp [infosOf]
  | cons entry entries ih =>
    by_cases h : entry.1 = group
    · rw [eraseP_cons_of_pos (by simpa using h), infosOf_cons, h]
      by_cases hg : g = group
      · rw [if_pos hg, if_pos hg.symm, tail_cons]
      · rw [if_neg hg, if_neg (Ne.symm hg)]
    · rw [eraseP_cons_of_neg (by simpa using h), infosOf_cons, infosOf_cons, ih]
      by_cases hg : g = group
      · subst hg
        simp only [h, if_false]
      · simp only [hg, if_false]

theorem infosOf_updateFirst (group : Group)
    (waitCount : UInt64) (g : Group) :
    infosOf (State.updateFirst group waitCount entries) g =
      if g = group then (infosOf entries g).modifyHead ({ · with waitCount })
      else infosOf entries g := by
  induction entries with
  | nil => simp [State.updateFirst, infosOf]
  | cons entry entries ih =>
    rw [State.updateFirst]
    by_cases h : entry.1 = group
    · rw [if_pos h, infosOf_cons, infosOf_cons, h]
      by_cases hg : g = group
      · rw [if_pos hg, if_pos hg.symm, if_pos hg.symm, modifyHead_cons]
      · rw [if_neg hg, if_neg (Ne.symm hg), if_neg (Ne.symm hg)]
    · rw [if_neg h, infosOf_cons, infosOf_cons, ih]
      by_cases hg : g = group
      · subst hg
        simp only [h, if_false]
      · simp only [hg, if_false]

/-! ### Signals -/

theorem slot_enqueue (s : State) (job : Job) (g : Group) :
    (s.enqueue job).slot g =
      if g = job.group then { s.slot g with jobs := (s.slot g).jobs ++ [job] } else s.slot g := by
  simp only [State.slot, State.enqueue, filter_append, filter_cons, filter_nil,
    decide_eq_true_eq]
  by_cases h : g = job.group
  · rw [if_pos h, if_pos h.symm]
  · rw [if_neg h, if_neg (Ne.symm h), append_nil]

theorem signalCompleted_of_nil (h : infosOf s.signalInfos group = []) (terminate : Bool) :
    s.signalCompleted group terminate = s := by
  rw [State.signalCompleted, find?_eq_head?, h]
  rfl

theorem signalCompleted_of_cons {info : SignalInfo} {infos : List SignalInfo}
    (h : infosOf s.signalInfos group = info :: infos) (terminate : Bool) :
    s.signalCompleted group terminate =
      if terminate then s.enqueue ⟨group, info.fence, true⟩
      else if info.waitCount - 1 = 0 then
        { s.enqueue ⟨group, info.fence, false⟩ with
          signalInfos := s.signalInfos.eraseP (·.1 = group) }
      else
        { s with signalInfos := State.updateFirst group (info.waitCount - 1) s.signalInfos } := by
  rw [State.signalCompleted, find?_eq_head?, h]
  rfl

theorem slot_signalCompleted (s : State) (group : Group) (terminate : Bool) (g : Group) :
    (s.signalCompleted group terminate).slot g =
      if g = group then (s.slot g).signalled group terminate else s.slot g := by
  cases hinfos : infosOf s.signalInfos group with
  | nil =>
    have hsame : (s.slot group).signalled group terminate = s.slot group := by
      rw [Slot.signalled, show (s.slot group).infos = [] from hinfos]
    rw [signalCompleted_of_nil hinfos]
    split
    · rename_i heq
      rw [heq, hsame]
    · rfl
  | cons info infos =>
    have hslot : (s.slot group).infos = info :: infos := hinfos
    have hpool : ∀ b, (s.enqueue ⟨group, info.fence, b⟩).slot g = _ := fun b => slot_enqueue s _ g
    rw [signalCompleted_of_cons hinfos]
    by_cases heq : g = group
    · subst heq
      rw [Slot.signalled, hslot]
      cases terminate with
      | true => simp only [if_true, hpool, hslot]
      | false =>
        have hjobs := congrArg Slot.jobs (hpool false)
        simp only [Bool.false_eq_true, if_false]
        split
        · simp only [State.slot, infosOf_eraseP, if_true, hinfos, tail_cons] at hjobs ⊢
          rw [hjobs]
        · simp only [State.slot, infosOf_updateFirst, if_true, hinfos, modifyHead_cons]
    · simp only [heq, if_false] at hpool ⊢
      cases terminate with
      | true => simp only [if_true, hpool]
      | false =>
        have hjobs := congrArg Slot.jobs (hpool false)
        simp only [Bool.false_eq_true, if_false]
        split
        · simp only [State.slot, infosOf_eraseP, if_neg heq] at hjobs ⊢
          rw [hjobs]
        · simp only [State.slot, infosOf_updateFirst, if_neg heq]

theorem slot_signalAll (groups : List Group) (s : State) (terminate : Bool) (g : Group) :
    (groups.foldl (fun s group => s.signalCompleted group terminate) s).slot g =
      (fun slot : Slot => slot.signalled g terminate)^[groups.count g] (s.slot g) := by
  induction groups generalizing s with
  | nil => rfl
  | cons group groups ih =>
    rw [foldl_cons, ih, slot_signalCompleted, count_cons]
    by_cases heq : g = group
    · subst heq
      rw [if_pos rfl, beq_self_eq_true, if_pos rfl, Function.iterate_succ_apply]
    · rw [if_neg heq, if_neg (by simpa using Ne.symm heq), Nat.add_zero]

/-- A failed signal leaves the entries alone. -/
theorem infos_signalled_true (slot : Slot) (group : Group) :
    (slot.signalled group true).infos = slot.infos := by
  rw [Slot.signalled]
  split
  · rfl
  · rfl

/-! ### Dispatches -/

theorem slot_addGroup (s : State) (group : Group) (fence : Option Fence) (numWaits : UInt64)
    (g : Group) :
    (s.addGroup group fence numWaits).slot g =
      if g = group then
        if numWaits = 0 then { s.slot g with jobs := (s.slot g).jobs ++ [⟨group, fence, false⟩] }
        else { s.slot g with infos := (s.slot g).infos ++ [⟨numWaits, fence⟩] }
      else s.slot g := by
  rw [State.addGroup]
  by_cases hzero : numWaits = 0
  · rw [if_pos hzero, if_pos hzero, slot_enqueue]
  · rw [if_neg hzero, if_neg hzero]
    simp only [State.slot, infosOf, filter_append, map_append, filter_cons,
      filter_nil, decide_eq_true_eq]
    by_cases heq : g = group
    · rw [if_pos heq, if_pos heq.symm]
      rfl
    · rw [if_neg heq, if_neg (Ne.symm heq), map_nil, append_nil]

theorem slot_addWait (s : State) (group : Group) (sem : Sem) (g : Group) :
    (s.addWait group sem).slot g =
      if g = group ∧ (s.semaphores sem).signalled then
        (s.slot g).signalled group (s.semaphores sem).failed
      else s.slot g := by
  rw [State.addWait]
  by_cases hsignalled : (s.semaphores sem).signalled = true
  · simp only [hsignalled, and_true]
    exact slot_signalCompleted s group _ g
  · rw [if_neg hsignalled, if_neg fun h => hsignalled h.2]
    rfl

end ConstructionKit.Host
