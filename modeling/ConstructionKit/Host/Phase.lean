import ConstructionKit.Host.Slot

/-! Where a dispatch is: a group waits for some signals, or its job is in the thread pool. -/

namespace ConstructionKit.Host

inductive Phase where
  | idle
  | waiting (count : Nat)
  | running
deriving DecidableEq, Repr

/-- A signal that a group waits for. -/
def Phase.signalled : Phase → Phase
  | .waiting n => if n ≤ 1 then .running else .waiting (n - 1)
  | phase => phase

variable {s t : State} {group g : Group} {phase : Phase}

/-- The wait counts that are tracked for a group. -/
def State.counts (s : State) (group : Group) : List Nat :=
  (s.signalInfos.filter (·.1 = group)).map (·.2.waitCount.toNat)

/-- The jobs of a group: whether each is only a cleanup. -/
def State.jobs (s : State) (group : Group) : List Bool :=
  (s.pool.filter (·.group = group)).map (·.terminate)

def State.InPhase (s : State) (group : Group) : Phase → Prop
  | .idle => s.counts group = [] ∧ s.jobs group = []
  | .waiting n => 0 < n ∧ s.counts group = [n] ∧ s.jobs group = []
  | .running => s.counts group = [] ∧ s.jobs group = [false]

theorem State.InPhase.of_eq (h : s.InPhase g phase) (hcounts : t.counts g = s.counts g)
    (hjobs : t.jobs g = s.jobs g) : t.InPhase g phase := by
  cases phase <;> simpa only [State.InPhase, hcounts, hjobs] using h

/-! ### One signal -/

theorem State.counts_eq (s : State) (g : Group) :
    s.counts g = (s.slot g).infos.map (·.waitCount.toNat) := by
  simp only [counts, slot, infosOf, List.map_map, Function.comp_def]

theorem State.jobs_eq (s : State) (g : Group) : s.jobs g = (s.slot g).jobs.map (·.terminate) := rfl

theorem State.InPhase.of_slot (h : s.InPhase g phase) (hslot : t.slot g = s.slot g) :
    t.InPhase g phase := by
  apply h.of_eq
  · rw [counts_eq, counts_eq, hslot]
  · rw [jobs_eq, jobs_eq, hslot]

theorem signalCompleted_none (h : s.counts group = []) (terminate : Bool) :
    s.signalCompleted group terminate = s := by
  rw [State.counts_eq, List.map_eq_nil_iff] at h
  exact signalCompleted_of_nil h terminate

theorem inPhase_signalCompleted (h : s.InPhase group phase) :
    (s.signalCompleted group false).InPhase group phase.signalled := by
  cases phase with
  | idle | running =>
    rw [signalCompleted_none h.1]
    exact h
  | waiting n =>
    obtain ⟨hpos, hcounts, hjobs⟩ := h
    rw [State.counts_eq, List.map_eq_singleton_iff] at hcounts
    obtain ⟨info, hinfos, hcount⟩ := hcounts
    have hsub : (info.waitCount - 1).toNat = n - 1 := by
      rw [UInt64.toNat_sub_of_le _ _ (by rw [UInt64.le_iff_toNat_le, hcount]; exact hpos), hcount]
      rfl
    have hzero : info.waitCount - 1 = 0 ↔ n ≤ 1 := by
      rw [← UInt64.toNat_inj, hsub, show (0 : UInt64).toNat = 0 from rfl]
      omega
    have hslot := slot_signalCompleted s group false group
    rw [if_pos rfl, Slot.signalled, hinfos] at hslot
    simp only [Bool.false_eq_true, if_false, hzero] at hslot
    rw [Phase.signalled]
    by_cases hn : n ≤ 1
    · rw [if_pos hn] at hslot ⊢
      refine ⟨?_, ?_⟩
      · rw [State.counts_eq, hslot]
        rfl
      · rw [State.jobs_eq, hslot, List.map_append, ← State.jobs_eq, hjobs]
        rfl
    · rw [if_neg hn] at hslot ⊢
      refine ⟨by omega, ?_, ?_⟩
      · rw [State.counts_eq, hslot, List.map_singleton, hsub]
      · rw [State.jobs_eq, hslot, ← State.jobs_eq, hjobs]

theorem inPhase_signalCompleted_of_ne (hne : g ≠ group) (h : s.InPhase g phase) :
    (s.signalCompleted group false).InPhase g phase :=
  h.of_slot ((slot_signalCompleted s group false g).trans (if_neg hne))

end ConstructionKit.Host
