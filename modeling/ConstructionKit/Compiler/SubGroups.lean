import ConstructionKit.Compiler.WorkItemCoverage

/-! The sub-group ids that the loops of a region set. -/

namespace ConstructionKit.WorkItemLoops

open Compiler ProofKit List BitVec
open scoped List

variable {w : Nat} {M : Type}

/-- The sub-group id is the number of the call. -/
structure LoopState.Numbered (s : LoopState w M) : Prop where
  next : s.subgroupIV = BitVec.ofNat 32 s.calls.length
  ids : s.calls.map (·.subGroupId) = (List.range s.calls.length).map (BitVec.ofNat 32)

namespace ScheduleGenerator

variable {g : ScheduleGenerator w} {collective : Collective w M}
variable {s : LoopState w M}

theorem numbered_initIVs (h : s.calls = []) :
    (s.initIVs collective).Numbered := by
  constructor <;> simp [LoopState.initIVs, h]

theorem numbered_regionCall (h : s.Numbered) (tail : Bool)
    (dim_2 dim_1 dim_0 : BitVec w) : (g.regionCall collective tail dim_2 dim_1 dim_0 s).Numbered := by
  obtain ⟨hnext, hids⟩ := h
  constructor
  · simp [regionCall, LoopState.setLocalId, hnext, ofNat_add]
  · simp [regionCall, LoopState.setLocalId, hnext, hids, range_succ]

/-- The calls of the tail in a row that has just restarted. -/
theorem subGroupIds_tailActions (dim_2 dim_1 : BitVec w) :
    ((g.tailActions dim_2 dim_1).foldl (g.perform collective) (s.initIVs collective)).calls.map
        (·.subGroupId) =
      s.calls.map (·.subGroupId) ++ (List.range g.tailTrips).map (BitVec.ofNat 32) := by
  refine (tailActions_induct (P := fun n t => t.subgroupIV = BitVec.ofNat 32 n ∧
    t.calls.map (·.subGroupId) =
      s.calls.map (·.subGroupId) ++ (List.range n).map (BitVec.ofNat 32)) ?_ ?_).2
  · simp [LoopState.initIVs]
  · rintro n t ⟨hiv, hids⟩
    constructor
    · simp [regionCall, LoopState.setLocalId, hiv, ofNat_add]
    · simp [regionCall, LoopState.setLocalId, hiv, hids, range_succ]

/-- The number of calls in a region. -/
def callCount (g : ScheduleGenerator w) : Nat :=
  (g.localSizeDim 1).value.toNat * (g.localSizeDim 2).value.toNat * (g.mainTrips + g.tailTrips)

theorem length_outerIds {row : BitVec w → BitVec w → List (Bool × (Fin 3 → BitVec w))} {n : Nat}
    (hrow : ∀ dim_2 dim_1, (row dim_2 dim_1).length = n) :
    (g.outerIds row).length =
      (g.localSizeDim 1).value.toNat * (g.localSizeDim 2).value.toNat * n := by
  simp only [outerIds, length_flatMap, hrow, map_const', sum_replicate_nat,
    length_range]
  ring

theorem length_regionIds (schedule : BarrierSchedule) :
    (g.regionIds schedule).length = g.callCount := by
  have hmain : ∀ dim_2 dim_1, (g.mainIds dim_2 dim_1).length = g.mainTrips := by simp [mainIds]
  have htail : ∀ dim_2 dim_1, (g.tailIds dim_2 dim_1).length = g.tailTrips := by simp [tailIds]
  unfold regionIds callCount
  split
  · apply length_outerIds
    intro dim_2 dim_1
    rw [length_append, hmain, htail]
  · rw [length_append, length_outerIds hmain, length_outerIds htail, Nat.mul_add]

/-- The loops of a region are built, they return, and the sub-group ids that they set are the numbers
below the number of sub-groups, each of them once. -/
def NumbersSubGroups (g : ScheduleGenerator w) (schedule : BarrierSchedule) : Prop :=
  ∀ (M : Type) (collective : Collective w M) (s : LoopState w M), s.calls = [] →
    ∃ s', g.Returns collective schedule s s' ∧
      s'.calls.map (·.subGroupId.toNat) ~ List.range g.numSubGroups.toNat

section

variable {schedule : BarrierSchedule} (hg : g.CountsUp)
include hg

theorem length_calls_regionActions (hs : s.calls = []) :
    ((g.regionActions schedule).foldl (g.perform collective) s).calls.length = g.callCount := by
  have hids : ((g.regionActions schedule).foldl (g.perform collective) s).callIds.length = _ :=
    congrArg List.length (callIds_regionActions hg.factor schedule s)
  rwa [length_append, length_regionIds, LoopState.callIds, LoopState.callIds, hs,
    length_map, map_nil, length_nil, Nat.zero_add] at hids

theorem numbered_regionActions (hrestart : ¬g.Restarts schedule) (hs : s.calls = []) :
    ((g.regionActions schedule).foldl (g.perform collective) s).Numbered := by
  refine invariant_regionActions ?_ ?_ ?_ hg.size hrestart hs
  · exact fun _ _ h => ⟨h.next, h.ids⟩
  · exact fun tail dim_2 dim_1 dim_0 h => numbered_regionCall h tail dim_2 dim_1 dim_0
  · exact fun h => numbered_initIVs h

theorem numbersSubGroups_of_callCount (hnull : ¬g.NullExit) (hrestart : ¬g.Restarts schedule)
    (hcount : g.callCount = g.numSubGroups.toNat) : g.NumbersSubGroups schedule := by
  intro M collective s hs
  refine ⟨_, (returns_iff hg).2 ⟨hnull, rfl⟩, ?_⟩
  have hnum : ((g.regionActions schedule).foldl (g.perform collective) s).Numbered :=
    numbered_regionActions hg hrestart hs
  have hids := congrArg (List.map BitVec.toNat) hnum.ids
  rw [length_calls_regionActions hg hs, map_map, map_map] at hids
  have hrange : (List.range g.callCount).map (BitVec.toNat ∘ BitVec.ofNat 32) =
      List.range g.callCount := by
    refine (map_congr_left fun k hk => ?_).trans (map_id _)
    rw [List.mem_range] at hk
    exact Nat.mod_eq_of_lt (by omega)
  rw [hrange, hcount] at hids
  exact List.Perm.of_eq hids

/-- The calls of a region are as many as there are sub-groups. -/
theorem callCount_of_numbersSubGroups (h : g.NumbersSubGroups schedule) :
    ¬g.NullExit ∧ g.callCount = g.numSubGroups.toNat := by
  obtain ⟨s', hreturns, hperm⟩ := h Unit .none ⟨fun _ => 0#w, 0, [], 0, none⟩ rfl
  obtain ⟨hnull, rfl⟩ := (returns_iff hg).1 hreturns
  have hlength := hperm.length_eq
  rw [length_map, length_range, length_calls_regionActions hg rfl] at hlength
  exact ⟨hnull, hlength⟩

/-- Loops that restart set the first sub-group id again in every row. -/
theorem not_restarts_of_numbersSubGroups (htail : g.SkipsMain → 1 ≤ g.tailTrips)
    (h : g.NumbersSubGroups schedule) : ¬g.Restarts schedule := by
  intro hrestart
  obtain ⟨s', hreturns, hperm⟩ := h Unit .none ⟨fun _ => 0#w, 0, [], 0, none⟩ rfl
  obtain ⟨-, rfl⟩ := (returns_iff hg).1 hreturns
  have hnodup := hperm.symm.nodup nodup_range
  rw [← Function.comp_def BitVec.toNat (Call.subGroupId (w := w) (M := Unit)), ← map_map]
    at hnodup
  refine not_nodup_of_restarts (fun s => s.calls.map (·.subGroupId)) (b := 0#32) ?_
    (fun _ _ => rfl) (fun dim_2 dim_1 => subGroupIds_tailActions dim_2 dim_1) hrestart _ hnodup.of_map
  exact mem_map.2 ⟨0, List.mem_range.2 (htail hrestart.2.1), rfl⟩

end

/-! ### A main loop whose index wraps -/

theorem length_calls_le (s : LoopState w M) (actions : List (Action w)) :
    s.calls.length ≤ (actions.foldl (g.perform collective) s).calls.length := by
  have hmore : s.callIds <+: (actions.foldl (g.perform collective) s).callIds :=
    callIds_isPrefix s actions
  simpa [LoopState.callIds] using hmore.length_le

theorem length_calls_map_call (tail : Bool) (dim_2 dim_1 : BitVec w) (dim_0 : Nat → BitVec w)
    (n : Nat) (s : LoopState w M) :
    (((List.range n).map fun k => Action.call tail dim_2 dim_1 (dim_0 k)).foldl
      (g.perform collective) s).calls.length = s.calls.length + n := by
  induction n with
  | zero => rfl
  | succ n ih =>
    simp only [range_succ, map_append, map_cons, map_nil, foldl_append,
      foldl_cons, foldl_nil, perform, regionCall, LoopState.setLocalId,
      length_append, length_singleton] at ih ⊢
    omega

/-- Loops that return have gone through all their rows. -/
theorem le_length_calls_of_outerLoops (hsize : ∀ i, 1 ≤ (g.localSizeDim i).value.toNat) {fuel n : Nat}
    {row : BitVec w → BitVec w → LoopState w M → Option (LoopState w M)}
    (hrow : ∀ {dim_2 dim_1 s t}, row dim_2 dim_1 s = some t → s.calls.length + n ≤ t.calls.length)
    {t : LoopState w M} (h : g.outerLoops fuel row s = some t) :
    (g.localSizeDim 1).value.toNat * (g.localSizeDim 2).value.toNat * n ≤ t.calls.length := by
  have hagain : ∀ i, ∀ k < (g.localSizeDim i).value.toNat - 1,
      ((fun phi : BitVec w => phi + defaultInc)^[k + 1] 0#w).ult (g.localSizeDim i).value := by
    intro i k hk
    rw [iterate_add_defaultInc, BitVec.zero_add]
    simp only [BitVec.ult, decide_eq_true_eq]
    rw [toNat_ofNat, Nat.mod_eq_of_lt (by omega)]
    omega
  have hy : ∀ {dim_2} {s t : LoopState w M}, createLoop fuel 0#w (g.localSizeDim 1).value defaultInc
      (fun dim_1 s => row dim_2 dim_1 (s.setLocalId 1 dim_1)) (s.setLocalId 2 dim_2) = some t →
      s.calls.length + (g.localSizeDim 1).value.toNat * n ≤ t.calls.length := by
    intro dim_2 s t h
    have hbody : ∀ {dim_1 : BitVec w} {s t : LoopState w M},
        row dim_2 dim_1 (s.setLocalId 1 dim_1) = some t →
        s.calls.length + n ≤ t.calls.length := by
      intro dim_1 s t h
      have := hrow h
      exact this
    have hle := add_mul_le_of_doWhile (f := fun s : LoopState w M => s.calls.length) hbody (hagain 1) h
    rwa [Nat.sub_add_cancel (hsize 1)] at hle
  have hle := add_mul_le_of_doWhile (f := fun s : LoopState w M => s.calls.length) hy (hagain 2) h
  rw [Nat.sub_add_cancel (hsize 2), ← Nat.mul_assoc, Nat.mul_comm (g.localSizeDim 2).value.toNat] at hle
  exact (Nat.le_add_left _ _).trans hle

theorem toNat_mul_le (x y : BitVec w) : (x * y).toNat ≤ x.toNat * y.toNat := by
  exact Nat.mod_le _ _

theorem numSubGroups_le (hpeel : g.peel = none) :
    g.numSubGroups.toNat ≤ (g.localSizeDim 1).value.toNat * (g.localSizeDim 2).value.toNat *
      (g.mainLoopLimit.value.toNat / g.VF.toNat + 1) := by
  have hrow : ∀ b : BitVec w, b.toNat ≤ 1 → (g.mainLoopLimit.value / g.VF + b).toNat ≤
      g.mainLoopLimit.value.toNat / g.VF.toNat + 1 := by
    intro b hb
    have hmod := Nat.mod_le ((g.mainLoopLimit.value / g.VF).toNat + b.toNat) (2 ^ w)
    rw [toNat_add]
    rw [toNat_udiv] at hmod ⊢
    omega
  have hX : ∀ X : BitVec w, X.toNat ≤ g.mainLoopLimit.value.toNat / g.VF.toNat + 1 →
      (((g.localSizeDim 2).value * (g.localSizeDim 1).value * X).setWidth 32).toNat ≤
        (g.localSizeDim 1).value.toNat * (g.localSizeDim 2).value.toNat *
          (g.mainLoopLimit.value.toNat / g.VF.toNat + 1) := by
    intro X hX
    rw [toNat_setWidth, Nat.mul_comm (g.localSizeDim 1).value.toNat]
    refine (Nat.mod_le _ _).trans ((toNat_mul_le _ _).trans (Nat.mul_le_mul (toNat_mul_le _ _) hX))
  have hone : (1#w).toNat ≤ 1 := by
    exact Nat.mod_le _ _
  apply hX
  rw [hpeel]
  dsimp only
  split
  · apply hrow
    split
    · exact hone
    · simp
  · exact Nat.le_add_right _ _

theorem mainTrips_mul_lt_of_numbersSubGroups {schedule : BarrierSchedule}
    (htail : g.tailInfo = none) (hpeel : g.peel = none)
    (hsize : ∀ i, 1 ≤ (g.localSizeDim i).value.toNat) (hV : 1 ≤ g.VF.toNat)
    (h : g.NumbersSubGroups schedule) : g.mainTrips * g.VF.toNat < 2 ^ w := by
  by_contra hwrap
  have hmain := mainLoopLimit_ne_zero_of_wrap hV (Nat.not_lt.1 hwrap)
  obtain ⟨s', hreturns, hperm⟩ := h Unit .none ⟨fun _ => 0#w, 0, [], 0, none⟩ rfl
  have hrow : ∀ {dim_2 dim_1 : BitVec w} {s t : LoopState w Unit},
      g.mainLoop .none (2 ^ w) dim_2 dim_1 s = some t →
      s.calls.length + (g.mainTrips + 1) ≤ t.calls.length := by
    intro dim_2 dim_1 s t h
    obtain ⟨⟨rest, rfl⟩, -⟩ := exists_wrapped_turn hV (Nat.not_lt.1 hwrap) h
    rw [foldl_append]
    exact (Nat.le_of_eq (length_calls_map_call ..).symm).trans (length_calls_le _ rest)
  have hcalls := le_length_calls_of_outerLoops hsize hrow
    (outerLoops_of_returns htail hpeel hmain hreturns)
  have hlength := hperm.length_eq
  rw [length_map, length_range] at hlength
  -- the formula counts no more than the iterations before the wrap
  have hdiv : g.mainLoopLimit.value.toNat / g.VF.toNat < g.mainTrips := by
    exact (Nat.div_lt_iff_lt_mul hV).2 (by omega)
  have hrows : 1 ≤ (g.localSizeDim 1).value.toNat * (g.localSizeDim 2).value.toNat :=
    Nat.mul_pos (hsize 1) (hsize 2)
  have hlt := Nat.mul_lt_mul_of_pos_left (Nat.add_lt_add_right hdiv 1) hrows
  have hformula := numSubGroups_le hpeel
  omega

end ScheduleGenerator

/-! ### The wrappers of the pass -/

end ConstructionKit.WorkItemLoops
