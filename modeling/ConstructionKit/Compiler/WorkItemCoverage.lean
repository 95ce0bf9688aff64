import ConstructionKit.Compiler.WorkItemRuns
import ConstructionKit.ProofKit.Unique
import Mathlib.Data.Fin.VecNotation
import Mathlib.Tactic.FinCases

/-! Which work-items the loops of a region run. -/

namespace ConstructionKit.WorkItemLoops

open Compiler ProofKit List Nat
open scoped List

variable {w : Nat} {M : Type}

/-! ### The local ids of the calls -/

/-- The kernel and the local id of each call. -/
def LoopState.callIds (s : LoopState w M) : List (Bool × (Fin 3 → BitVec w)) :=
  s.calls.map fun call => (call.tail, call.localId)

namespace ScheduleGenerator

variable (g : ScheduleGenerator w) (collective : Collective w M)

def mainIds (dim_2 dim_1 : BitVec w) : List (Bool × (Fin 3 → BitVec w)) :=
  (List.range g.mainTrips).map fun k =>
    (false, ![BitVec.ofNat w (k * g.VF.toNat), dim_1, dim_2])

def tailIds (dim_2 dim_1 : BitVec w) : List (Bool × (Fin 3 → BitVec w)) :=
  (List.range g.tailTrips).map fun k =>
    (true, ![g.mainLoopLimit.value + BitVec.ofNat w k, dim_1, dim_2])

def outerIds (row : BitVec w → BitVec w → List (Bool × (Fin 3 → BitVec w))) :
    List (Bool × (Fin 3 → BitVec w)) :=
  (List.range (g.localSizeDim 2).value.toNat).flatMap fun z =>
    (List.range (g.localSizeDim 1).value.toNat).flatMap fun y =>
      row (BitVec.ofNat w z) (BitVec.ofNat w y)

variable {g collective} {fuel k : Nat} (dim_2 dim_1 : BitVec w)

/-- A list of actions that leaves the local id of the outer dimensions alone and makes given
calls. -/
def RowCalls (g : ScheduleGenerator w) (collective : Collective w M) (dim_2 dim_1 : BitVec w)
    (actions : List (Action w)) (ids : List (Bool × (Fin 3 → BitVec w))) : Prop :=
  ∀ s : LoopState w M, s.localId 1 = dim_1 ∧ s.localId 2 = dim_2 →
    ((actions.foldl (g.perform collective) s).localId 1 = dim_1 ∧
      (actions.foldl (g.perform collective) s).localId 2 = dim_2) ∧
      (actions.foldl (g.perform collective) s).callIds = s.callIds ++ ids

theorem RowCalls.append {dim_2 dim_1 : BitVec w} {actions actions' : List (Action w)}
    {ids ids' : List (Bool × (Fin 3 → BitVec w))}
    (h : g.RowCalls collective dim_2 dim_1 actions ids)
    (h' : g.RowCalls collective dim_2 dim_1 actions' ids') :
    g.RowCalls collective dim_2 dim_1 (actions ++ actions') (ids ++ ids') := by
  intro s hs
  obtain ⟨hkeep, hids⟩ := h s hs
  obtain ⟨hkeep', hids'⟩ := h' _ hkeep
  rw [foldl_append]
  exact ⟨hkeep', by rw [hids', hids, append_assoc]⟩

theorem RowCalls.initIVs :
    g.RowCalls collective dim_2 dim_1 [.initIVs] [] :=
  fun _ h => ⟨h, (append_nil _).symm⟩

theorem RowCalls.calls (tail : Bool) (dim_0 : Nat → BitVec w) (n : Nat) :
    g.RowCalls collective dim_2 dim_1
      ((List.range n).map fun k => .call tail dim_2 dim_1 (dim_0 k))
      ((List.range n).map fun k =>
        (tail, ![if tail then g.mainLoopLimit.value + dim_0 k else dim_0 k, dim_1, dim_2])) := by
  intro s hs
  rw [map_eq_flatMap, map_eq_flatMap]
  apply foldl_flatMap_appends (fun s : LoopState w M => s.localId 1 = dim_1 ∧ s.localId 2 = dim_2)
    LoopState.callIds _ hs
  rintro k - s ⟨h1, h2⟩
  have hid : ∀ v : BitVec w, Function.update s.localId 0 v = ![v, dim_1, dim_2] := by
    intro v
    funext i
    fin_cases i <;> simp [h1, h2]
  simp [perform, regionCall, LoopState.setLocalId, LoopState.callIds, hid]

theorem RowCalls.mainActions :
    g.RowCalls collective dim_2 dim_1 (g.mainActions dim_2 dim_1) (g.mainIds dim_2 dim_1) :=
  RowCalls.calls dim_2 dim_1 false (fun k => BitVec.ofNat w (k * g.VF.toNat)) g.mainTrips

theorem RowCalls.tailActions :
    g.RowCalls collective dim_2 dim_1 (g.tailActions dim_2 dim_1) (g.tailIds dim_2 dim_1) :=
  RowCalls.calls dim_2 dim_1 true (BitVec.ofNat w) g.tailTrips

/-- What holds of the number of calls in the tail holds behind its last one. -/
theorem tailActions_induct {P : Nat → LoopState w M → Prop} {dim_2 dim_1 : BitVec w}
    {s : LoopState w M} (hfirst : P 0 s)
    (hcall : ∀ n t, P n t →
      P (n + 1) (g.regionCall collective true dim_2 dim_1 (BitVec.ofNat w n) t)) :
    P g.tailTrips ((g.tailActions dim_2 dim_1).foldl (g.perform collective) s) := by
  rw [tailActions]
  generalize g.tailTrips = n
  induction n with
  | zero => exact hfirst
  | succ n ih =>
    rw [range_succ, map_append, foldl_append]
    exact hcall n _ ih

theorem callIds_outerActions {row : BitVec w → BitVec w → List (Action w)}
    {ids : BitVec w → BitVec w → List (Bool × (Fin 3 → BitVec w))}
    (hrow : ∀ dim_2 dim_1, g.RowCalls collective dim_2 dim_1 (row dim_2 dim_1) (ids dim_2 dim_1))
    (s : LoopState w M) :
    ((g.outerActions row).foldl (g.perform collective) s).callIds =
      s.callIds ++ g.outerIds ids := by
  refine (foldl_flatMap_appends (fun _ => True) LoopState.callIds ?_ trivial).2
  intro z _ s _
  refine ⟨trivial, (foldl_flatMap_appends (fun s : LoopState w M => s.localId 2 = BitVec.ofNat w z)
    LoopState.callIds ?_ (by simp [perform, LoopState.setLocalId])).2⟩
  intro y _ s hz
  obtain ⟨hkeep, hids⟩ := hrow (BitVec.ofNat w z) (BitVec.ofNat w y)
    (g.perform collective s (.setLocalId 1 (BitVec.ofNat w y)))
    (by simp [perform, LoopState.setLocalId, hz])
  exact ⟨hkeep.2, hids⟩

section

variable (hV : 1 ≤ g.VF.toNat)
include hV

theorem callIds_linearActions (s : LoopState w M) :
    (g.linearActions.foldl (g.perform collective) s).callIds =
      s.callIds ++ g.outerIds fun z y => g.mainIds z y ++ g.tailIds z y := by
  refine callIds_outerActions (fun dim_2 dim_1 => ?_) (s.initIVs collective)
  refine RowCalls.append ?_ (RowCalls.tailActions dim_2 dim_1)
  split
  · rename_i hskip
    rw [mainIds, mainTrips_eq_zero hV hskip.2.2]
    exact RowCalls.initIVs dim_2 dim_1
  · exact RowCalls.mainActions dim_2 dim_1

theorem callIds_workItemActions (s : LoopState w M) :
    (g.workItemActions.foldl (g.perform collective) s).callIds =
      s.callIds ++ (g.outerIds g.mainIds ++ g.outerIds g.tailIds) := by
  have hmain : ∀ s : LoopState w M,
      ((if g.mainLoopLimit.value = 0#w then [] else g.outerActions g.mainActions).foldl
        (g.perform collective) s).callIds = s.callIds ++ g.outerIds g.mainIds := by
    intro s
    split
    · rename_i hzero
      simp [outerIds, mainIds, mainTrips_eq_zero hV hzero]
    · exact callIds_outerActions RowCalls.mainActions s
  have htail : ∀ s : LoopState w M,
      ((if g.peelValue = 0#w then [] else g.outerActions g.tailActions).foldl
        (g.perform collective) s).callIds = s.callIds ++ g.outerIds g.tailIds := by
    intro s
    split
    · rename_i hzero
      simp [outerIds, tailIds, tailTrips, hzero]
    · exact callIds_outerActions RowCalls.tailActions s
  rw [workItemActions, foldl_cons, foldl_append, htail, hmain, append_assoc]
  rfl

/-! ### The work-items of a call -/

/-- The work-items that a call runs: a vector from its local id on for the main kernel, cut off at
the local size if it is predicated, one for a scalar tail, and the rest of the row for a predicated
tail. -/
def workItems (g : ScheduleGenerator w) (id : Bool × (Fin 3 → BitVec w)) : List (Nat × Nat × Nat) :=
  let x := (id.2 0).toNat
  let count :=
    if id.1 then if g.tailIsVectorPredicated then (g.localSizeDim 0).value.toNat - x else 1
    else if g.mainInfo.isVectorPredicated then min g.VF.toNat ((g.localSizeDim 0).value.toNat - x)
    else g.VF.toNat
  (List.range' x count).map fun i => (i, (id.2 1).toNat, (id.2 2).toNat)

/-- The main loop ends where the tail starts, and takes whole vectors unless it is predicated and has
the row for itself. -/
structure Exact (g : ScheduleGenerator w) : Prop where
  limit_le : g.mainLoopLimit.value.toNat ≤ (g.localSizeDim 0).value.toNat
  peel : g.peelValue.toNat = (g.localSizeDim 0).value.toNat - g.mainLoopLimit.value.toNat
  whole : g.mainInfo.isVectorPredicated = false → g.VF.toNat ∣ g.mainLoopLimit.value.toNat
  cut : g.mainInfo.isVectorPredicated = true →
    g.mainLoopLimit.value.toNat = (g.localSizeDim 0).value.toNat

theorem le_mainTrips_mul :
    g.mainLoopLimit.value.toNat ≤ g.mainTrips * g.VF.toNat := by
  by_cases hzero : g.mainLoopLimit.value = 0#w
  · rw [hzero]
    exact Nat.zero_le _
  · obtain ⟨n, hn, -, hle⟩ := mainTrips_bounds hV hzero
    rwa [hn]

/-- Every iteration of the main loop starts below the limit. -/
theorem mul_lt_of_lt_mainTrips (hk : k < g.mainTrips) :
    k * g.VF.toNat < g.mainLoopLimit.value.toNat := by
  by_cases hzero : g.mainLoopLimit.value = 0#w
  · rw [mainTrips_eq_zero hV hzero] at hk
    omega
  · obtain ⟨n, hn, hlt, -⟩ := mainTrips_bounds hV hzero
    have : k * g.VF.toNat ≤ n * g.VF.toNat := Nat.mul_le_mul_right _ (by omega)
    omega

theorem toNat_mainIndex (hk : k < g.mainTrips) :
    (BitVec.ofNat w (k * g.VF.toNat)).toNat = k * g.VF.toNat := by
  have := mul_lt_of_lt_mainTrips hV hk
  rw [BitVec.toNat_ofNat, mod_eq_of_lt (by omega)]

end

theorem Exact.workItems_mainIds (h : g.Exact) (hV : 1 ≤ g.VF.toNat) (dim_2 dim_1 : BitVec w) :
    (g.mainIds dim_2 dim_1).flatMap g.workItems =
      (List.range g.mainLoopLimit.value.toNat).map fun x => (x, dim_1.toNat, dim_2.toNat) := by
  rw [← flatMap_range'_min g.VF.toNat g.mainTrips _ (le_mainTrips_mul hV), map_flatMap, mainIds,
    flatMap_map]
  refine flatMap_congr fun k hk => ?_
  rw [List.mem_range] at hk
  have hlt := mul_lt_of_lt_mainTrips hV hk
  have hcount : (if g.mainInfo.isVectorPredicated then
      min g.VF.toNat ((g.localSizeDim 0).value.toNat - k * g.VF.toNat) else g.VF.toNat) =
      min g.VF.toNat (g.mainLoopLimit.value.toNat - k * g.VF.toNat) := by
    cases hp : g.mainInfo.isVectorPredicated with
    | true => rw [if_pos rfl, h.cut hp]
    | false =>
      -- a multiple of the factor behind the start of a vector is at least the end of the vector
      obtain ⟨q, hq⟩ := h.whole hp
      have hkq : k < q := by
        by_contra hge
        have := Nat.mul_le_mul_left g.VF.toNat (Nat.not_lt.1 hge)
        rw [Nat.mul_comm k] at hlt
        omega
      have := Nat.mul_le_mul_left g.VF.toNat (succ_le_of_lt hkq)
      rw [mul_succ] at this
      rw [if_neg Bool.false_ne_true, Nat.mul_comm k, Nat.min_eq_left (by omega)]
  show (List.range' (BitVec.ofNat w (k * g.VF.toNat)).toNat _).map _ = _
  simp only [toNat_mainIndex hV hk, Matrix.cons_val_zero, hcount]
  rfl

theorem Exact.workItems_tailIds (h : g.Exact) (dim_2 dim_1 : BitVec w) :
    (g.tailIds dim_2 dim_1).flatMap g.workItems =
      (List.range' g.mainLoopLimit.value.toNat
        ((g.localSizeDim 0).value.toNat - g.mainLoopLimit.value.toNat)).map
          fun x => (x, dim_1.toNat, dim_2.toNat) := by
  have hpeel := h.peel
  rw [tailIds, flatMap_map, tailTrips]
  cases hp : g.tailIsVectorPredicated with
  | true =>
    by_cases hzero : g.peelValue = 0#w
    · rw [hzero] at hpeel
      simp [hzero, ← hpeel]
    · simp [hzero, workItems, hp]
  | false =>
    rw [if_neg Bool.false_ne_true, hpeel, range'_eq_map_range, map_map,
      map_eq_flatMap]
    refine flatMap_congr fun k hk => ?_
    rw [List.mem_range] at hk
    have hk' : (g.mainLoopLimit.value + BitVec.ofNat w k).toNat =
        g.mainLoopLimit.value.toNat + k := by
      rw [BitVec.toNat_add, BitVec.toNat_ofNat, mod_eq_of_lt (by omega : k < 2 ^ w),
        mod_eq_of_lt (by omega)]
    simp [workItems, hp, hk']

theorem flatMap_outerIds (row : BitVec w → BitVec w → List (Bool × (Fin 3 → BitVec w)))
    (f : Bool × (Fin 3 → BitVec w) → List (Nat × Nat × Nat)) :
    (g.outerIds row).flatMap f =
      (List.range (g.localSizeDim 2).value.toNat).flatMap fun z =>
        (List.range (g.localSizeDim 1).value.toNat).flatMap fun y =>
          (row (BitVec.ofNat w z) (BitVec.ofNat w y)).flatMap f := by
  simp only [outerIds, flatMap_assoc]

/-- Row by row, the calls run the work-items in the order of their local linear ids. -/
theorem Exact.workItems_rows (h : g.Exact) (hV : 1 ≤ g.VF.toNat) :
    (g.outerIds fun z y => g.mainIds z y ++ g.tailIds z y).flatMap g.workItems =
      boxList (g.localSizeDim 0).value.toNat (g.localSizeDim 1).value.toNat
        (g.localSizeDim 2).value.toNat := by
  have hle := h.limit_le
  rw [flatMap_outerIds]
  refine flatMap_congr fun z hz => flatMap_congr fun y hy => ?_
  rw [List.mem_range] at hz hy
  have hz' : (BitVec.ofNat w z).toNat = z := by
    rw [BitVec.toNat_ofNat, mod_eq_of_lt (hz.trans (g.localSizeDim 2).value.isLt)]
  have hy' : (BitVec.ofNat w y).toNat = y := by
    rw [BitVec.toNat_ofNat, mod_eq_of_lt (hy.trans (g.localSizeDim 1).value.isLt)]
  have hrow : List.range g.mainLoopLimit.value.toNat ++
      List.range' g.mainLoopLimit.value.toNat
        ((g.localSizeDim 0).value.toNat - g.mainLoopLimit.value.toNat) =
      List.range (g.localSizeDim 0).value.toNat := by
    have happend := @range'_append_1 0 g.mainLoopLimit.value.toNat
      ((g.localSizeDim 0).value.toNat - g.mainLoopLimit.value.toNat)
    rwa [Nat.zero_add, Nat.add_sub_cancel' hle, ← range_eq_range',
      ← range_eq_range'] at happend
  rw [flatMap_append, h.workItems_mainIds hV, h.workItems_tailIds, ← map_append, hy', hz',
    hrow]

/-- All main work-items first and the tails behind them are the same work-items. -/
theorem perm_rows (f : Bool × (Fin 3 → BitVec w) → List (Nat × Nat × Nat)) :
    (g.outerIds g.mainIds ++ g.outerIds g.tailIds).flatMap f ~
      (g.outerIds fun z y => g.mainIds z y ++ g.tailIds z y).flatMap f := by
  rw [flatMap_append, flatMap_outerIds, flatMap_outerIds, flatMap_outerIds]
  refine (flatMap_append_perm _ _ _).trans ?_
  refine List.Perm.flatMap_left _ fun z _ => ?_
  refine (flatMap_append_perm _ _ _).trans ?_
  simp only [flatMap_append]
  exact List.Perm.refl _

/-! ### Regions -/

/-- The calls of a region, in the order of its schedule. -/
def regionIds (g : ScheduleGenerator w) (schedule : BarrierSchedule) :
    List (Bool × (Fin 3 → BitVec w)) :=
  if schedule = .linear ∨ g.tailIsVectorPredicated then
    g.outerIds fun z y => g.mainIds z y ++ g.tailIds z y
  else g.outerIds g.mainIds ++ g.outerIds g.tailIds

theorem callIds_regionActions (hV : 1 ≤ g.VF.toNat) (schedule : BarrierSchedule)
    (s : LoopState w M) :
    ((g.regionActions schedule).foldl (g.perform collective) s).callIds =
      s.callIds ++ g.regionIds schedule := by
  unfold regionActions regionIds
  split
  · exact callIds_linearActions hV s
  · exact callIds_workItemActions hV s

theorem perm_regionIds (schedule : BarrierSchedule) :
    (g.regionIds schedule).flatMap g.workItems ~
      (g.outerIds fun z y => g.mainIds z y ++ g.tailIds z y).flatMap g.workItems := by
  unfold regionIds
  split
  · exact List.Perm.refl _
  · exact perm_rows g.workItems

/-- A call in the first row is a call of the region. -/
theorem mem_regionIds (hsize : ∀ i, 1 ≤ (g.localSizeDim i).value.toNat) (schedule : BarrierSchedule)
    {id : Bool × (Fin 3 → BitVec w)} (h : id ∈ g.mainIds 0#w 0#w ∨ id ∈ g.tailIds 0#w 0#w) :
    id ∈ g.regionIds schedule := by
  have houter : ∀ {row : BitVec w → BitVec w → List (Bool × (Fin 3 → BitVec w))},
      id ∈ row 0#w 0#w → id ∈ g.outerIds row := by
    intro row hrow
    simp only [outerIds, mem_flatMap, List.mem_range]
    exact ⟨0, hsize 2, 0, hsize 1, hrow⟩
  unfold regionIds
  split
  · exact houter (mem_append.2 h)
  · exact mem_append.2 (h.imp houter houter)

/-- The loops of a region are built, they return, and their calls run every work-item of the
work-group once, a linear schedule in the order of the local linear ids. -/
def RunsEveryWorkItemOnce (g : ScheduleGenerator w) (schedule : BarrierSchedule) : Prop :=
  ∀ (M : Type) (collective : Collective w M) (s : LoopState w M), s.calls = [] →
    ∃ s', g.Returns collective schedule s s' ∧ (s'.callIds.flatMap g.workItems).Nodup ∧
      (∀ p, p ∈ s'.callIds.flatMap g.workItems ↔
        p ∈ box (g.localSizeDim 0).value.toNat (g.localSizeDim 1).value.toNat
          (g.localSizeDim 2).value.toNat) ∧
      (schedule = .linear → ((s'.callIds.flatMap g.workItems).map
        (boxIndex (g.localSizeDim 0).value.toNat (g.localSizeDim 1).value.toNat)).Pairwise (· < ·))

section

variable {schedule : BarrierSchedule} (hg : g.CountsUp)
include hg

theorem runsEveryWorkItemOnce_of_exact (hnull : ¬g.NullExit) (h : g.Exact) :
    g.RunsEveryWorkItemOnce schedule := by
  intro M collective s hs
  have hids : ((g.regionActions schedule).foldl (g.perform collective) s).callIds =
      g.regionIds schedule := by
    rw [callIds_regionActions hg.factor, LoopState.callIds, hs]
    rfl
  have hperm := g.perm_regionIds schedule
  rw [h.workItems_rows hg.factor] at hperm
  refine ⟨_, (returns_iff hg).2 ⟨hnull, rfl⟩, ?_, ?_, ?_⟩
  · rw [hids]
    exact hperm.nodup_iff.2 nodup_boxList
  · intro p
    rw [hids, hperm.mem_iff, mem_boxList]
  · rintro rfl
    rw [hids, regionIds, if_pos (.inl rfl), h.workItems_rows hg.factor, map_boxIndex_boxList]
    exact pairwise_lt_range

/-- What the calls of a region are like if they run every work-item once. -/
theorem regionIds_of_runsEveryWorkItemOnce (h : g.RunsEveryWorkItemOnce schedule) :
    ¬g.NullExit ∧ ((g.regionIds schedule).flatMap g.workItems).Nodup ∧
      ∀ p ∈ (g.regionIds schedule).flatMap g.workItems, p.1 < (g.localSizeDim 0).value.toNat := by
  obtain ⟨s', hreturns, hnodup, hmem, -⟩ := h Unit .none ⟨fun _ => 0#w, 0, [], 0, none⟩ rfl
  obtain ⟨hnull, hs'⟩ := (returns_iff hg).1 hreturns
  rw [hs', callIds_regionActions hg.factor] at hnodup hmem
  exact ⟨hnull, hnodup, fun p hp => ((hmem p).1 hp).1⟩

/-- A main kernel that is not predicated takes whole vectors up to the tail. -/
theorem dvd_of_runsEveryWorkItemOnce (h : g.RunsEveryWorkItemOnce schedule)
    (hp : g.mainInfo.isVectorPredicated = false)
    (hpeel : g.mainLoopLimit.value.toNat < (g.localSizeDim 0).value.toNat → 1 ≤ g.tailTrips) :
    g.VF.toNat ∣ g.mainLoopLimit.value.toNat ∧
      g.mainLoopLimit.value.toNat ≤ (g.localSizeDim 0).value.toNat := by
  obtain ⟨-, hnodup, hbox⟩ := regionIds_of_runsEveryWorkItemOnce hg h
  by_cases hzero : g.mainLoopLimit.value = 0#w
  · rw [hzero]
    exact ⟨dvd_zero _, Nat.zero_le _⟩
  obtain ⟨n, hn, hlt, hle⟩ := mainTrips_bounds hg.factor hzero
  -- the last vector of the first row
  have hcall : (false, ![BitVec.ofNat w (n * g.VF.toNat), 0#w, 0#w]) ∈ g.regionIds schedule := by
    apply mem_regionIds hg.size
    left
    simp only [mainIds, mem_map, List.mem_range]
    exact ⟨n, by omega, rfl⟩
  have hitems : ∀ {i}, n * g.VF.toNat ≤ i → i < n * g.VF.toNat + g.VF.toNat →
      (i, 0, 0) ∈ g.workItems (false, ![BitVec.ofNat w (n * g.VF.toNat), 0#w, 0#w]) := by
    intro i hlo hhi
    simp only [workItems, mem_map, mem_range'_1]
    refine ⟨i, ?_, rfl⟩
    simp only [Matrix.cons_val_zero, toNat_mainIndex hg.factor (by omega : n < g.mainTrips), hp]
    exact ⟨hlo, hhi⟩
  rw [succ_mul] at hle
  rcases Nat.lt_or_ge g.mainLoopLimit.value.toNat (n * g.VF.toNat + g.VF.toNat) with hcut | hwhole
  · -- a vector across the limit also runs the first work-item of the tail
    exfalso
    have hlimit := hitems (Nat.le_of_lt hlt) hcut
    have hltX := hbox _ (mem_flatMap.2 ⟨_, hcall, hlimit⟩)
    have htail : (true, ![g.mainLoopLimit.value, 0#w, 0#w]) ∈ g.regionIds schedule := by
      apply mem_regionIds hg.size
      right
      simp only [tailIds, mem_map, List.mem_range]
      exact ⟨0, hpeel hltX, by simp⟩
    have hfirst : (g.mainLoopLimit.value.toNat, 0, 0) ∈
        g.workItems (true, ![g.mainLoopLimit.value, 0#w, 0#w]) := by
      simp only [workItems, mem_map, mem_range'_1]
      refine ⟨_, ?_, rfl⟩
      simp only [Matrix.cons_val_zero, if_true]
      split <;> omega
    have := eq_of_nodup_flatMap hnodup hcall htail hlimit hfirst
    simp at this
  · have heq : g.mainLoopLimit.value.toNat = (n + 1) * g.VF.toNat := by
      rw [succ_mul]
      omega
    refine ⟨Dvd.intro_left _ heq.symm, ?_⟩
    have hlast := hitems (i := g.mainLoopLimit.value.toNat - 1) (by omega) (by omega)
    have := hbox _ (mem_flatMap.2 ⟨_, hcall, hlast⟩)
    omega

end

/-! ### A main loop whose index wraps -/

theorem callIds_isPrefix (s : LoopState w M) (actions : List (Action w)) :
    s.callIds <+: (actions.foldl (g.perform collective) s).callIds := by
  induction actions generalizing s with
  | nil => exact prefix_rfl
  | cons action actions ih =>
    refine List.IsPrefix.trans ?_ (ih (g.perform collective s action))
    cases action with
    | setLocalId => exact prefix_rfl
    | call =>
      simp only [LoopState.callIds, perform, regionCall, map_append]
      exact prefix_append _ _
    | initIVs => exact prefix_rfl

theorem callIds_isPrefix_of_mainLoop {dim_2 dim_1 : BitVec w} {s t : LoopState w M}
    (h : g.mainLoop collective fuel dim_2 dim_1 s = some t) : s.callIds <+: t.callIds := by
  refine doWhile_related (R := fun s t : LoopState w M => s.callIds <+: t.callIds)
    (fun _ => prefix_rfl) (fun h h' => h.trans h') ?_ h
  rintro i s t ⟨⟩
  exact callIds_isPrefix s [.call false dim_2 dim_1 i]

/-- Loops that return have gone through their first row. -/
theorem exists_first_row {row : BitVec w → BitVec w → LoopState w M → Option (LoopState w M)}
    (hrow : ∀ {dim_2 dim_1 s t}, row dim_2 dim_1 s = some t → s.callIds <+: t.callIds)
    {s t : LoopState w M} (h : g.outerLoops fuel row s = some t) :
    ∃ u, row 0#w 0#w ((s.setLocalId 2 0#w).setLocalId 1 0#w) = some u ∧
      u.callIds <+: t.callIds := by
  have hy : ∀ {dim_2} {s t : LoopState w M}, createLoop fuel 0#w (g.localSizeDim 1).value defaultInc
      (fun dim_1 s => row dim_2 dim_1 (s.setLocalId 1 dim_1)) s = some t →
      ∃ u, row dim_2 0#w (s.setLocalId 1 0#w) = some u ∧ u.callIds <+: t.callIds := by
    intro dim_2 s t h
    have hbody : ∀ {dim_1 : BitVec w} {s t : LoopState w M},
        row dim_2 dim_1 (s.setLocalId 1 dim_1) = some t → s.callIds <+: t.callIds := by
      intro dim_1 s t h
      have hmore := hrow h
      exact hmore
    have hfirst := exists_first_turn (R := fun s t : LoopState w M => s.callIds <+: t.callIds)
      (fun _ => prefix_rfl) (fun h h' => h.trans h') hbody h
    exact hfirst
  have hbody : ∀ {dim_2 : BitVec w} {s t : LoopState w M},
      createLoop fuel 0#w (g.localSizeDim 1).value defaultInc
        (fun dim_1 s => row dim_2 dim_1 (s.setLocalId 1 dim_1)) (s.setLocalId 2 dim_2) = some t →
      s.callIds <+: t.callIds := by
    intro dim_2 s t h
    obtain ⟨u, hu, hut⟩ := hy h
    have hmore := hrow hu
    exact List.IsPrefix.trans hmore hut
  obtain ⟨u, hu, hut⟩ := exists_first_turn (R := fun s t : LoopState w M => s.callIds <+: t.callIds)
    (fun _ => prefix_rfl) (fun h h' => h.trans h') hbody h
  obtain ⟨v, hv, hvu⟩ := hy hu
  exact ⟨v, hv, hvu.trans hut⟩

/-- A main loop whose index wraps comes back to its first vector. -/
theorem exists_wrapped_turn (hV : 1 ≤ g.VF.toNat) (hwrap : 2 ^ w ≤ g.mainTrips * g.VF.toNat)
    {dim_2 dim_1 : BitVec w} {s t : LoopState w M}
    (h : g.mainLoop collective fuel dim_2 dim_1 s = some t) :
    (∃ rest, t = (((List.range (g.mainTrips + 1)).map fun k =>
      Action.call false dim_2 dim_1 (BitVec.ofNat w (k * g.VF.toNat))) ++ rest).foldl
        (g.perform collective) s) ∧
      (BitVec.ofNat w (g.mainTrips * g.VF.toNat)).toNat < g.VF.toNat ∧
      g.VF.toNat ≤ g.mainLoopLimit.value.toNat := by
  obtain ⟨n, hn, hlt, hle⟩ := mainTrips_bounds hV (mainLoopLimit_ne_zero_of_wrap hV hwrap)
  rw [hn] at hwrap ⊢
  rw [succ_mul] at hwrap hle
  have hone : g.VF.toNat ≤ n * g.VF.toNat := by
    have : n ≠ 0 := by
      rintro rfl
      omega
    exact Nat.le_mul_of_pos_left _ (Nat.pos_of_ne_zero this)
  have hback : (BitVec.ofNat w ((n + 1) * g.VF.toNat)).toNat =
      n * g.VF.toNat + g.VF.toNat - 2 ^ w := by
    rw [BitVec.toNat_ofNat, succ_mul, mod_eq_sub_mod hwrap, mod_eq_of_lt (by omega)]
  refine ⟨?_, by omega, by omega⟩
  have hagain : ∀ k < n + 1, ((fun phi => phi + g.VF)^[k + 1] 0#w).ult g.mainLoopLimit.value := by
    intro k hk
    rw [iterate_add_zero]
    simp only [BitVec.ult, decide_eq_true_eq]
    rcases Nat.lt_or_ge k n with hkn | hkn
    · have : (k + 1) * g.VF.toNat ≤ n * g.VF.toNat := Nat.mul_le_mul_right _ hkn
      rw [BitVec.toNat_ofNat, mod_eq_of_lt (by omega)]
      omega
    · rw [show k = n by omega]
      omega
  obtain ⟨rest, ht⟩ := exists_foldl_turns (fun i => [Action.call false dim_2 dim_1 i])
    (g.perform collective) (fun _ _ => rfl) hagain h
  refine ⟨rest, ?_⟩
  simpa only [turns, iterate_add_zero, ← map_eq_flatMap] using ht

variable {schedule : BarrierSchedule}

/-- What the calls are like where the index of the only loop of a row wraps. -/
theorem wrapped_isPrefix_of_returns (htail : g.tailInfo = none)
    (hpeel : g.peel = none) (hV : 1 ≤ g.VF.toNat) (hwrap : 2 ^ w ≤ g.mainTrips * g.VF.toNat)
    {s s' : LoopState w M} (hs : s.calls = []) (h : g.Returns collective schedule s s') :
    ((List.range (g.mainTrips + 1)).map fun k =>
      (false, ![BitVec.ofNat w (k * g.VF.toNat), 0#w, 0#w])) <+: s'.callIds ∧
      (BitVec.ofNat w (g.mainTrips * g.VF.toNat)).toNat < g.VF.toNat ∧
      g.VF.toNat ≤ g.mainLoopLimit.value.toNat := by
  obtain ⟨u, hu, hus⟩ := exists_first_row (fun h => callIds_isPrefix_of_mainLoop h)
    (outerLoops_of_returns htail hpeel (mainLoopLimit_ne_zero_of_wrap hV hwrap) h)
  obtain ⟨⟨rest, rfl⟩, hback, hVle⟩ := exists_wrapped_turn hV hwrap hu
  refine ⟨?_, hback, hVle⟩
  have hcalls : g.RowCalls collective 0#w 0#w _ _ := RowCalls.calls 0#w 0#w false
    (fun k => BitVec.ofNat w (k * g.VF.toNat)) (g.mainTrips + 1)
  rw [foldl_append] at hus
  have hfront := (callIds_isPrefix _ rest).trans hus
  rw [(hcalls _ (by simp [LoopState.setLocalId])).2] at hfront
  simpa [LoopState.callIds, LoopState.setLocalId, LoopState.initIVs, hs] using hfront

theorem mainTrips_mul_lt_of_runsEveryWorkItemOnce
    (htail : g.tailInfo = none) (hpeel : g.peel = none) (hlimit : g.mainLoopLimit = g.localSizeDim 0)
    (hV : 1 ≤ g.VF.toNat) (h : g.RunsEveryWorkItemOnce schedule) : g.mainTrips * g.VF.toNat < 2 ^ w := by
  by_contra hwrap
  obtain ⟨s', hreturns, hnodup, -⟩ := h Unit .none ⟨fun _ => 0#w, 0, [], 0, none⟩ rfl
  obtain ⟨⟨rest, hrest⟩, hback, hVle⟩ := wrapped_isPrefix_of_returns htail hpeel hV
    (Nat.not_lt.1 hwrap) rfl hreturns
  -- the first call and the one behind the wrap run the same work-item
  rw [← hrest, flatMap_append] at hnodup
  have hpairs := (nodup_flatMap.1 (nodup_append.1 hnodup).1).2
  rw [pairwise_map, pairwise_iff_getElem] at hpairs
  have hdisjoint := hpairs 0 g.mainTrips (by simp) (by simp) (by
    rw [Nat.pos_iff_ne_zero]
    intro hzero
    rw [hzero, Nat.zero_mul] at hwrap
    exact hwrap (Nat.two_pow_pos w))
  simp only [getElem_range, Nat.zero_mul] at hdisjoint
  rw [hlimit] at hVle
  apply hdisjoint (a := ((BitVec.ofNat w (g.mainTrips * g.VF.toNat)).toNat, 0, 0))
  · simp only [workItems, mem_map, mem_range'_1]
    refine ⟨_, ?_, rfl⟩
    simp only [Matrix.cons_val_zero, Bool.false_eq_true, if_false, BitVec.toNat_ofNat, zero_mod]
      at hback ⊢
    split <;> omega
  · simp only [workItems, mem_map, mem_range'_1]
    refine ⟨_, ?_, rfl⟩
    simp only [Matrix.cons_val_zero, Bool.false_eq_true, if_false]
    split <;> omega

end ScheduleGenerator

/-! ### The wrappers of the pass -/

section Wrapper

variable {kernel : Kernel w} {launch : Launch w}

/-- A kernel without a tail that is not predicated fits the local size. -/
theorem dvd_of_noTail (havail : ∀ link, kernel.veczToOrig = some link → link.1 = true)
    (hnone : (mainTailPair false kernel).2 = none)
    (hp : (mainTailPair false kernel).1.isVectorPredicated = false)
    (hsize : 1 ≤ (localSizeDim kernel launch 0).value.toNat) :
    (wrapperSchedule false kernel launch).VF.toNat ∣
      (localSizeDim kernel launch 0).value.toNat := by
  rcases mainTailPair_of_none havail hnone hp with hscalar | hfits
  · have hVF : (wrapperSchedule false kernel launch).VF = 1#w := by
      simp [wrapperSchedule, scheduleGenerator, hscalar, scalarTailInfo, materializeVF]
    rw [hVF, BitVec.toNat_ofNat, mod_eq_of_lt (by omega)]
    exact one_dvd _
  · unfold fitsLocalSize at hfits
    split at hfits
    · rename_i wgs hwgs
      simp only [Bool.and_eq_true, Bool.not_eq_eq_eq_not, beq_iff_eq] at hfits
      have hVF : (wrapperSchedule false kernel launch).VF =
          (mainTailPair false kernel).1.vf.knownMin := by
        simp [wrapperSchedule, scheduleGenerator, materializeVF, hfits.1]
      have hmod := congrArg BitVec.toNat hfits.2
      rw [hVF, localSizeDim, hwgs]
      exact dvd_of_mod_eq_zero hmod
    · cases hfits

/-- A kernel of factor 4, with the scalar original as its tail, or with a vector-predicated one. -/
def vectorKernel (reqdWorkGroupSize : Option (Fin 3 → BitVec 64)) (predicatedTail : Bool) :
    Kernel 64 :=
  { reqdWorkGroupSize
    maxWorkDim := none
    veczToOrig := some (true, ⟨⟨4#64, false⟩, false⟩)
    linkedFns := [(true, ⟨⟨4#64, false⟩, false⟩), (false, ⟨⟨4#64, false⟩, predicatedTail⟩)] }

end Wrapper

end ConstructionKit.WorkItemLoops
