import Mathlib.Algebra.BigOperators.Group.List.Basic
import ConstructionKit.Compiler.WorkItemCoverage

/-! The accumulators that the linear loops pass to the calls behind a work-group scan. -/

namespace ConstructionKit.WorkItemLoops

open Compiler ProofKit List BitVec

variable {w : Nat} {M : Type}

/-! ### The order of the calls -/

/-- Local linear order: the third dimension first, then the second, then the first. -/
def Precedes (p q : Fin 3 → BitVec w) : Prop :=
  (p 2).toNat < (q 2).toNat ∨ (p 2).toNat = (q 2).toNat ∧
    ((p 1).toNat < (q 1).toNat ∨ (p 1).toNat = (q 1).toNat ∧ (p 0).toNat < (q 0).toNat)

namespace ScheduleGenerator

variable {g : ScheduleGenerator w} {collective : Collective w M}

/-- The calls of a row ascend, if the ids of a scalar tail do not wrap. -/
theorem pairwise_precedes_row (hV : 1 ≤ g.VF.toNat) (dim_2 dim_1 : BitVec w)
    (htail : g.tailTrips ≤ 1 ∨ g.mainLoopLimit.value.toNat + g.tailTrips ≤ 2 ^ w) :
    (g.mainIds dim_2 dim_1 ++ g.tailIds dim_2 dim_1).Pairwise fun p q => Precedes p.2 q.2 := by
  have hlast : ∀ {p q : Fin 3 → BitVec w}, p 1 = q 1 → p 2 = q 2 → (p 0).toNat < (q 0).toNat →
      Precedes p q := fun h1 h2 h0 => .inr ⟨by rw [h2], .inr ⟨by rw [h1], h0⟩⟩
  have htailIndex : ∀ {k}, k < g.tailTrips →
      (g.mainLoopLimit.value + BitVec.ofNat w k).toNat = g.mainLoopLimit.value.toNat + k := by
    intro k hk
    have : g.mainLoopLimit.value.toNat + k < 2 ^ w := by omega
    rw [toNat_add, toNat_ofNat, Nat.mod_eq_of_lt (by omega : k < 2 ^ w),
      Nat.mod_eq_of_lt this]
  rw [pairwise_append]
  refine ⟨?_, ?_, ?_⟩
  · rw [mainIds, pairwise_map]
    refine pairwise_lt_range.imp_of_mem fun {i j} hi hj hij => hlast rfl rfl ?_
    rw [List.mem_range] at hi hj
    show (BitVec.ofNat w (i * g.VF.toNat)).toNat < (BitVec.ofNat w (j * g.VF.toNat)).toNat
    rw [toNat_mainIndex hV hi, toNat_mainIndex hV hj]
    exact Nat.mul_lt_mul_of_pos_right hij hV
  · rw [tailIds, pairwise_map]
    refine pairwise_lt_range.imp_of_mem fun {i j} hi hj hij => hlast rfl rfl ?_
    rw [List.mem_range] at hi hj
    show (g.mainLoopLimit.value + BitVec.ofNat w i).toNat <
      (g.mainLoopLimit.value + BitVec.ofNat w j).toNat
    rw [htailIndex hi, htailIndex hj]
    omega
  · intro p hp q hq
    obtain ⟨i, hi, rfl⟩ := mem_map.1 hp
    obtain ⟨j, hj, rfl⟩ := mem_map.1 hq
    rw [List.mem_range] at hi hj
    refine hlast rfl rfl ?_
    show (BitVec.ofNat w (i * g.VF.toNat)).toNat < (g.mainLoopLimit.value + BitVec.ofNat w j).toNat
    have := mul_lt_of_lt_mainTrips hV hi
    rw [toNat_mainIndex hV hi, htailIndex hj]
    omega

/-- Rows that ascend make loops that ascend. -/
theorem pairwise_precedes_outerIds {row : BitVec w → BitVec w → List (Bool × (Fin 3 → BitVec w))}
    (hrow : ∀ dim_2 dim_1, (row dim_2 dim_1).Pairwise fun p q => Precedes p.2 q.2)
    (hids : ∀ dim_2 dim_1, ∀ p ∈ row dim_2 dim_1, p.2 1 = dim_1 ∧ p.2 2 = dim_2) :
    (g.outerIds row).Pairwise fun p q => Precedes p.2 q.2 := by
  have hnat : ∀ {i : Fin 3} {k}, k < (g.localSizeDim i).value.toNat → (BitVec.ofNat w k).toNat = k := by
    intro i k hk
    rw [toNat_ofNat, Nat.mod_eq_of_lt (hk.trans (g.localSizeDim i).value.isLt)]
  rw [outerIds, pairwise_flatMap]
  refine ⟨fun z hz => ?_, ?_⟩
  · rw [pairwise_flatMap]
    refine ⟨fun y hy => hrow _ _, ?_⟩
    refine pairwise_lt_range.imp_of_mem fun {y y'} hy hy' hlt p hp q hq => ?_
    rw [List.mem_range] at hy hy'
    obtain ⟨hp1, hp2⟩ := hids _ _ p hp
    obtain ⟨hq1, hq2⟩ := hids _ _ q hq
    refine .inr ⟨by rw [hp2, hq2], .inl ?_⟩
    rwa [hp1, hq1, hnat hy, hnat hy']
  · refine pairwise_lt_range.imp_of_mem fun {z z'} hz hz' hlt p hp q hq => ?_
    rw [List.mem_range] at hz hz'
    simp only [mem_flatMap] at hp hq
    obtain ⟨y, -, hp⟩ := hp
    obtain ⟨y', -, hq⟩ := hq
    left
    rwa [(hids _ _ p hp).2, (hids _ _ q hq).2, hnat hz, hnat hz']

theorem mem_row {dim_2 dim_1 : BitVec w} {p : Bool × (Fin 3 → BitVec w)}
    (h : p ∈ g.mainIds dim_2 dim_1 ++ g.tailIds dim_2 dim_1) : p.2 1 = dim_1 ∧ p.2 2 = dim_2 := by
  obtain h | h := mem_append.1 h
  all_goals
    obtain ⟨k, -, rfl⟩ := mem_map.1 h
    exact ⟨rfl, rfl⟩

/-! ### The accumulators -/

/-- A scan with an associative operation and its identity. -/
def monoidScan [Monoid M] (isExclusive : Bool → Bool) (operand : Bool → BitVec w → M) : Scan w M :=
  ⟨(· * ·), 1, isExclusive, operand⟩

variable [Monoid M] {isExclusive : Bool → Bool} {operand : Bool → BitVec w → M} {s : LoopState w M}

/-- What the call at position `k` should get: the fold of the operands before it, and of its own for
an inclusive scan. -/
def scanBefore (isExclusive : Bool → Bool) (operand : Bool → BitVec w → M) (calls : List (Call w M))
    (k : Nat) (tail : Bool) : M :=
  ((calls.take (if isExclusive tail then k else k + 1)).map fun call =>
    operand call.tail call.liveVars).prod

/-- Each call has got its part of the scan, and the induction variable is the whole of it. -/
structure Scanned (isExclusive : Bool → Bool) (operand : Bool → BitVec w → M) (s : LoopState w M) :
    Prop where
  next : s.scanIV = some (s.calls.map fun call => operand call.tail call.liveVars).prod
  accums : ∀ k (hk : k < s.calls.length),
    s.calls[k].accum = some (scanBefore isExclusive operand s.calls k s.calls[k].tail)

theorem scanned_initIVs (hs : s.calls = []) :
    Scanned isExclusive operand (s.initIVs (.scan (monoidScan isExclusive operand))) := by
  constructor
  · simp [LoopState.initIVs, hs, Collective.accum, monoidScan]
  · intro k hk
    simp [LoopState.initIVs, hs] at hk

theorem scanned_regionCall (h : Scanned isExclusive operand s) (tail : Bool)
    (dim_2 dim_1 dim_0 : BitVec w) :
    Scanned isExclusive operand
      (g.regionCall (.scan (monoidScan isExclusive operand)) tail dim_2 dim_1 dim_0 s) := by
  obtain ⟨hnext, haccums⟩ := h
  constructor
  · simp [regionCall, LoopState.setLocalId, hnext, monoidScan]
  · intro k hk
    simp only [regionCall, LoopState.setLocalId, length_append, length_singleton] at hk
    simp only [regionCall, LoopState.setLocalId]
    rcases Nat.lt_or_ge k s.calls.length with hlt | hge
    · simp only [getElem_append_left hlt, haccums k hlt, scanBefore]
      rw [take_append_of_le_length]
      split <;> omega
    · obtain rfl : k = s.calls.length := by omega
      simp only [getElem_concat_length, hnext, scanBefore, monoidScan]
      cases isExclusive tail with
      | true => simp
      | false => simp

/-- The calls of the tail in a row that has just restarted, under the scan that counts them. -/
theorem accums_tailActions (dim_2 dim_1 : BitVec w) {s : LoopState w (Multiplicative Nat)}
    {counting : Collective w (Multiplicative Nat)}
    (hcounting : counting = .scan (monoidScan (fun _ => true) fun _ _ => .ofAdd 1)) :
    ((g.tailActions dim_2 dim_1).foldl (g.perform counting) (s.initIVs counting)).calls.map
        (·.accum) =
      s.calls.map (·.accum) ++
        (List.range g.tailTrips).map fun k => some (Multiplicative.ofAdd k) := by
  refine (tailActions_induct (P := fun n t => t.scanIV = some (Multiplicative.ofAdd n) ∧
    t.calls.map (·.accum) = s.calls.map (·.accum) ++
      (List.range n).map fun k => some (Multiplicative.ofAdd k)) ?_ ?_).2
  · simp [LoopState.initIVs, hcounting, Collective.accum, monoidScan]
  · rintro n t ⟨hiv, haccums⟩
    constructor
    · simp [regionCall, hcounting, hiv, monoidScan]
    · simp [regionCall, LoopState.setLocalId, hcounting, hiv, haccums, monoidScan, range_succ]

/-- The linear loops are built, they return, their calls are in local linear order, and each of them
gets the fold of the operands of the calls before it, whatever the operation. -/
def ScansInOrder (g : ScheduleGenerator w) : Prop :=
  ∀ (M : Type) [Monoid M] (isExclusive : Bool → Bool) (operand : Bool → BitVec w → M)
    (s : LoopState w M), s.calls = [] →
    ∃ s', g.Returns (.scan (monoidScan isExclusive operand)) .linear s s' ∧
      (s'.calls.Pairwise fun c d => Precedes c.localId d.localId) ∧
      ∀ k (hk : k < s'.calls.length),
        s'.calls[k].accum = some (scanBefore isExclusive operand s'.calls k s'.calls[k].tail)

omit [Monoid M] in
theorem pairwise_calls_iff : (s.calls.Pairwise fun c d => Precedes c.localId d.localId) ↔
      s.callIds.Pairwise fun p q => Precedes p.2 q.2 := by
  rw [LoopState.callIds, pairwise_map]

theorem regionIds_linear :
    g.regionIds .linear = g.outerIds fun z y => g.mainIds z y ++ g.tailIds z y :=
  if_pos (.inl rfl)

section

variable (hg : g.CountsUp)
include hg

theorem scansInOrder_of_not_restarts (hnull : ¬g.NullExit) (hrestart : ¬g.Restarts .linear)
    (htail : g.tailTrips ≤ 1 ∨ g.mainLoopLimit.value.toNat + g.tailTrips ≤ 2 ^ w) :
    g.ScansInOrder := by
  intro M _ isExclusive operand s hs
  refine ⟨_, (returns_iff hg).2 ⟨hnull, rfl⟩, ?_, ?_⟩
  · rw [pairwise_calls_iff, callIds_regionActions hg.factor, LoopState.callIds, hs]
    exact pairwise_precedes_outerIds (fun dim_2 dim_1 => pairwise_precedes_row hg.factor dim_2 dim_1 htail)
      fun _ _ _ => mem_row
  · refine Scanned.accums (invariant_regionActions ?_ ?_ ?_ hg.size hrestart hs)
    · exact fun _ _ h => ⟨h.next, h.accums⟩
    · exact fun tail dim_2 dim_1 dim_0 h => scanned_regionCall h tail dim_2 dim_1 dim_0
    · exact fun h => scanned_initIVs h

/-- A scalar tail whose ids wrap is not in order. -/
theorem limit_add_le_of_scansInOrder (h : g.ScansInOrder) :
    ¬g.NullExit ∧
      (g.tailTrips ≤ 1 ∨ g.mainLoopLimit.value.toNat + g.tailTrips ≤ 2 ^ w) := by
  obtain ⟨s', hreturns, horder, -⟩ := h (Multiplicative Nat) (fun _ => true)
    (fun _ _ => 1) ⟨fun _ => 0#w, 0, [], 0, none⟩ rfl
  obtain ⟨hnull, rfl⟩ := (returns_iff hg).1 hreturns
  refine ⟨hnull, ?_⟩
  by_contra hcontra
  have hlimit := g.mainLoopLimit.value.isLt
  rw [pairwise_calls_iff, callIds_regionActions hg.factor, regionIds_linear, pairwise_append] at horder
  obtain ⟨-, horder, -⟩ := horder
  rw [outerIds, pairwise_flatMap] at horder
  have hrow := horder.1 0 (List.mem_range.2 (hg.size 2))
  rw [pairwise_flatMap] at hrow
  have htail := (pairwise_append.1 (hrow.1 0 (List.mem_range.2 (hg.size 1)))).2.1
  rw [tailIds, pairwise_map, pairwise_iff_getElem] at htail
  -- the id behind the wrap is zero
  have hwrapped := htail 0 (2 ^ w - g.mainLoopLimit.value.toNat) (by simp; omega) (by simp; omega)
    (by omega)
  have hzero : (g.mainLoopLimit.value +
      BitVec.ofNat w (2 ^ w - g.mainLoopLimit.value.toNat)).toNat = 0 := by
    rw [toNat_add, toNat_ofNat, Nat.add_mod_mod,
      Nat.add_sub_cancel' (Nat.le_of_lt hlimit), Nat.mod_self]
  simp only [getElem_range] at hwrapped
  obtain hlt | ⟨-, hlt | ⟨-, hlt⟩⟩ := hwrapped
  iterate 2 exact Nat.lt_irrefl _ hlt
  · exact absurd hlt (by simp only [Matrix.cons_val_zero, hzero]; exact Nat.not_lt_zero _)

/-- Loops that restart hand the identity to the first call of every row. -/
theorem not_restarts_of_scansInOrder (htail : g.SkipsMain → 1 ≤ g.tailTrips) (h : g.ScansInOrder) :
    ¬g.Restarts .linear := by
  intro hrestart
  -- the scan that counts the calls gives each of them another accumulator
  obtain ⟨s', hreturns, -, haccums⟩ := h (Multiplicative Nat) (fun _ => true)
    (fun _ _ => .ofAdd 1) ⟨fun _ => 0#w, 0, [], 0, none⟩ rfl
  obtain ⟨-, hs'⟩ := (returns_iff hg).1 hreturns
  have hlist : s'.calls.map (·.accum) =
      (List.range s'.calls.length).map fun k => some (Multiplicative.ofAdd k) := by
    apply ext_getElem (by simp)
    intro k hk hk'
    simp only [length_map] at hk
    simp [haccums k hk, scanBefore, Nat.min_eq_left (Nat.le_of_lt hk), ← ofAdd_nsmul]
  have hnodup : (s'.calls.map (·.accum)).Nodup := by
    rw [hlist]
    refine nodup_range.map fun i j hij => ?_
    exact Multiplicative.ofAdd.injective (Option.some.inj hij)
  rw [hs'] at hnodup
  refine not_nodup_of_restarts (fun s => s.calls.map (·.accum)) (b := some 1) ?_
    (fun _ _ => rfl) (fun dim_2 dim_1 => accums_tailActions dim_2 dim_1 rfl) hrestart _ hnodup
  exact mem_map.2 ⟨0, List.mem_range.2 (htail hrestart.2.1), rfl⟩

end

theorem mainTrips_mul_lt_of_scansInOrder (htail : g.tailInfo = none) (hpeel : g.peel = none)
    (hV : 1 ≤ g.VF.toNat) (h : g.ScansInOrder) : g.mainTrips * g.VF.toNat < 2 ^ w := by
  by_contra hwrap
  obtain ⟨s', hreturns, horder, -⟩ := h (Multiplicative Nat) (fun _ => true)
    (fun _ _ => 1) ⟨fun _ => 0#w, 0, [], 0, none⟩ rfl
  obtain ⟨⟨rest, hrest⟩, hback, -⟩ := wrapped_isPrefix_of_returns htail hpeel hV
    (Nat.not_lt.1 hwrap) rfl hreturns
  rw [pairwise_calls_iff, ← hrest, pairwise_append, pairwise_map,
    pairwise_iff_getElem] at horder
  -- the second call of the first row comes before the one behind the wrap
  have htrips : 1 < g.mainTrips := by
    by_contra hle
    have := Nat.mul_le_mul_right g.VF.toNat (Nat.not_lt.1 hle)
    omega
  have hwrapped := horder.1 1 g.mainTrips (by simp; omega) (by simp) htrips
  simp only [getElem_range, Nat.one_mul] at hwrapped
  obtain hlt | ⟨-, hlt | ⟨-, hlt⟩⟩ := hwrapped
  iterate 2 exact Nat.lt_irrefl _ hlt
  · simp only [Matrix.cons_val_zero, ofNat_toNat, setWidth_eq] at hlt
    omega

end ScheduleGenerator

/-- The linear loops that the pass makes hand every call its part of the scan exactly when they can be
built, do not restart in every row, and no index wraps. -/
theorem scansInOrder_iff (forceNoTail : Bool) (kernel : Kernel w) (launch : Launch w)
    (hsize : ∀ i, 1 ≤ (localSizeDim kernel launch i).value.toNat)
    (hV : 1 ≤ (wrapperSchedule forceNoTail kernel launch).VF.toNat) :
    let g := wrapperSchedule forceNoTail kernel launch
    g.ScansInOrder ↔
      ¬g.NullExit ∧ ¬g.Restarts .linear ∧
        (g.emitTail = false → g.mainTrips * g.VF.toNat < 2 ^ w) ∧
        (g.tailTrips ≤ 1 ∨ g.mainLoopLimit.value.toNat + g.tailTrips ≤ 2 ^ w) := by
  intro g
  constructor
  · intro h
    have hg : g.CountsUp := countsUp_wrapper hsize hV fun hemit => by
      have htail := tailInfo_of_emitTail hemit
      exact ScheduleGenerator.mainTrips_mul_lt_of_scansInOrder htail
        (wrapperSchedule_of_none launch htail).1 hV h
    obtain ⟨hnull, htail⟩ := ScheduleGenerator.limit_add_le_of_scansInOrder hg h
    exact ⟨hnull, ScheduleGenerator.not_restarts_of_scansInOrder hg (one_le_tailTrips (hsize 0)) h,
      fun _ => hg.wrap, htail⟩
  · rintro ⟨hnull, hrestart, hlt, htail⟩
    exact ScheduleGenerator.scansInOrder_of_not_restarts (countsUp_wrapper hsize hV hlt) hnull hrestart
      htail

/-- Two rows of six work-items, a size read at run time: in each row one vector and two calls of the
tail. -/
theorem scansInOrder_twoRows :
    (wrapperSchedule false (vectorKernel none false) ⟨![6, 2, 1], 1⟩).ScansInOrder :=
  (scansInOrder_iff false (vectorKernel none false) ⟨![6, 2, 1], 1⟩ (by decide) (by decide)).2
    (by decide)

/-- Two rows of two work-items, as a required size: no main loop is made, and the second row begins
with the identity again. -/
theorem not_scansInOrder_reqdTwo :
    ¬(wrapperSchedule false (vectorKernel (some ![2, 2, 1]) false) ⟨![2, 2, 1], 1⟩).ScansInOrder := by
  intro h
  exact ScheduleGenerator.not_restarts_of_scansInOrder
    ⟨by decide, by decide, by decide, by decide⟩ (by decide) h (by decide)

end ConstructionKit.WorkItemLoops
