import ConstructionKit.Compiler.WorkItemLoops

/-! The work-item loops as lists of actions.  Where the index of the main loop does not wrap, the
loops of a region return, and what they have done is the list of the calls of their rows. -/

namespace ConstructionKit.WorkItemLoops

open Compiler ProofKit List Option Nat

variable {w : Nat} {M : Type} (x m : BitVec w)

/-! ### What a signed remainder leaves -/

theorem toNat_sub_umod : (x - x % m).toNat = x.toNat - x.toNat % m.toNat := by
  have hle := mod_le x.toNat m.toNat
  rw [BitVec.toNat_sub, BitVec.toNat_umod,
    show 2 ^ w - x.toNat % m.toNat + x.toNat = 2 ^ w + (x.toNat - x.toNat % m.toNat) by omega,
    add_mod_left, mod_eq_of_lt (by omega)]

/-- Less the remainder, a negative number is zero or the negative of a positive multiple. -/
theorem toNat_sub_neg_umod (hx : 1 ≤ x.toNat) :
    (x - -(-x % m)).toNat = 0 ∨
      ∃ q, 1 ≤ q ∧ (x - -(-x % m)).toNat + m.toNat * q = 2 ^ w := by
  have hneg : (-x).toNat = 2 ^ w - x.toNat := by
    rw [BitVec.toNat_neg, mod_eq_of_lt (by omega)]
  have hdiv := div_add_mod (-x).toNat m.toNat
  have hsub : (x - -(-x % m)).toNat = (x.toNat + (-x).toNat % m.toNat) % 2 ^ w := by
    rw [BitVec.sub_eq_add_neg, BitVec.neg_neg, BitVec.toNat_add, BitVec.toNat_umod]
  rcases Nat.eq_zero_or_pos ((-x).toNat / m.toNat) with hq | hq
  · left
    rw [hq] at hdiv
    rw [hsub, show x.toNat + (-x).toNat % m.toNat = 2 ^ w by omega, mod_self]
  · right
    refine ⟨_, hq, ?_⟩
    have hm : 0 < m.toNat := by
      by_contra hzero
      simp [show m.toNat = 0 by omega] at hq
    have hmul : 1 ≤ m.toNat * ((-x).toNat / m.toNat) := Nat.mul_pos hm hq
    rw [hsub, mod_eq_of_lt (by omega)]
    omega

/-- What is left of a number by a signed remainder, as an unsigned number. -/
theorem toNat_sub_srem (x v : BitVec w) (hv : 1 ≤ v.toNat) :
    (x - x.srem v).toNat = 0 ∨ v.toNat ∣ (x - x.srem v).toNat ∨ (x - x.srem v).toNat ≤ v.toNat ∨
      (x - x.srem v).toNat + v.toNat ≤ 2 ^ w := by
  rw [BitVec.srem_eq]
  cases hxm : x.msb <;> cases hvm : v.msb <;> dsimp only <;>
    simp only [BitVec.msb_eq_decide, decide_eq_true_eq, decide_eq_false_iff_not] at hxm hvm
  · rw [toNat_sub_umod]
    exact .inr (.inl (dvd_sub_mod x.toNat))
  · rw [toNat_sub_umod]
    omega
  · obtain hzero | ⟨q, hq, hsum⟩ := toNat_sub_neg_umod x v (by omega)
    · exact .inl hzero
    · have := Nat.mul_le_mul_left v.toNat hq
      omega
  · have hpow := Nat.two_pow_pos (w - 1)
    obtain hzero | ⟨q, hq, hsum⟩ := toNat_sub_neg_umod x (-v) (by omega)
    · exact .inl hzero
    · have hneg : (-v).toNat = 2 ^ w - v.toNat := by
        rw [BitVec.toNat_neg, mod_eq_of_lt (by omega)]
      have := Nat.mul_le_mul_left (-v).toNat hq
      omega

/-! ### Actions -/

/-- What the loops do: set a local id, call the region, and start the induction variables again. -/
inductive Action (w : Nat) where
  | setLocalId (dim : Fin 3) (value : BitVec w)
  | call (tail : Bool) (dim_2 dim_1 dim_0 : BitVec w)
  | initIVs

namespace ScheduleGenerator

variable (g : ScheduleGenerator w) (collective : Collective w M)

def perform (s : LoopState w M) : Action w → LoopState w M
  | .setLocalId dim value => s.setLocalId dim value
  | .call tail dim_2 dim_1 dim_0 => g.regionCall collective tail dim_2 dim_1 dim_0 s
  | .initIVs => s.initIVs collective

/-- The number of iterations of the main loop in a row. -/
def mainTrips : Nat := (g.mainLoopLimit.value.toNat + g.VF.toNat - 1) / g.VF.toNat

/-- The number of calls of the tail in a row. -/
def tailTrips : Nat :=
  if g.tailIsVectorPredicated then (if g.peelValue = 0#w then 0 else 1) else g.peelValue.toNat

def mainActions (dim_2 dim_1 : BitVec w) : List (Action w) :=
  (List.range g.mainTrips).map fun k =>
    .call false dim_2 dim_1 (BitVec.ofNat w (k * g.VF.toNat))

def tailActions (dim_2 dim_1 : BitVec w) : List (Action w) :=
  (List.range g.tailTrips).map fun k => .call true dim_2 dim_1 (BitVec.ofNat w k)

def outerActions (row : BitVec w → BitVec w → List (Action w)) : List (Action w) :=
  (List.range (g.localSizeDim 2).value.toNat).flatMap fun z =>
    .setLocalId 2 (BitVec.ofNat w z) ::
      (List.range (g.localSizeDim 1).value.toNat).flatMap fun y =>
        .setLocalId 1 (BitVec.ofNat w y) :: row (BitVec.ofNat w z) (BitVec.ofNat w y)

/-- The main loop is left out: the limit is a constant, and it is zero. -/
def SkipsMain : Prop :=
  g.emitTail ∧ g.mainLoopLimit.isConstant ∧ g.mainLoopLimit.value = 0#w

instance : Decidable g.SkipsMain := inferInstanceAs (Decidable (_ ∧ _ ∧ _))

def linearRowActions (dim_2 dim_1 : BitVec w) : List (Action w) :=
  (if g.SkipsMain then [.initIVs] else g.mainActions dim_2 dim_1) ++ g.tailActions dim_2 dim_1

/-- The actions of the linear loops. -/
def linearActions : List (Action w) := .initIVs :: g.outerActions g.linearRowActions

/-- The actions of the loops over the main work-items and the tail. -/
def workItemActions : List (Action w) :=
  .initIVs :: ((if g.mainLoopLimit.value = 0#w then [] else g.outerActions g.mainActions) ++
    if g.peelValue = 0#w then [] else g.outerActions g.tailActions)

/-- The actions of the loops that a schedule asks for. -/
def regionActions (schedule : BarrierSchedule) : List (Action w) :=
  if schedule = .linear ∨ g.tailIsVectorPredicated then g.linearActions else g.workItemActions

variable {g collective} {fuel : Nat}

/-! ### The loops of a row -/

theorem mainTrips_eq_zero (hV : 1 ≤ g.VF.toNat) (h : g.mainLoopLimit.value = 0#w) :
    g.mainTrips = 0 := by
  rw [mainTrips, h, BitVec.toNat_zero]
  exact div_eq_of_lt (by omega)

theorem mainLoopLimit_ne_zero_of_wrap (hV : 1 ≤ g.VF.toNat)
    (hwrap : 2 ^ w ≤ g.mainTrips * g.VF.toNat) : g.mainLoopLimit.value ≠ 0#w := by
  intro hzero
  rw [mainTrips_eq_zero hV hzero, Nat.zero_mul] at hwrap
  exact absurd hwrap (Nat.not_le.2 (Nat.two_pow_pos w))

/-- The last iteration of the main loop is the last one below the limit. -/
theorem mainTrips_bounds (hV : 1 ≤ g.VF.toNat) (h : g.mainLoopLimit.value ≠ 0#w) :
    ∃ n, g.mainTrips = n + 1 ∧ n * g.VF.toNat < g.mainLoopLimit.value.toNat ∧
      g.mainLoopLimit.value.toNat ≤ (n + 1) * g.VF.toNat := by
  have hpos : 1 ≤ g.mainLoopLimit.value.toNat := by
    by_contra hzero
    exact h (BitVec.eq_of_toNat_eq (by rw [BitVec.toNat_zero]; omega))
  have hdiv : g.mainTrips = (g.mainLoopLimit.value.toNat - 1) / g.VF.toNat + 1 := by
    rw [mainTrips, show g.mainLoopLimit.value.toNat + g.VF.toNat - 1 =
      g.mainLoopLimit.value.toNat - 1 + g.VF.toNat by omega, add_div_right _ (by omega)]
  refine ⟨_, hdiv, ?_, ?_⟩
  · have := div_mul_le_self (g.mainLoopLimit.value.toNat - 1) g.VF.toNat
    omega
  · have := lt_div_mul_add (a := g.mainLoopLimit.value.toNat - 1) (b := g.VF.toNat) hV
    rw [succ_mul]
    omega

theorem mainLoop_eq_some (hV : 1 ≤ g.VF.toNat) (h : g.mainLoopLimit.value ≠ 0#w)
    (hwrap : g.mainTrips * g.VF.toNat < 2 ^ w) (hfuel : 2 ^ w ≤ fuel) (dim_2 dim_1 : BitVec w)
    (s : LoopState w M) : g.mainLoop collective fuel dim_2 dim_1 s =
      some ((g.mainActions dim_2 dim_1).foldl (g.perform collective) s) := by
  obtain ⟨n, hn, hlt, hle⟩ := mainTrips_bounds hV h
  rw [hn] at hwrap
  have hfuel : n < fuel := by
    have : n * 1 ≤ n * g.VF.toNat := Nat.mul_le_mul_left n hV
    omega
  have hzero : (0#w).toNat = 0 := BitVec.toNat_zero
  have hbody : ∀ (i : BitVec w) (s : LoopState w M),
      some (g.regionCall collective false dim_2 dim_1 i s) =
        some ([Action.call false dim_2 dim_1 i].foldl (g.perform collective) s) := fun _ _ => rfl
  rw [mainLoop, createLoop_eq_some hbody (n := n) (by omega) (by omega) (by omega) hfuel]
  simp only [loopTurns, turns, iterate_add_zero, mainActions, hn]
  rw [map_eq_flatMap]

theorem tailLoop_eq_some (h : g.peelValue ≠ 0#w) (hp : g.tailIsVectorPredicated = false)
    (hfuel : 2 ^ w ≤ fuel) (dim_2 dim_1 : BitVec w) (s : LoopState w M) :
    g.tailLoop collective fuel dim_2 dim_1 s =
      some ((g.tailActions dim_2 dim_1).foldl (g.perform collective) s) := by
  have hpos : 1 ≤ g.peelValue.toNat := by
    by_contra hzero
    exact h (BitVec.eq_of_toNat_eq (by rw [BitVec.toNat_zero]; omega))
  refine (createLoop_from_zero (fun i => [Action.call true dim_2 dim_1 i]) (g.perform collective)
    (fun _ _ => rfl) hpos hfuel).trans ?_
  rw [tailActions, tailTrips, hp, if_neg Bool.false_ne_true, map_eq_flatMap]

theorem outerLoops_eq_some (hsize : ∀ i, 1 ≤ (g.localSizeDim i).value.toNat)
    (hfuel : 2 ^ w ≤ fuel) {row : BitVec w → BitVec w → LoopState w M → Option (LoopState w M)}
    (rowActions : BitVec w → BitVec w → List (Action w))
    (hrow : ∀ dim_2 dim_1 s,
      row dim_2 dim_1 s = some ((rowActions dim_2 dim_1).foldl (g.perform collective) s))
    (s : LoopState w M) : g.outerLoops fuel row s =
      some ((g.outerActions rowActions).foldl (g.perform collective) s) := by
  apply createLoop_from_zero (fun z => .setLocalId 2 z ::
    (List.range (g.localSizeDim 1).value.toNat).flatMap fun y =>
      .setLocalId 1 (BitVec.ofNat w y) :: rowActions z (BitVec.ofNat w y))
    (g.perform collective) _ (hsize 2) hfuel
  intro z s
  apply createLoop_from_zero (fun y => .setLocalId 1 y :: rowActions z y) (g.perform collective) _
    (hsize 1) hfuel
  intro y s
  exact hrow z y _

theorem mainTrips_mul_lt (hV : 1 ≤ g.VF.toNat)
    (h : g.mainLoopLimit.value.toNat = 0 ∨ g.VF.toNat ∣ g.mainLoopLimit.value.toNat ∨
      g.mainLoopLimit.value.toNat ≤ g.VF.toNat ∨
      g.mainLoopLimit.value.toNat + g.VF.toNat ≤ 2 ^ w) :
    g.mainTrips * g.VF.toNat < 2 ^ w := by
  have hVF := g.VF.isLt
  by_cases hzero : g.mainLoopLimit.value = 0#w
  · rw [mainTrips_eq_zero hV hzero, Nat.zero_mul]
    exact Nat.two_pow_pos w
  · obtain ⟨n, hn, hlt, hle⟩ := mainTrips_bounds hV hzero
    rw [hn, succ_mul]
    obtain h | ⟨q, hq⟩ | h | h := h
    · exact absurd (BitVec.eq_of_toNat_eq (by rw [h, BitVec.toNat_zero])) hzero
    · rw [hq, Nat.mul_comm] at hlt
      have := Nat.mul_le_mul_left g.VF.toNat (Nat.lt_of_mul_lt_mul_left hlt)
      rw [mul_succ, Nat.mul_comm] at this
      omega
    · have hn0 : n = 0 := by
        by_contra hne
        have := Nat.mul_le_mul_right g.VF.toNat (one_le_iff_ne_zero.2 hne)
        omega
      rw [hn0, Nat.zero_mul, Nat.zero_add]
      exact hVF
    · omega

/-! ### The blocks -/

/-- A predicated tail has no exit to branch to: the remainder is a constant, and it is not zero. -/
def NullExit (g : ScheduleGenerator w) : Prop :=
  g.tailIsVectorPredicated ∧ g.peel.any (·.isConstant) ∧ g.peelValue ≠ 0#w

instance (g : ScheduleGenerator w) : Decidable g.NullExit := inferInstanceAs (Decidable (_ ∧ _ ∧ _))

theorem mainExitBB_isSome : g.mainExitBB.isSome := by
  unfold mainExitBB mainBlocks
  split_ifs <;> rfl

variable {s s' : LoopState w M} {schedule : BarrierSchedule}
  {loop : LoopState w M → Option (LoopState w M)} (dim_2 dim_1 : BitVec w)

theorem run_mainBlocks (hmain : g.emitTail = false → g.mainLoopLimit.value ≠ 0#w)
    {absent : LoopState w M} :
    g.mainBlocks.run g.mainLoopLimit.value absent loop s =
      if g.SkipsMain then some absent
      else if g.mainLoopLimit.value = 0#w then some s else loop s := by
  by_cases htail : g.emitTail = true
  · by_cases hconst : g.mainLoopLimit.isConstant = true
    · by_cases hzero : g.mainLoopLimit.value = 0#w <;>
        simp [mainBlocks, SkipsMain, LoopBlocks.run, htail, hconst, hzero]
    · simp [mainBlocks, SkipsMain, LoopBlocks.run, htail, hconst]
  · have := hmain (by simpa using htail)
    simp [mainBlocks, SkipsMain, LoopBlocks.run, htail, this]

theorem run_tailBlocks : g.tailBlocks.run g.peelValue s loop s =
      if g.peelValue = 0#w then some s else loop s := by
  obtain ⟨exit, hexit⟩ := isSome_iff_exists.1 g.mainExitBB_isSome
  unfold tailBlocks peelValue
  cases g.peel with
  | none => simp [LoopBlocks.run]
  | some peel =>
    cases hconst : peel.isConstant with
    | false => simp [LoopBlocks.run, hconst]
    | true => by_cases hzero : peel.value = 0#w <;> simp [LoopBlocks.run, hconst, hzero, hexit]

theorem tailActions_eq_nil (h : g.peelValue = 0#w) (dim_2 dim_1 : BitVec w) :
    g.tailActions dim_2 dim_1 = [] := by
  simp [tailActions, tailTrips, h]

theorem tailExitBB_isSome : g.tailExitBB.isSome := by
  have hexit := g.mainExitBB_isSome
  unfold tailExitBB tailBlocks
  cases g.peel with
  | none => exact hexit
  | some =>
    dsimp only
    split_ifs
    · exact hexit
    · obtain ⟨exit, hexit⟩ := isSome_iff_exists.1 hexit
      rw [hexit]
      rfl
    · rfl

theorem linearTailExitBB_isSome_iff : g.linearTailExitBB.isSome ↔ ¬g.NullExit := by
  obtain ⟨exit, hexit⟩ := isSome_iff_exists.1 g.mainExitBB_isSome
  unfold linearTailExitBB NullExit tailBlocks peelValue
  cases g.peel with
  | none => simp [hexit]
  | some peel =>
    cases hp : g.tailIsVectorPredicated <;> cases hconst : peel.isConstant <;>
      by_cases hzero : peel.value = 0#w <;> simp [hexit, hconst, hzero]

/-- The sizes and the factor are positive, and the main loop ends before its index wraps. -/
structure CountsUp (g : ScheduleGenerator w) : Prop where
  size : ∀ i, 1 ≤ (g.localSizeDim i).value.toNat
  factor : 1 ≤ g.VF.toNat
  main : g.emitTail = false → g.mainLoopLimit.value ≠ 0#w
  wrap : g.mainTrips * g.VF.toNat < 2 ^ w

section Runs

variable (hg : g.CountsUp)
include hg

theorem linearRow_eq_some (hfuel : 2 ^ w ≤ fuel) (dim_2 dim_1 : BitVec w) (s : LoopState w M) :
    g.linearRow collective fuel dim_2 dim_1 s =
      some ((g.linearRowActions dim_2 dim_1).foldl (g.perform collective) s) := by
  have htail : ∀ s : LoopState w M, g.tailBlocks.run g.peelValue s (fun s =>
      if g.tailIsVectorPredicated then some (g.regionCall collective true dim_2 dim_1 0#w s)
      else g.tailLoop collective fuel dim_2 dim_1 s) s =
      some ((g.tailActions dim_2 dim_1).foldl (g.perform collective) s) := by
    intro s
    rw [run_tailBlocks]
    by_cases hzero : g.peelValue = 0#w
    · rw [if_pos hzero, tailActions_eq_nil hzero]
      rfl
    · rw [if_neg hzero]
      cases hp : g.tailIsVectorPredicated with
      | false => exact tailLoop_eq_some hzero hp hfuel dim_2 dim_1 s
      | true => simp [tailActions, tailTrips, hp, hzero, perform]
  rw [linearRow, run_mainBlocks hg.main, linearRowActions, foldl_append]
  split
  · exact htail _
  · split
    · rename_i hzero
      rw [mainActions, mainTrips_eq_zero hg.factor hzero]
      exact htail s
    · rename_i hzero
      rw [mainLoop_eq_some hg.factor hzero hg.wrap hfuel]
      exact htail _

theorem makeLinearWorkItemLoops_eq (h : ¬g.NullExit) :
    ∃ code, g.makeLinearWorkItemLoops collective = .ok code ∧
      ∀ fuel ≥ 2 ^ w, ∀ s,
        code fuel s = some (g.linearActions.foldl (g.perform collective) s) := by
  obtain ⟨exit, hexit⟩ := isSome_iff_exists.1 (linearTailExitBB_isSome_iff.2 h)
  refine ⟨_, by simp only [makeLinearWorkItemLoops, hexit]; rfl, fun fuel hfuel s => ?_⟩
  exact outerLoops_eq_some hg.size hfuel g.linearRowActions
    (fun dim_2 dim_1 s => linearRow_eq_some hg hfuel dim_2 dim_1 s) _

theorem makeWorkItemLoops_eq (hp : g.tailIsVectorPredicated = false) :
    ∃ code, g.makeWorkItemLoops collective = .ok code ∧
      ∀ fuel ≥ 2 ^ w, ∀ s,
        code fuel s = some (g.workItemActions.foldl (g.perform collective) s) := by
  obtain ⟨exit, hexit⟩ := isSome_iff_exists.1 g.tailExitBB_isSome
  refine ⟨_, by simp only [makeWorkItemLoops, hexit]; rfl, fun fuel hfuel s => ?_⟩
  have hskip : g.SkipsMain → g.mainLoopLimit.value = 0#w := fun h => h.2.2
  have hmainRun : g.mainBlocks.run g.mainLoopLimit.value (s.initIVs collective)
      (g.outerLoops fuel (g.mainLoop collective fuel)) (s.initIVs collective) =
      some ((if g.mainLoopLimit.value = 0#w then [] else g.outerActions g.mainActions).foldl
        (g.perform collective) (s.initIVs collective)) := by
    rw [run_mainBlocks hg.main]
    by_cases hzero : g.mainLoopLimit.value = 0#w
    · simp [hzero]
    · rw [if_neg (fun h => hzero (hskip h)), if_neg hzero, if_neg hzero]
      exact outerLoops_eq_some hg.size hfuel g.mainActions
        (fun dim_2 dim_1 s => mainLoop_eq_some hg.factor hzero hg.wrap hfuel dim_2 dim_1 s) _
  have htailRun : ∀ s : LoopState w M, g.tailBlocks.run g.peelValue s
      (g.outerLoops fuel (g.tailLoop collective fuel)) s =
      some ((if g.peelValue = 0#w then [] else g.outerActions g.tailActions).foldl
        (g.perform collective) s) := by
    intro s
    rw [run_tailBlocks]
    by_cases hzero : g.peelValue = 0#w
    · simp [hzero]
    · rw [if_neg hzero, if_neg hzero]
      exact outerLoops_eq_some hg.size hfuel g.tailActions
        (fun dim_2 dim_1 s => tailLoop_eq_some hzero hp hfuel dim_2 dim_1 s) s
  rw [hmainRun, workItemActions, foldl_cons, foldl_append]
  exact htailRun _

/-- The loops of a region return behind the actions of its schedule. -/
theorem makeLoops_eq (collective : Collective w M) (schedule : BarrierSchedule)
    (h : ¬g.NullExit) :
    ∃ code, g.makeLoops collective schedule = .ok code ∧
      ∀ fuel ≥ 2 ^ w, ∀ s,
        code fuel s = some ((g.regionActions schedule).foldl (g.perform collective) s) := by
  unfold makeLoops regionActions
  cases hp : g.tailIsVectorPredicated <;> cases schedule <;>
    simp only [Bool.false_eq_true] <;>
    first
    | exact makeWorkItemLoops_eq hg hp
    | exact makeLinearWorkItemLoops_eq hg h

end Runs

/-- Without an exit for the tail no schedule has loops. -/
theorem makeLoops_nullExit (schedule : BarrierSchedule) (h : g.NullExit) :
    g.makeLoops collective schedule = .error .nullBlock := by
  have hnone : g.linearTailExitBB = none := by
    rw [← not_isSome_iff_eq_none, linearTailExitBB_isSome_iff]
    exact not_not.2 h
  have hlinear : g.makeLinearWorkItemLoops collective = .error .nullBlock := by
    simp only [makeLinearWorkItemLoops, hnone]
  cases schedule
  · exact (if_pos h.1).trans hlinear
  · exact (if_pos h.1).trans hlinear
  · exact hlinear

/-- The loops of a region can be built, and they return. -/
def Returns (g : ScheduleGenerator w) (collective : Collective w M) (schedule : BarrierSchedule)
    (s s' : LoopState w M) : Prop :=
  ∃ code, g.makeLoops collective schedule = .ok code ∧ ∀ fuel ≥ 2 ^ w, code fuel s = some s'

theorem returns_iff (hg : g.CountsUp) :
    g.Returns collective schedule s s' ↔
      ¬g.NullExit ∧ s' = (g.regionActions schedule).foldl (g.perform collective) s := by
  constructor
  · rintro ⟨code, hcode, hfuel⟩
    have hnull : ¬g.NullExit := by
      intro hnull
      rw [makeLoops_nullExit schedule hnull] at hcode
      cases hcode
    obtain ⟨code', hcode', hrun⟩ := makeLoops_eq hg collective schedule hnull
    obtain rfl : code = code' := Except.ok.inj (hcode.symm.trans hcode')
    exact ⟨hnull, Option.some.inj ((hfuel _ le_rfl).symm.trans (hrun _ le_rfl s))⟩
  · rintro ⟨hnull, rfl⟩
    obtain ⟨code, hcode, hrun⟩ := makeLoops_eq hg collective schedule hnull
    exact ⟨code, hcode, fun fuel hfuel => hrun fuel hfuel s⟩

/-- Without a tail, every schedule has the loops over the main work-items and no others. -/
theorem makeLoops_of_noTail (collective : Collective w M) (schedule : BarrierSchedule)
    (htail : g.tailInfo = none)
    (hpeel : g.peel = none) (hmain : g.mainLoopLimit.value ≠ 0#w) :
    ∃ code, g.makeLoops collective schedule = .ok code ∧ ∀ fuel s,
      code fuel s = g.outerLoops fuel (g.mainLoop collective fuel) (s.initIVs collective) := by
  have hp : g.tailIsVectorPredicated = false := by simp [tailIsVectorPredicated, htail]
  have hnull : ¬g.NullExit := fun h => Bool.false_ne_true (hp.symm.trans h.1)
  have hzero : g.peelValue = 0#w := by simp [peelValue, hpeel]
  have hskip : ¬g.SkipsMain := fun h => hmain h.2.2
  have hworkItem : ∃ code, g.makeWorkItemLoops collective = .ok code ∧ ∀ fuel s,
      code fuel s = g.outerLoops fuel (g.mainLoop collective fuel) (s.initIVs collective) := by
    obtain ⟨exit, hexit⟩ := isSome_iff_exists.1 g.tailExitBB_isSome
    refine ⟨_, by simp only [makeWorkItemLoops, hexit]; rfl, fun fuel s => ?_⟩
    simp only [run_mainBlocks fun _ => hmain, run_tailBlocks, if_neg hskip, if_neg hmain,
      if_pos hzero]
    exact bind_pure _
  have hlinear : ∃ code, g.makeLinearWorkItemLoops collective = .ok code ∧ ∀ fuel s,
      code fuel s = g.outerLoops fuel (g.mainLoop collective fuel) (s.initIVs collective) := by
    obtain ⟨exit, hexit⟩ := isSome_iff_exists.1 (linearTailExitBB_isSome_iff.2 hnull)
    refine ⟨_, by simp only [makeLinearWorkItemLoops, hexit]; rfl, fun fuel s => ?_⟩
    have hrow : g.linearRow collective fuel = g.mainLoop collective fuel := by
      funext dim_2 dim_1 s
      simp only [linearRow, run_mainBlocks fun _ => hmain, run_tailBlocks, if_neg hskip, if_neg hmain,
        if_pos hzero]
      exact bind_pure _
    rw [hrow]
  unfold makeLoops
  cases schedule
  · simpa [hp] using hworkItem
  · simpa [hp] using hworkItem
  · exact hlinear

theorem outerLoops_of_returns (htail : g.tailInfo = none)
    (hpeel : g.peel = none) (hmain : g.mainLoopLimit.value ≠ 0#w)
    (h : g.Returns collective schedule s s') :
    g.outerLoops (2 ^ w) (g.mainLoop collective (2 ^ w)) (s.initIVs collective) = some s' := by
  obtain ⟨code, hcode, hfuel⟩ := h
  obtain ⟨code', hcode', hrun⟩ := makeLoops_of_noTail collective schedule htail hpeel hmain
  obtain rfl : code = code' := Except.ok.inj (hcode.symm.trans hcode')
  exact (hrun _ _).symm.trans (hfuel _ le_rfl)

/-! ### Invariants of a run -/

theorem ne_initIVs_of_mem_outerActions {row : BitVec w → BitVec w → List (Action w)}
    (hrow : ∀ dim_2 dim_1, ∀ a ∈ row dim_2 dim_1, a ≠ .initIVs) :
    ∀ a ∈ g.outerActions row, a ≠ .initIVs := by
  intro a ha
  simp only [outerActions, mem_flatMap, mem_cons] at ha
  obtain ⟨z, -, rfl | ⟨y, -, rfl | ha⟩⟩ := ha
  · simp
  · simp
  · exact hrow _ _ a ha

theorem ne_initIVs_of_mem_mainActions :
    ∀ a ∈ g.mainActions dim_2 dim_1, a ≠ .initIVs := by
  intro a ha
  obtain ⟨k, -, rfl⟩ := mem_map.1 ha
  simp

theorem ne_initIVs_of_mem_tailActions :
    ∀ a ∈ g.tailActions dim_2 dim_1, a ≠ .initIVs := by
  intro a ha
  obtain ⟨k, -, rfl⟩ := mem_map.1 ha
  simp

/-- The loops start the induction variables again in every row, and there is more than one row. -/
def Restarts (g : ScheduleGenerator w) (schedule : BarrierSchedule) : Prop :=
  (schedule = .linear ∨ g.tailIsVectorPredicated) ∧ g.SkipsMain ∧
    1 < (g.localSizeDim 1).value.toNat * (g.localSizeDim 2).value.toNat

instance (g : ScheduleGenerator w) (schedule : BarrierSchedule) : Decidable (g.Restarts schedule) :=
  inferInstanceAs (Decidable (_ ∧ _ ∧ _))

/-- Where the loops do not restart, they initialise the induction variables before the first call
only. -/
theorem exists_regionActions (hsize : ∀ i, 1 ≤ (g.localSizeDim i).value.toNat)
    (h : ¬g.Restarts schedule) :
    ∃ before after, g.regionActions schedule = .initIVs :: before ++ after ∧
      (∀ a ∈ before, a = .initIVs ∨ ∃ dim value, a = .setLocalId dim value) ∧
      ∀ a ∈ after, a ≠ .initIVs := by
  unfold regionActions
  split
  · rename_i hlinear
    by_cases hskip : g.SkipsMain
    · -- one row, which starts the induction variables again before its first call
      have hrows : (g.localSizeDim 1).value.toNat * (g.localSizeDim 2).value.toNat ≤ 1 :=
        Nat.not_lt.1 fun hlt => h ⟨hlinear, hskip, hlt⟩
      have h1 := hsize 1
      have h2 := hsize 2
      have hy : (g.localSizeDim 1).value.toNat = 1 := by
        have := Nat.le_mul_of_pos_right (g.localSizeDim 1).value.toNat h2
        omega
      have hz : (g.localSizeDim 2).value.toNat = 1 := by
        have := Nat.le_mul_of_pos_left (g.localSizeDim 2).value.toNat h1
        omega
      refine ⟨[.setLocalId 2 0#w, .setLocalId 1 0#w, .initIVs], g.tailActions 0#w 0#w, ?_, ?_,
        ne_initIVs_of_mem_tailActions _ _⟩
      · simp [linearActions, outerActions, hy, hz, linearRowActions, hskip]
      · intro a ha
        simp only [mem_cons, not_mem_nil, or_false] at ha
        obtain rfl | rfl | rfl := ha
        iterate 2 exact .inr ⟨_, _, rfl⟩
        · exact .inl rfl
    · refine ⟨[], g.outerActions g.linearRowActions, rfl, by simp,
        ne_initIVs_of_mem_outerActions fun dim_2 dim_1 a ha => ?_⟩
      rw [linearRowActions, if_neg hskip] at ha
      obtain ha | ha := mem_append.1 ha
      · exact ne_initIVs_of_mem_mainActions dim_2 dim_1 a ha
      · exact ne_initIVs_of_mem_tailActions dim_2 dim_1 a ha
  · refine ⟨[], _, rfl, by simp, fun a ha => ?_⟩
    obtain ha | ha := mem_append.1 ha
    · split at ha
      · cases ha
      · exact ne_initIVs_of_mem_outerActions ne_initIVs_of_mem_mainActions a ha
    · split at ha
      · cases ha
      · exact ne_initIVs_of_mem_outerActions ne_initIVs_of_mem_tailActions a ha

section Invariant

variable {P : LoopState w M → Prop}
  (hset : ∀ {s} (dim : Fin 3) (value : BitVec w), P s → P (s.setLocalId dim value))
  (hcall : ∀ {s} (tail : Bool) (dim_2 dim_1 dim_0 : BitVec w), P s →
    P (g.regionCall collective tail dim_2 dim_1 dim_0 s))
include hset hcall

theorem invariant_foldl {actions : List (Action w)} (hactions : ∀ a ∈ actions, a ≠ .initIVs)
    (h : P s) : P (actions.foldl (g.perform collective) s) := by
  induction actions generalizing s with
  | nil => exact h
  | cons action actions ih =>
    apply ih (fun a ha => hactions a (mem_cons_of_mem _ ha))
    cases action with
    | setLocalId dim value => exact hset dim value h
    | call tail dim_2 dim_1 dim_0 => exact hcall tail dim_2 dim_1 dim_0 h
    | initIVs => exact absurd rfl (hactions _ mem_cons_self)

/-- What the calls of a region keep holds behind its loops, if it holds before the first call and the
loops do not restart. -/
theorem invariant_regionActions (hinit : ∀ {s : LoopState w M}, s.calls = [] →
      P (s.initIVs collective))
    (hsize : ∀ i, 1 ≤ (g.localSizeDim i).value.toNat)
    (h : ¬g.Restarts schedule) (hs : s.calls = []) :
    P ((g.regionActions schedule).foldl (g.perform collective) s) := by
  obtain ⟨before, after, hactions, hbefore, hafter⟩ := exists_regionActions hsize h
  rw [hactions, cons_append, foldl_cons, foldl_append]
  apply invariant_foldl hset hcall hafter
  have hboth : ∀ {s : LoopState w M}, s.calls = [] ∧ P s →
      P (before.foldl (g.perform collective) s) := by
    clear hactions
    induction before with
    | nil => exact fun h => h.2
    | cons a before ih =>
      intro s ⟨hs, hP⟩
      apply ih (fun a ha => hbefore a (mem_cons_of_mem _ ha))
      obtain rfl | ⟨dim, value, rfl⟩ := hbefore a mem_cons_self
      · exact ⟨hs, hinit hs⟩
      · exact ⟨hs, hset dim value hP⟩
  exact hboth ⟨hs, hinit hs⟩

end Invariant

/-- Loops that restart repeat in every row what the tail does with fresh induction variables. -/
theorem not_nodup_of_restarts {β : Type} [DecidableEq β] (out : LoopState w M → List β) {v : List β}
    {b : β} (hb : b ∈ v)
    (hset : ∀ {s} (dim : Fin 3) (value : BitVec w), out (s.setLocalId dim value) = out s)
    (htail : ∀ {s} (dim_2 dim_1 : BitVec w),
      out ((g.tailActions dim_2 dim_1).foldl (g.perform collective) (s.initIVs collective)) =
        out s ++ v)
    (h : g.Restarts schedule) (s : LoopState w M) :
    ¬(out ((g.regionActions schedule).foldl (g.perform collective) s)).Nodup := by
  obtain ⟨hlinear, hskip, hrows⟩ := h
  have hrow : ∀ (dim_2 dim_1 : BitVec w) (s : LoopState w M),
      out ((g.linearRowActions dim_2 dim_1).foldl (g.perform collective) s) = out s ++ v := by
    intro dim_2 dim_1 s
    rw [linearRowActions, if_pos hskip]
    exact htail dim_2 dim_1
  have houter : out ((g.outerActions g.linearRowActions).foldl (g.perform collective)
      (s.initIVs collective)) = out (s.initIVs collective) ++
        (List.range (g.localSizeDim 2).value.toNat).flatMap fun _ =>
          (List.range (g.localSizeDim 1).value.toNat).flatMap fun _ => v := by
    refine (foldl_flatMap_appends (fun _ : LoopState w M => True) out ?_ trivial).2
    intro z _ s _
    refine ⟨trivial, ?_⟩
    rw [← hset (s := s) 2 (BitVec.ofNat w z)]
    refine (foldl_flatMap_appends (fun _ : LoopState w M => True) out ?_ trivial).2
    intro y _ s _
    refine ⟨trivial, ?_⟩
    rw [← hset (s := s) 1 (BitVec.ofNat w y)]
    exact hrow _ _ _
  intro hnodup
  rw [regionActions, if_pos hlinear] at hnodup
  change (out ((g.outerActions g.linearRowActions).foldl _ (s.initIVs collective))).Nodup at hnodup
  rw [houter] at hnodup
  -- an element of `v` occurs once in every row
  have hcount := nodup_iff_count_le_one.1 (nodup_append.1 hnodup).2.1 b
  have hfirst : 1 ≤ v.count b := one_le_count_iff.2 hb
  simp only [count_flatMap, Function.comp_def, map_const', sum_replicate_nat,
    length_range] at hcount
  have hle : (g.localSizeDim 2).value.toNat * ((g.localSizeDim 1).value.toNat * 1) ≤
      (g.localSizeDim 2).value.toNat * ((g.localSizeDim 1).value.toNat * v.count b) :=
    Nat.mul_le_mul_left _ (Nat.mul_le_mul_left _ hfirst)
  rw [Nat.mul_one, Nat.mul_comm] at hle
  omega

end ScheduleGenerator

/-! ### The schedule of a wrapper -/

section Wrapper

variable {forceNoTail : Bool} {kernel : Kernel w} {launch : Launch w}
variable {tail : VectorizationInfo w}

/-- A predicated kernel gets no tail. -/
theorem mainTailPair_of_some (h : (mainTailPair forceNoTail kernel).2 = some tail) :
    (mainTailPair forceNoTail kernel).1.isVectorPredicated = false := by
  unfold mainTailPair at h ⊢
  split at h
  · cases h
  · split at h
    · cases h
    · rename_i hcond
      simp only [Bool.or_eq_true, not_or] at hcond
      simp [hcond]

/-- Where a tail could be had, only a kernel that fits the local size goes without. -/
theorem mainTailPair_of_none (havail : ∀ link, kernel.veczToOrig = some link → link.1 = true)
    (h : (mainTailPair false kernel).2 = none)
    (hp : (mainTailPair false kernel).1.isVectorPredicated = false) :
    (mainTailPair false kernel).1 = scalarTailInfo ∨
      fitsLocalSize kernel (mainTailPair false kernel).1 = true := by
  unfold mainTailPair at h hp ⊢
  split at h
  · exact .inl rfl
  · rename_i tailFunc mainInfo hvecz
    split at h
    · rename_i hcond
      have htail : tailFunc = true := havail _ hvecz
      rw [hvecz] at hp
      simp only [if_pos hcond] at hp ⊢
      simp only [htail, hp] at hcond
      exact .inr hcond
    · cases h

theorem wrapperSchedule_of_none (launch : Launch w)
    (h : (mainTailPair forceNoTail kernel).2 = none) :
    let g := wrapperSchedule forceNoTail kernel launch
    g.peel = none ∧ g.mainLoopLimit = localSizeDim kernel launch 0 := by
  simp [wrapperSchedule, scheduleGenerator, h]

theorem wrapperSchedule_of_some (launch : Launch w)
    (h : (mainTailPair forceNoTail kernel).2 = some tail) :
    let g := wrapperSchedule forceNoTail kernel launch
    let isConstant := (localSizeDim kernel launch 0).isConstant &&
      !(mainTailPair forceNoTail kernel).1.vf.isScalable
    g.peel = some ⟨isConstant, (g.localSizeDim 0).value.srem g.VF⟩ ∧
      g.mainLoopLimit =
        ⟨isConstant, (g.localSizeDim 0).value - (g.localSizeDim 0).value.srem g.VF⟩ := by
  simp [wrapperSchedule, scheduleGenerator, h]

/-- With a tail the index of the main loop never wraps. -/
theorem mainTrips_mul_lt_of_some (h : (mainTailPair forceNoTail kernel).2 = some tail) :
    let g := wrapperSchedule forceNoTail kernel launch
    1 ≤ g.VF.toNat → g.mainTrips * g.VF.toNat < 2 ^ w := by
  intro g hV
  apply ScheduleGenerator.mainTrips_mul_lt hV
  rw [(wrapperSchedule_of_some launch h).2]
  exact toNat_sub_srem _ _ hV

theorem tailInfo_of_emitTail (h : (wrapperSchedule forceNoTail kernel launch).emitTail = false) :
    (mainTailPair forceNoTail kernel).2 = none := by
  simpa [ScheduleGenerator.emitTail, wrapperSchedule, scheduleGenerator] using h

theorem mainTrips_mul_lt_of_noTail :
    let g := wrapperSchedule forceNoTail kernel launch
    1 ≤ g.VF.toNat → (g.emitTail = false → g.mainTrips * g.VF.toNat < 2 ^ w) →
      g.mainTrips * g.VF.toNat < 2 ^ w := by
  intro g hV h
  cases htail : (mainTailPair forceNoTail kernel).2 with
  | none =>
    apply h
    show (mainTailPair forceNoTail kernel).2.isSome = false
    rw [htail, isSome_none]
  | some => exact mainTrips_mul_lt_of_some htail hV

/-- Without a tail there is a main loop. -/
theorem mainLoopLimit_ne_zero :
    let g := wrapperSchedule forceNoTail kernel launch
    (∀ i, 1 ≤ (g.localSizeDim i).value.toNat) → g.emitTail = false →
      g.mainLoopLimit.value ≠ 0#w := by
  intro g hsize h
  rw [(wrapperSchedule_of_none launch (tailInfo_of_emitTail h)).2]
  intro hzero
  have := hsize 0
  rw [show g.localSizeDim 0 = localSizeDim kernel launch 0 from rfl, hzero,
    BitVec.toNat_zero] at this
  omega

theorem countsUp_wrapper (hsize : ∀ i, 1 ≤ (localSizeDim kernel launch i).value.toNat) :
    let g := wrapperSchedule forceNoTail kernel launch
    1 ≤ g.VF.toNat → (g.emitTail = false → g.mainTrips * g.VF.toNat < 2 ^ w) → g.CountsUp :=
  fun hV h => ⟨hsize, hV, mainLoopLimit_ne_zero hsize, mainTrips_mul_lt_of_noTail hV h⟩

/-- Without a main loop there is work for the tail. -/
theorem one_le_tailTrips (hsize : 1 ≤ (localSizeDim kernel launch 0).value.toNat) :
    let g := wrapperSchedule forceNoTail kernel launch
    g.SkipsMain → 1 ≤ g.tailTrips := by
  rintro g ⟨hemit, -, hzero⟩
  obtain ⟨tail, htail⟩ := isSome_iff_exists.1 (show _ from hemit)
  have hpeel : g.peelValue.toNat = (localSizeDim kernel launch 0).value.toNat := by
    obtain ⟨hpeel, hlimit⟩ := wrapperSchedule_of_some launch htail
    rw [hlimit] at hzero
    rw [ScheduleGenerator.peelValue, hpeel]
    exact congrArg BitVec.toNat (sub_eq_zero.1 hzero).symm
  unfold ScheduleGenerator.tailTrips
  split
  · rw [if_neg]
    intro hz
    rw [hz, BitVec.toNat_zero] at hpeel
    omega
  · omega

end Wrapper

end ConstructionKit.WorkItemLoops
