import ConstructionKit.Compiler.PassFunctions
import ConstructionKit.ProofKit.Unique
import Mathlib.Data.Fin.VecNotation
import Mathlib.Tactic.FinCases

/-! The slices of an ND-range on the host: the entry hook that `AddEntryHookPass` wraps around a
kernel, as it runs, and the slices that `commandNDRange` hands to the thread pool.  The slices cover
the groups of the ND-range, each of them once. -/

namespace ConstructionKit.Host

open ProofKit Compiler List BitVec Nat

/-! ### The entry hook -/

/-- The id of a work-group, or the number of work-groups in each dimension. -/
abbrev GroupId := Fin 3 → BitVec 64

/-- What the entry hook changes: `group_id` of the `MiniWGInfo` struct, and the ids with which the
wrapped kernel has been called. -/
structure HookState where
  groupId : GroupId
  visited : List GroupId

/-- A store to `group_id`, and the call of the wrapped kernel. -/
inductive HookAction where
  | storeGroupId (dim : Fin 3) (value : BitVec 64)
  | callWrapped

def HookState.perform (s : HookState) : HookAction → HookState
  | .storeGroupId dim value => { s with groupId := Function.update s.groupId dim value }
  | .callWrapped => { s with visited := s.visited ++ [s.groupId] }

/-- `g + t` for `g` groups in the first dimension and `t` slices. -/
def numGroupsRoundedUp (numGroupsX totalSlices : BitVec 64) : BitVec 64 := numGroupsX + totalSlices

def sliceSize (numGroupsX totalSlices : BitVec 64) : BitVec 64 :=
  numGroupsRoundedUp numGroupsX totalSlices / totalSlices

def sliceStart (numGroupsX totalSlices slice : BitVec 64) : BitVec 64 :=
  sliceSize numGroupsX totalSlices * slice

def sliceEnd (numGroupsX totalSlices slice : BitVec 64) : BitVec 64 :=
  sliceStart numGroupsX totalSlices slice + sliceSize numGroupsX totalSlices

def clampedSliceEnd (numGroupsX totalSlices slice : BitVec 64) : BitVec 64 :=
  if (sliceEnd numGroupsX totalSlices slice).ult numGroupsX then
    sliceEnd numGroupsX totalSlices slice
  else numGroupsX

/-- A run of the entry hook on one slice. -/
def entryHook (fuel : Nat) (numGroups : GroupId) (totalSlices slice : BitVec 64) (s : HookState) :
    Option HookState :=
  let start := sliceStart (numGroups 0) totalSlices slice
  let stop := clampedSliceEnd (numGroups 0) totalSlices slice
  -- the branch to `early-exit`: the loops below would run once even for an empty slice
  if start.ult stop then
    createLoop fuel 0#64 (numGroups 2) defaultInc (fun z s =>
      createLoop fuel 0#64 (numGroups 1) defaultInc (fun y s =>
        createLoop fuel start stop defaultInc (fun x s =>
          some ((s.perform (.storeGroupId 0 x)).perform .callWrapped))
          (s.perform (.storeGroupId 1 y)))
        (s.perform (.storeGroupId 2 z))) s
  else some s

/-- The groups that the slices of an ND-range visit.  `enqueue_range` hands the slices out with the
indices from zero on; each of them starts with a `MiniWGInfo` struct of its own. -/
def commandNDRange (fuel : Nat) (numGroups : GroupId) (slices : BitVec 64)
    (miniWGInfo : BitVec 64 → GroupId) : Option (List GroupId) :=
  let hook (index : Nat) : Option (List GroupId) :=
    (entryHook fuel numGroups slices (BitVec.ofNat 64 index)
      ⟨miniWGInfo (BitVec.ofNat 64 index), []⟩).map (·.visited)
  ((List.range slices.toNat).mapM hook).map List.flatten

/-! ### What a slice visits -/

/-- What the loops of the entry hook do between two bounds in the first dimension. -/
def hookActions (numGroups : GroupId) (start stop : BitVec 64) : List HookAction :=
  (List.range (numGroups 2).toNat).flatMap fun z => .storeGroupId 2 (BitVec.ofNat 64 z) ::
    (List.range (numGroups 1).toNat).flatMap fun y => .storeGroupId 1 (BitVec.ofNat 64 y) ::
      (List.range (stop.toNat - start.toNat)).flatMap fun k =>
        [.storeGroupId 0 (start + BitVec.ofNat 64 k), .callWrapped]

/-- The groups between two bounds in the first dimension, in the order of the loops. -/
def groupsBetween (numGroups : GroupId) (start stop : BitVec 64) : List GroupId :=
  (List.range (numGroups 2).toNat).flatMap fun z =>
    (List.range (numGroups 1).toNat).flatMap fun y =>
      (List.range (stop.toNat - start.toNat)).flatMap fun k =>
        [![start + BitVec.ofNat 64 k, BitVec.ofNat 64 y, BitVec.ofNat 64 z]]

variable {numGroups : GroupId} {totalSlices slice start stop : BitVec 64} {fuel : Nat}

/-- The innermost loop visits a row of groups, with the stored coordinates of the loops around it. -/
theorem visited_row (start stop y z : BitVec 64) {s : HookState} (hy : s.groupId 1 = y) (hz : s.groupId 2 = z) :
    let row := (List.range (stop.toNat - start.toNat)).flatMap fun k =>
      [.storeGroupId 0 (start + BitVec.ofNat 64 k), .callWrapped]
    ((row.foldl HookState.perform s).groupId 1 = y ∧ (row.foldl HookState.perform s).groupId 2 = z) ∧
      (row.foldl HookState.perform s).visited = s.visited ++
        (List.range (stop.toNat - start.toNat)).flatMap fun k => [![start + BitVec.ofNat 64 k, y, z]] := by
  apply foldl_flatMap_appends (fun s => s.groupId 1 = y ∧ s.groupId 2 = z) HookState.visited _ ⟨hy, hz⟩
  rintro k - s ⟨hy, hz⟩
  have hid : Function.update s.groupId 0 (start + BitVec.ofNat 64 k) =
      ![start + BitVec.ofNat 64 k, y, z] := by
    funext i
    fin_cases i <;> simp [hy, hz]
  simp [HookState.perform, hid]

theorem visited_hookActions (s : HookState) :
    ((hookActions numGroups start stop).foldl HookState.perform s).visited =
      s.visited ++ groupsBetween numGroups start stop := by
  refine (foldl_flatMap_appends (fun _ => True) HookState.visited ?_ trivial).2
  intro z _ s _
  rw [foldl_cons]
  -- the loop over `y` leaves the stored `z` alone
  refine ⟨trivial, (foldl_flatMap_appends (fun s => s.groupId 2 = BitVec.ofNat 64 z)
    HookState.visited ?_ (by simp [HookState.perform])).2⟩
  intro y _ s hz
  obtain ⟨hkeep, hrow⟩ := visited_row start stop (BitVec.ofNat 64 y) (BitVec.ofNat 64 z)
    (s := s.perform (.storeGroupId 1 (BitVec.ofNat 64 y)))
    (by simp [HookState.perform]) (by simp [HookState.perform, hz])
  exact ⟨hkeep.2, hrow⟩

theorem entryHook_eq_some (hpos : ∀ i, 1 ≤ (numGroups i).toNat) (hfuel : 2 ^ 64 ≤ fuel)
    (s : HookState) (hlt : (sliceStart (numGroups 0) totalSlices slice).toNat <
      (clampedSliceEnd (numGroups 0) totalSlices slice).toNat) :
    entryHook fuel numGroups totalSlices slice s =
      some ((hookActions numGroups (sliceStart (numGroups 0) totalSlices slice)
        (clampedSliceEnd (numGroups 0) totalSlices slice)).foldl HookState.perform s) := by
  rw [entryHook, if_pos (by simpa [BitVec.ult] using hlt)]
  -- the three loops from the inside out
  apply createLoop_from_zero (fun z => .storeGroupId 2 z ::
    (List.range (numGroups 1).toNat).flatMap fun y => .storeGroupId 1 (BitVec.ofNat 64 y) :: _)
    HookState.perform _ (hpos 2) hfuel
  intro z s
  apply createLoop_from_zero (fun y => .storeGroupId 1 y :: _) HookState.perform _ (hpos 1) hfuel
  intro y s
  exact createLoop_ascending (fun x => [.storeGroupId 0 x, .callWrapped]) HookState.perform
    (fun x s => rfl) hlt hfuel

theorem exists_entryHook (numGroups : GroupId) (totalSlices slice : BitVec 64) (s : HookState)
    (hpos : ∀ i, 1 ≤ (numGroups i).toNat) (hfuel : 2 ^ 64 ≤ fuel) :
    ∃ s', entryHook fuel numGroups totalSlices slice s = some s' ∧
      s'.visited = s.visited ++ groupsBetween numGroups (sliceStart (numGroups 0) totalSlices slice)
        (clampedSliceEnd (numGroups 0) totalSlices slice) := by
  by_cases hlt : (sliceStart (numGroups 0) totalSlices slice).toNat <
      (clampedSliceEnd (numGroups 0) totalSlices slice).toNat
  · exact ⟨_, entryHook_eq_some hpos hfuel s hlt, visited_hookActions s⟩
  · refine ⟨s, ?_, ?_⟩
    · rw [entryHook, if_neg (by simpa [BitVec.ult] using hlt)]
    · simp [groupsBetween, Nat.sub_eq_zero_of_le (Nat.not_lt.1 hlt)]

theorem mem_groupsBetween {p : GroupId} :
    p ∈ groupsBetween numGroups start stop ↔
      (start.toNat ≤ (p 0).toNat ∧ (p 0).toNat < stop.toNat) ∧ (p 1).toNat < (numGroups 1).toNat ∧
        (p 2).toNat < (numGroups 2).toNat := by
  simp only [groupsBetween, mem_flatMap, List.mem_range, mem_singleton]
  constructor
  · rintro ⟨z, hz, y, hy, k, hk, rfl⟩
    have hx : (start + BitVec.ofNat 64 k).toNat = start.toNat + k := by
      rw [toNat_add, toNat_ofNat, mod_eq_of_lt (by omega : k < 2 ^ 64),
        mod_eq_of_lt (by omega)]
    refine ⟨?_, ?_, ?_⟩
    · show start.toNat ≤ (start + BitVec.ofNat 64 k).toNat ∧ (start + BitVec.ofNat 64 k).toNat < _
      omega
    · show (BitVec.ofNat 64 y).toNat < _
      rwa [toNat_ofNat, mod_eq_of_lt (by omega)]
    · show (BitVec.ofNat 64 z).toNat < _
      rwa [toNat_ofNat, mod_eq_of_lt (by omega)]
  · rintro ⟨⟨hlo, hhi⟩, hy, hz⟩
    refine ⟨(p 2).toNat, hz, (p 1).toNat, hy, (p 0).toNat - start.toNat, by omega, ?_⟩
    have hx : start + BitVec.ofNat 64 ((p 0).toNat - start.toNat) = p 0 := by
      apply eq_of_toNat_eq
      rw [toNat_add, toNat_ofNat]
      omega
    funext i
    fin_cases i <;> simp [hx]

theorem nodup_groupsBetween : (groupsBetween numGroups start stop).Nodup := by
  refine nodup_flatMap_of_key (fun p => (p 2).toNat) ?_ nodup_range fun z hz =>
    nodup_flatMap_of_key (fun p => (p 1).toNat) ?_ nodup_range fun y hy =>
      nodup_flatMap_of_key (fun p => (p 0).toNat - start.toNat) ?_ nodup_range fun _ _ =>
        nodup_singleton _
  · intro z hz p hp
    simp only [mem_flatMap, List.mem_range, mem_singleton] at hz hp
    obtain ⟨y, -, k, -, rfl⟩ := hp
    show (BitVec.ofNat 64 z).toNat = z
    rw [toNat_ofNat, mod_eq_of_lt (by omega)]
  · intro y hy p hp
    simp only [mem_flatMap, List.mem_range, mem_singleton] at hy hp
    obtain ⟨k, -, rfl⟩ := hp
    show (BitVec.ofNat 64 y).toNat = y
    rw [toNat_ofNat, mod_eq_of_lt (by omega)]
  · intro k hk p hp
    simp only [List.mem_range, mem_singleton] at hk hp
    subst hp
    show (start + BitVec.ofNat 64 k).toNat - start.toNat = k
    rw [toNat_add, toNat_ofNat]
    omega

/-! ### The slices together -/

section Slices

variable {numGroupsX : BitVec 64} (ht : 1 ≤ totalSlices.toNat)
  (hsum : numGroupsX.toNat + totalSlices.toNat < 2 ^ 64)

include hsum in
theorem toNat_sliceSize : (sliceSize numGroupsX totalSlices).toNat =
    (numGroupsX.toNat + totalSlices.toNat) / totalSlices.toNat := by
  rw [sliceSize, numGroupsRoundedUp, toNat_udiv, toNat_add, mod_eq_of_lt hsum]

include ht hsum

theorem sliceSize_pos : 0 < (sliceSize numGroupsX totalSlices).toNat := by
  rw [toNat_sliceSize hsum]
  exact Nat.div_pos (by omega) (by omega)

/-- The slices reach beyond the last group, by no more than one slice. -/
theorem lt_sliceSize_mul : numGroupsX.toNat <
      (sliceSize numGroupsX totalSlices).toNat * totalSlices.toNat ∧
    (sliceSize numGroupsX totalSlices).toNat * totalSlices.toNat ≤
      numGroupsX.toNat + totalSlices.toNat := by
  rw [toNat_sliceSize hsum]
  refine ⟨?_, div_mul_le_self _ _⟩
  have := lt_div_mul_add (a := numGroupsX.toNat + totalSlices.toNat) ht
  omega

/-- Neither the start nor the end of a slice wraps. -/
theorem toNat_sliceStart_sliceEnd (hs : slice.toNat < totalSlices.toNat) :
    (sliceStart numGroupsX totalSlices slice).toNat =
        (sliceSize numGroupsX totalSlices).toNat * slice.toNat ∧
      (sliceEnd numGroupsX totalSlices slice).toNat =
        (sliceSize numGroupsX totalSlices).toNat * slice.toNat +
          (sliceSize numGroupsX totalSlices).toNat := by
  have hbound := (lt_sliceSize_mul ht hsum).2
  have hle : (sliceSize numGroupsX totalSlices).toNat * (slice.toNat + 1) ≤
      (sliceSize numGroupsX totalSlices).toNat * totalSlices.toNat := Nat.mul_le_mul_left _ hs
  rw [Nat.mul_add_one] at hle
  have hstart : (sliceStart numGroupsX totalSlices slice).toNat =
      (sliceSize numGroupsX totalSlices).toNat * slice.toNat := by
    rw [sliceStart, toNat_mul, mod_eq_of_lt (by omega)]
  refine ⟨hstart, ?_⟩
  rw [sliceEnd, toNat_add, hstart, mod_eq_of_lt (by omega)]

/-- The groups of a slice are those whose first coordinate it is responsible for. -/
theorem mem_slice_iff (hs : slice.toNat < totalSlices.toNat) (x : Nat) :
    (sliceStart numGroupsX totalSlices slice).toNat ≤ x ∧
        x < (clampedSliceEnd numGroupsX totalSlices slice).toNat ↔
      x / (sliceSize numGroupsX totalSlices).toNat = slice.toNat ∧ x < numGroupsX.toNat := by
  have hpos := sliceSize_pos ht hsum
  obtain ⟨hstart, hend⟩ := toNat_sliceStart_sliceEnd ht hsum hs
  have hclamp : x < (clampedSliceEnd numGroupsX totalSlices slice).toNat ↔
      x < (sliceEnd numGroupsX totalSlices slice).toNat ∧ x < numGroupsX.toNat := by
    rw [clampedSliceEnd]
    split
    all_goals
      rename_i h
      simp only [BitVec.ult, decide_eq_true_eq] at h
      omega
  rw [hclamp, hstart, hend, Nat.div_eq_iff hpos, Nat.mul_comm]
  omega

end Slices

/-- The groups that slice number `index` visits. -/
def sliceGroups (numGroups : GroupId) (slices : BitVec 64) (index : Nat) : List GroupId :=
  groupsBetween numGroups (sliceStart (numGroups 0) slices (BitVec.ofNat 64 index))
    (clampedSliceEnd (numGroups 0) slices (BitVec.ofNat 64 index))

theorem commandNDRange_eq_some (slices : BitVec 64) (miniWGInfo : BitVec 64 → GroupId)
    (hpos : ∀ i, 1 ≤ (numGroups i).toNat) (hfuel : 2 ^ 64 ≤ fuel) :
    commandNDRange fuel numGroups slices miniWGInfo =
      some ((List.range slices.toNat).flatMap (sliceGroups numGroups slices)) := by
  have hook : ∀ index, (entryHook fuel numGroups slices (BitVec.ofNat 64 index)
      ⟨miniWGInfo (BitVec.ofNat 64 index), []⟩).map (·.visited) =
      pure (sliceGroups numGroups slices index) := by
    intro index
    obtain ⟨s', hs', hvisited⟩ := exists_entryHook numGroups slices (BitVec.ofNat 64 index)
      ⟨miniWGInfo (BitVec.ofNat 64 index), []⟩ hpos hfuel
    rw [hs', Option.map_some, hvisited]
    rfl
  simp only [commandNDRange, hook, mapM_pure]
  rfl

/-- The slices of an ND-range visit every group once, and none of the products behind them wraps. -/
theorem commandNDRange_visits_once (numGroups : GroupId) (slices : BitVec 64)
    (miniWGInfo : BitVec 64 → GroupId) (hpos : ∀ i, 1 ≤ (numGroups i).toNat)
    (ht : 1 ≤ slices.toNat) (hsum : (numGroups 0).toNat + slices.toNat < 2 ^ 64) :
    (∃ visits, (∀ fuel ≥ 2 ^ 64, commandNDRange fuel numGroups slices miniWGInfo = some visits) ∧
        visits.Nodup ∧ ∀ p, p ∈ visits ↔ ∀ i, (p i).toNat < (numGroups i).toNat) ∧
      (numGroupsRoundedUp (numGroups 0) slices).toNat = (numGroups 0).toNat + slices.toNat ∧
      ∀ slice : BitVec 64, slice.toNat < slices.toNat →
        (sliceStart (numGroups 0) slices slice).toNat =
            (sliceSize (numGroups 0) slices).toNat * slice.toNat ∧
          (sliceEnd (numGroups 0) slices slice).toNat =
            (sliceStart (numGroups 0) slices slice).toNat +
              (sliceSize (numGroups 0) slices).toNat := by
  have hindex : ∀ {index}, index < slices.toNat → (BitVec.ofNat 64 index).toNat = index := by
    intro index h
    rw [toNat_ofNat, mod_eq_of_lt (by omega)]
  have hmem : ∀ {index p}, index < slices.toNat → (p ∈ sliceGroups numGroups slices index ↔
      ((p 0).toNat / (sliceSize (numGroups 0) slices).toNat = index ∧
        (p 0).toNat < (numGroups 0).toNat) ∧ (p 1).toNat < (numGroups 1).toNat ∧
        (p 2).toNat < (numGroups 2).toNat) := by
    intro index p h
    rw [sliceGroups, mem_groupsBetween, mem_slice_iff ht hsum (by rwa [hindex h]), hindex h]
  refine ⟨⟨_, fun fuel hfuel => commandNDRange_eq_some slices miniWGInfo hpos hfuel, ?_, ?_⟩, ?_, ?_⟩
  · apply nodup_flatMap_of_key (fun p => (p 0).toNat / (sliceSize (numGroups 0) slices).toNat)
    · intro index h p hp
      exact ((hmem (List.mem_range.1 h)).1 hp).1.1
    · exact nodup_range
    · intro index _
      exact nodup_groupsBetween
  · intro p
    simp only [mem_flatMap, List.mem_range]
    constructor
    · rintro ⟨index, h, hp⟩ i
      obtain ⟨⟨-, hx⟩, hy, hz⟩ := (hmem h).1 hp
      fin_cases i
      · exact hx
      · exact hy
      · exact hz
    · intro hp
      -- the slice of a group is the quotient of its first coordinate
      have hlt : (p 0).toNat / (sliceSize (numGroups 0) slices).toNat < slices.toNat := by
        apply Nat.div_lt_of_lt_mul
        exact (hp 0).trans (lt_sliceSize_mul ht hsum).1
      exact ⟨_, hlt, (hmem hlt).2 ⟨⟨rfl, hp 0⟩, hp 1, hp 2⟩⟩
  · rw [numGroupsRoundedUp, toNat_add, mod_eq_of_lt hsum]
  · intro slice hs
    obtain ⟨hstart, hend⟩ := toNat_sliceStart_sliceEnd ht hsum hs
    exact ⟨hstart, by rw [hstart, hend]⟩

/-- Seven groups in a row and four slices: the slices have two groups each, the last one has one. -/
theorem commandNDRange_visits_sevenGroups :
    (∃ visits, (∀ fuel ≥ 2 ^ 64, commandNDRange fuel ![7, 1, 1] 4 (fun _ => ![0, 0, 0]) = some visits) ∧
        visits.Nodup ∧ ∀ p, p ∈ visits ↔ ∀ i, (p i).toNat < ((![7, 1, 1] : GroupId) i).toNat) :=
  (commandNDRange_visits_once ![7, 1, 1] 4 (fun _ => ![0, 0, 0]) (by decide) (by decide)
    (by decide)).1

end ConstructionKit.Host
