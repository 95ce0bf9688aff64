import Mathlib.Data.List.Nodup
import Mathlib.Tactic.Linarith
import Mathlib.Tactic.Ring

/-! The mixed-radix numbering of the points of a three-dimensional box. -/

namespace ConstructionKit.ProofKit

open List Nat

/-- The numerals of `Fin 3`, the axes of a box, use this instance. -/
instance (priority := high) neZeroThree : NeZero 3 := ⟨by decide⟩

/-- The points with coordinates below `nx`, `ny` and `nz`. -/
def box (nx ny nz : Nat) : Set (Nat × Nat × Nat) := {p | p.1 < nx ∧ p.2.1 < ny ∧ p.2.2 < nz}

/-- The number of a point, with the first coordinate as the least significant digit. -/
def boxIndex (nx ny : Nat) (p : Nat × Nat × Nat) : Nat := p.1 + nx * (p.2.1 + ny * p.2.2)

/-- The point with a given number. -/
def boxPoint (nx ny i : Nat) : Nat × Nat × Nat := (i % nx, i / nx % ny, i / nx / ny)

variable {nx ny nz : Nat} {p : Nat × Nat × Nat}

theorem boxPoint_boxIndex (hp : p ∈ box nx ny nz) : boxPoint nx ny (boxIndex nx ny p) = p := by
  obtain ⟨x, y, z⟩ := p
  obtain ⟨hx, hy, -⟩ := hp
  have hdiv : (x + nx * (y + ny * z)) / nx = y + ny * z := by
    rw [add_mul_div_left _ _ (by omega), div_eq_of_lt hx, Nat.zero_add]
  simp only [boxPoint, boxIndex, hdiv, add_mul_mod_self_left, mod_eq_of_lt hx,
    mod_eq_of_lt hy]
  rw [add_mul_div_left _ _ (by omega), div_eq_of_lt hy, Nat.zero_add]

theorem boxIndex_boxPoint (i : Nat) : boxIndex nx ny (boxPoint nx ny i) = i := by
  simp only [boxPoint, boxIndex, mod_add_div]

theorem boxIndex_lt (hp : p ∈ box nx ny nz) : boxIndex nx ny p < nx * ny * nz := by
  obtain ⟨x, y, z⟩ := p
  obtain ⟨hx, hy, hz⟩ := hp
  simp only at hx hy hz
  calc x + nx * (y + ny * z) < nx * (1 + y + ny * z) := by linarith [Nat.mul_add nx 1 (y + ny * z)]
    _ ≤ nx * (ny * (1 + z)) := Nat.mul_le_mul_left _ (by linarith [Nat.mul_add ny 1 z])
    _ ≤ nx * (ny * nz) := Nat.mul_le_mul_left _ (Nat.mul_le_mul_left _ (by omega))
    _ = nx * ny * nz := (Nat.mul_assoc ..).symm

theorem boxPoint_mem {i : Nat} (hi : i < nx * ny * nz) : boxPoint nx ny i ∈ box nx ny nz := by
  have hny : 0 < nx * ny := Nat.pos_of_mul_pos_right (by omega : 0 < nx * ny * nz)
  refine ⟨mod_lt _ (Nat.pos_of_mul_pos_right hny), mod_lt _ (Nat.pos_of_mul_pos_left hny), ?_⟩
  show i / nx / ny < nz
  rw [Nat.div_div_eq_div_mul]
  exact Nat.div_lt_of_lt_mul hi

theorem boxIndex_bijOn : Set.BijOn (boxIndex nx ny) (box nx ny nz) (Set.Iio (nx * ny * nz)) := by
  have hinv : Set.InvOn (boxPoint nx ny) (boxIndex nx ny) (box nx ny nz)
      (Set.Iio (nx * ny * nz)) :=
    ⟨fun _ hp => boxPoint_boxIndex hp, fun i _ => boxIndex_boxPoint i⟩
  exact hinv.bijOn (fun _ hp => boxIndex_lt hp) fun _ hi => boxPoint_mem hi

/-! ### The points as a list -/

theorem flatMap_range'_mul (a m n : Nat) :
    ((List.range n).flatMap fun k => List.range' (a + m * k) m) = List.range' a (m * n) := by
  induction n with
  | zero => rfl
  | succ n ih =>
    rw [range_succ, flatMap_append, ih, flatMap_singleton, mul_succ,
      ← range'_append_1]

/-- A range in chunks of `m`, of which the last ones may be shorter or empty. -/
theorem flatMap_range'_min (m n len : Nat) (h : len ≤ n * m) :
    ((List.range n).flatMap fun k => List.range' (k * m) (min m (len - k * m))) =
      List.range len := by
  have hfront : ∀ n, ((List.range n).flatMap fun k => List.range' (k * m) (min m (len - k * m))) =
      List.range (min len (n * m)) := by
    intro n
    induction n with
    | zero => simp
    | succ n ih =>
      rw [range_succ, flatMap_append, ih, flatMap_singleton, succ_mul]
      rcases Nat.le_total len (n * m) with hle | hle
      · rw [Nat.sub_eq_zero_of_le hle, Nat.min_zero, Nat.min_eq_left hle,
          Nat.min_eq_left (by omega), range'_zero, append_nil]
      · rw [Nat.min_eq_right hle, range_eq_range', range_eq_range',
          show min len (n * m + m) = n * m + min m (len - n * m) by omega, ← range'_append_1,
          Nat.zero_add]
  rw [hfront, Nat.min_eq_left h]

/-- The points of a box in the order of their numbers. -/
def boxList (nx ny nz : Nat) : List (Nat × Nat × Nat) :=
  (List.range nz).flatMap fun z => (List.range ny).flatMap fun y =>
    (List.range nx).map fun x => (x, y, z)

theorem mem_boxList : p ∈ boxList nx ny nz ↔ p ∈ box nx ny nz := by
  obtain ⟨x, y, z⟩ := p
  simp only [boxList, mem_flatMap, mem_map, List.mem_range, Prod.mk.injEq]
  constructor
  · rintro ⟨z, hz, y, hy, x, hx, rfl, rfl, rfl⟩
    exact ⟨hx, hy, hz⟩
  · rintro ⟨hx, hy, hz⟩
    exact ⟨z, hz, y, hy, x, hx, rfl, rfl, rfl⟩

theorem map_boxIndex_boxList : (boxList nx ny nz).map (boxIndex nx ny) = List.range (nx * ny * nz) := by
  have hrow : ∀ y z, ((List.range nx).map fun x => boxIndex nx ny (x, y, z)) =
      List.range' (nx * ny * z + nx * y) nx := by
    intro y z
    rw [range'_eq_map_range]
    refine map_congr_left fun x _ => ?_
    simp only [boxIndex]
    ring
  simp only [boxList, map_flatMap, map_map, Function.comp_def, hrow, flatMap_range'_mul]
  have := flatMap_range'_mul 0 (nx * ny) nz
  simp only [Nat.zero_add] at this
  rw [this, range_eq_range']

theorem nodup_boxList : (boxList nx ny nz).Nodup := by
  apply List.Nodup.of_map (boxIndex nx ny)
  rw [map_boxIndex_boxList]
  exact nodup_range

end ConstructionKit.ProofKit
