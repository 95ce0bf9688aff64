import Mathlib.Data.List.Range

/-! The slots of a circular buffer between its read index and its write index.  One slot stays free,
so that equal indices mean an empty buffer. -/

namespace ConstructionKit.ProofKit

open Nat List

variable {cap read write : Nat}

/-- The slots that are written and not read, in the order in which they are read. -/
def unreadSlots (cap read write : Nat) : List Nat :=
  (List.range ((write + cap - read) % cap)).map fun i => (read + i) % cap

theorem span_eq (hread : read < cap) (hwrite : write < cap) :
    (write + cap - read) % cap = if read ≤ write then write - read else write + cap - read := by
  split
  · rw [show write + cap - read = write - read + cap by omega, add_mod_right]
    exact mod_eq_of_lt (by omega)
  · exact mod_eq_of_lt (by omega)

theorem succ_mod_eq (h : write < cap) :
    (write + 1) % cap = if write + 1 = cap then 0 else write + 1 := by
  split
  · rename_i heq
    rw [heq, mod_self]
  · exact mod_eq_of_lt (by omega)

/-- The write index is the slot behind the last one that is not read. -/
theorem read_add_span (hread : read < cap) (hwrite : write < cap) :
    (read + (write + cap - read) % cap) % cap = write := by
  rw [add_mod_mod, show read + (write + cap - read) = write + cap by omega, add_mod_right]
  exact mod_eq_of_lt hwrite

theorem unreadSlots_push (hread : read < cap) (hwrite : write < cap)
    (hroom : read ≠ (write + 1) % cap) :
    unreadSlots cap read ((write + 1) % cap) = unreadSlots cap read write ++ [write] := by
  have hspan : ((write + 1) % cap + cap - read) % cap = (write + cap - read) % cap + 1 := by
    have hnext := succ_mod_eq hwrite
    rw [span_eq hread (mod_lt _ (by omega)), span_eq hread hwrite]
    split at hnext <;> split_ifs <;> omega
  rw [unreadSlots, hspan, range_succ, map_append, map_singleton,
    read_add_span hread hwrite]
  rfl

theorem unreadSlots_pop (hread : read < cap) (hwrite : write < cap) (hne : read ≠ write) :
    unreadSlots cap read write = read :: unreadSlots cap ((read + 1) % cap) write := by
  have hspan : (write + cap - read) % cap = (write + cap - (read + 1) % cap) % cap + 1 := by
    have hnext := succ_mod_eq hread
    rw [span_eq (mod_lt _ (by omega)) hwrite, span_eq hread hwrite]
    split at hnext <;> split_ifs <;> omega
  rw [unreadSlots, hspan, range_succ_eq_map, map_cons, map_map, Nat.add_zero,
    mod_eq_of_lt hread]
  congr 1
  refine map_congr_left fun i _ => ?_
  rw [Function.comp_apply, mod_add_mod, Nat.add_assoc, Nat.add_comm 1]

/-- What is written next is not among the slots that are still to be read. -/
theorem not_mem_unreadSlots (hread : read < cap) (hwrite : write < cap) :
    write ∉ unreadSlots cap read write := by
  intro hmem
  obtain ⟨i, hi, heq⟩ := mem_map.1 hmem
  rw [List.mem_range, span_eq hread hwrite] at hi
  by_cases hlt : read + i < cap
  · rw [mod_eq_of_lt hlt] at heq
    split at hi <;> omega
  · rw [mod_eq_sub_mod (by omega), mod_eq_of_lt (by split at hi <;> omega)] at heq
    split at hi <;> omega

end ConstructionKit.ProofKit
