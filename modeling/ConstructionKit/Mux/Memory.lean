import Mathlib.Data.List.Range

/-! The memory of buffers on several devices, and copies between devices
(`modules/mux/utils/source/helpers.cpp`). -/

namespace ConstructionKit.Mux

variable {β : Type} {b offset size src dst : Nat}

/-- A byte of a buffer. -/
abbrev Cell := Nat × Nat

/-- `memory d (b, i)` is byte `i` of the memory that device `d` has for buffer `b`. -/
abbrev Memory (β : Type) := Nat → Cell → β

def range (b offset size : Nat) : List Cell := (List.range' offset size).map (Prod.mk b)

theorem mem_range {cell : Cell} :
    cell ∈ range b offset size ↔ cell.1 = b ∧ offset ≤ cell.2 ∧ cell.2 < offset + size := by
  rw [range, List.mem_map]
  constructor
  · rintro ⟨i, hi, rfl⟩
    obtain ⟨hle, hlt⟩ := List.mem_range'_1.1 hi
    exact ⟨rfl, hle, hlt⟩
  · rintro ⟨rfl, hle, hlt⟩
    exact ⟨cell.2, List.mem_range'_1.2 ⟨hle, hlt⟩, rfl⟩

/-- `mux::synchronizeMemory` at offset 0 -/
def synchronizeMemory (memory : Memory β) (b size src dst : Nat) : Memory β :=
  Function.update memory dst fun cell =>
    if cell.1 = b ∧ cell.2 < size then memory src cell else memory dst cell

theorem synchronizeMemory_dst (memory : Memory β) (cell : Cell) :
    synchronizeMemory memory b size src dst dst cell =
      if cell.1 = b ∧ cell.2 < size then memory src cell else memory dst cell :=
  congrFun (Function.update_self dst _ memory) cell

theorem synchronizeMemory_of_ne (memory : Memory β) {d : Nat} (hd : d ≠ dst) :
    synchronizeMemory memory b size src dst d = memory d :=
  Function.update_of_ne hd _ memory

/-- The buffer that a byte belongs to. -/
def region (size : Nat → Nat) (cell : Cell) : Option Nat :=
  if cell.2 < size cell.1 then some cell.1 else none

theorem region_eq_some {size : Nat → Nat} {cell : Cell} :
    region size cell = some b ↔ cell.1 = b ∧ cell.2 < size b := by
  rw [region]
  split
  · next hlt =>
    rw [Option.some_inj]
    exact ⟨fun heq => ⟨heq, heq ▸ hlt⟩, fun h => h.1⟩
  · next hge => exact iff_of_false nofun fun h => hge (h.1 ▸ h.2)

end ConstructionKit.Mux
