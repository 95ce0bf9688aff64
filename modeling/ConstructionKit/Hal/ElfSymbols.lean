import ConstructionKit.ProofKit.Bytes

/-! The walks over the symbol table (`hal/include/elf.h`, `hal/source/program.cpp`).  Pointers have 64
bits, and the memory can be read everywhere. -/

namespace ConstructionKit.Hal

open ProofKit

/-- `elf_file_t`, with the memory that its data is in. -/
structure ElfFile where
  memory : UInt64 → UInt8
  data : UInt64
  is64 : Bool

structure Shdr where
  name : UInt64
  offset : UInt64
  size : UInt64
  entsize : UInt64
deriving DecidableEq

/-- The loop over the symbols up to `last`: where it stops, or none of them. -/
def symbolLoop (stop : UInt64 → Bool) (last entsize : UInt64) : Nat → UInt64 → Option (Option UInt64)
  | 0, _ => none
  | fuel + 1, ptr =>
    if ptr < last then
      if stop ptr then some (some ptr) else symbolLoop stop last entsize fuel (ptr + entsize)
    else some none

namespace ElfFile

variable (elf : ElfFile)

def bytes (ptr : UInt64) (n : Nat) : List UInt8 :=
  (List.range n).map fun i => elf.memory (ptr + .ofNat i)

def number (ptr : UInt64) (n : Nat) : UInt64 := .ofNat (leNat (elf.bytes ptr n))

/-- A field of a structure, at its place and with its size in a 64-bit and in a 32-bit file. -/
def field (ptr at64 : UInt64) (size64 : Nat) (at32 : UInt64) (size32 : Nat) : UInt64 :=
  if elf.is64 then elf.number (ptr + at64) size64 else elf.number (ptr + at32) size32

def load : Bool :=
  elf.bytes elf.data 4 = [0x7f, 0x45, 0x4c, 0x46] ∧ elf.number (elf.data + 18) 2 = 243 ∧
    elf.number (elf.data + 4) 1 = if elf.is64 then 2 else 1

def getShdr (index : UInt64) : Shdr :=
  let offset := elf.field elf.data 40 8 32 4 + index * elf.field elf.data 58 2 46 2
  let ptr := elf.data + if elf.is64 then offset else offset % 0x100000000
  ⟨elf.field ptr 0 4 0 4, elf.field ptr 24 8 16 4, elf.field ptr 32 8 20 4, elf.field ptr 56 8 36 4⟩

/-- `strcmp(name, str) == 0`. -/
def strEq (name : List UInt8) (str : UInt64) : Bool := elf.bytes str (name.length + 1) = name ++ [0]

def findSection (name : List UInt8) : Option Shdr :=
  let shstrtab := elf.data + (elf.getShdr (elf.field elf.data 62 2 50 2)).offset
  ((List.range (elf.field elf.data 60 2 48 2).toNat).map fun i => elf.getShdr (.ofNat i)).find?
    fun shdr => elf.strEq name (shstrtab + shdr.name)

/-- The addresses of the string table and of the first symbol, and the header of the symbols. -/
def tables : Option (UInt64 × UInt64 × Shdr) := do
  let strtab ← elf.findSection [46, 115, 116, 114, 116, 97, 98]
  let symtab ← elf.findSection [46, 115, 121, 109, 116, 97, 98]
  return (elf.data + strtab.offset, elf.data + symtab.offset, symtab)

/-- The loop over the symbols, with the address of the string table. -/
def walk (stop : UInt64 → UInt64 → Bool) (fuel : Nat) : Option (Option UInt64) :=
  match elf.tables with
  | none => some none
  | some (strtab, ptr, symtab) =>
    symbolLoop (stop strtab) (ptr + symtab.size) symtab.entsize fuel ptr

/-- `populate_kernel_map`, without the map that it fills. -/
def populateKernelMap (fuel : Nat) : Option Bool :=
  (elf.walk (fun _ _ => false) fuel).map fun _ => elf.tables.isSome

def findSymbol (name : List UInt8) : Nat → Option (Option UInt64) :=
  elf.walk fun strtab ptr => elf.strEq name (strtab + elf.number ptr 4)

/-- The walks come to an end; the first is for 64-bit files only. -/
def Terminates : Prop :=
  (elf.is64 = true → ∃ fuel, (elf.populateKernelMap fuel).isSome) ∧
    ∀ name, ∃ fuel, (elf.findSymbol name fuel).isSome

end ElfFile

variable {stop : UInt64 → Bool} {last entsize ptr : UInt64}

theorem isSome_symbolLoop (hpos : 0 < entsize.toNat) (hlast : last.toNat + entsize.toNat ≤ 2 ^ 64)
    {n : Nat} (hn : last.toNat ≤ ptr.toNat + n) :
    (symbolLoop stop last entsize (n + 1) ptr).isSome := by
  induction n generalizing ptr with
  | zero =>
    have hstop : ¬ptr < last := by rw [UInt64.lt_iff_toNat_lt]; omega
    simp [symbolLoop, hstop]
  | succ n ih =>
    rw [symbolLoop]
    split
    · next hlt =>
      have hnext : (ptr + entsize).toNat = ptr.toNat + entsize.toNat := by
        rw [UInt64.lt_iff_toNat_lt] at hlt
        rw [UInt64.toNat_add, Nat.mod_eq_of_lt (by omega)]
      split
      · rfl
      · exact ih (by omega)
    · rfl

/-- A file with a symbol table of one byte, whose entries have `entsize` bytes. -/
def oneByteTable (entsize : UInt8) : ElfFile where
  memory a := ([0x7f, 0x45, 0x4c, 0x46, 2] ++ List.replicate 13 0 ++ [243] ++ List.replicate 21 0 ++
    [64] ++ List.replicate 17 0 ++ [64, 0, 2] ++ List.replicate 27 0 ++ [192] ++ List.replicate 39 0 ++
    [8] ++ List.replicate 31 0 ++ [1] ++ List.replicate 23 0 ++ [entsize] ++ List.replicate 7 0 ++
    [46, 115, 116, 114, 116, 97, 98, 0, 46, 115, 121, 109, 116, 97, 98]).getD (a.toNat - 4096) 0
  data := 4096
  is64 := true

end ConstructionKit.Hal
