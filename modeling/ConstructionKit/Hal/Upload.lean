/-! The upload of a program (`hal/source/program.cpp`), from its program headers. -/

namespace ConstructionKit.Hal

structure Phdr where
  type : UInt32
  offset : UInt64
  vaddr : UInt64
  filesz : UInt64
  memsz : UInt64

abbrev Bytes := UInt64 → UInt8

section

variable (accepts : UInt64 → UInt64 → Bool) (data : Bytes)

/-- `mem_write` or `mem_fill`, if there is a byte to be written; the device may refuse it. -/
def memWrite (dst size : UInt64) (src memory : Bytes) : Option Bytes :=
  if size = 0 then some memory
  else if accepts dst size then some fun a => if a - dst < size then src (a - dst) else memory a
  else none

/-- A turn of the loop of `upload`; `data` are the bytes of the file. -/
def uploadSegment (memory : Bytes) (phdr : Phdr) : Option Bytes :=
  if phdr.type ≠ 1 then some memory
  else do
    let toCopy := if phdr.filesz < phdr.memsz then phdr.filesz else phdr.memsz
    let memory ← memWrite accepts phdr.vaddr toCopy (fun i => data (phdr.offset + i)) memory
    let toZero := (if phdr.memsz < phdr.filesz then phdr.filesz else phdr.memsz) - toCopy
    memWrite accepts (phdr.vaddr + toCopy) toZero (fun _ => 0) memory

def upload (memory : Bytes) (phdrs : List Phdr) : Option Bytes :=
  phdrs.foldlM (uploadSegment accepts data) memory

/-- An address is in a segment that is loaded. -/
def Phdr.Covers (phdr : Phdr) (a : UInt64) : Prop := phdr.type = 1 ∧ a - phdr.vaddr < phdr.memsz

/-- The byte that is to be at an address of a segment. -/
def Phdr.byte (phdr : Phdr) (a : UInt64) : UInt8 :=
  if a - phdr.vaddr < phdr.filesz then data (phdr.offset + (a - phdr.vaddr)) else 0

/-- An upload that succeeds writes the segments and nothing else. -/
def Uploads (phdrs : List Phdr) : Prop :=
  ∀ accepts memory memory', upload accepts data memory phdrs = some memory' → ∀ a,
    (∀ phdr ∈ phdrs, phdr.Covers a → memory' a = phdr.byte data a) ∧
      ((∀ phdr ∈ phdrs, ¬phdr.Covers a) → memory' a = memory a)

end

variable {accepts : UInt64 → UInt64 → Bool} {data memory memory' src : Bytes} {dst size : UInt64}
  {phdr : Phdr} {phdrs : List Phdr}

theorem memWrite_apply (h : memWrite accepts dst size src memory = some memory') (a : UInt64) :
    memory' a = if a - dst < size then src (a - dst) else memory a := by
  unfold memWrite at h
  split at h
  · next hsize =>
    cases h
    rw [if_neg (by rw [hsize]; exact UInt64.not_lt_zero)]
  · split at h
    · cases h
      rfl
    · cases h

theorem sub_add_lt_iff {a v f m : UInt64} (hle : f ≤ m) :
    a - (v + f) < m - f ↔ f ≤ a - v ∧ a - v < m := by
  have ha := a.toNat_lt
  have hv := v.toNat_lt
  have hm := m.toNat_lt
  simp only [UInt64.lt_iff_toNat_lt, UInt64.le_iff_toNat_le, UInt64.toNat_sub, UInt64.toNat_add]
    at hle ⊢
  omega

theorem uploadSegment_apply (hsize : phdr.filesz ≤ phdr.memsz)
    (h : uploadSegment accepts data memory phdr = some memory') (a : UInt64) :
    (phdr.Covers a → memory' a = phdr.byte data a) ∧ (¬phdr.Covers a → memory' a = memory a) := by
  unfold uploadSegment at h
  split at h
  · next htype =>
    cases h
    exact ⟨fun hcovers => absurd hcovers.1 htype, fun _ => rfl⟩
  · have hcopy : (if phdr.filesz < phdr.memsz then phdr.filesz else phdr.memsz) = phdr.filesz := by
      split
      · rfl
      · exact UInt64.le_antisymm (UInt64.not_lt.1 ‹_›) hsize
    obtain ⟨copied, hcopied, hzero⟩ := Option.bind_eq_some_iff.1 h
    rw [hcopy] at hcopied hzero
    rw [if_neg (UInt64.not_lt.2 hsize)] at hzero
    have hbyte := memWrite_apply hzero a
    simp only [memWrite_apply hcopied a, sub_add_lt_iff hsize] at hbyte
    rw [hbyte, Phdr.Covers, Phdr.byte]
    have hlt : a - phdr.vaddr < phdr.filesz → a - phdr.vaddr < phdr.memsz :=
      fun hlt => UInt64.lt_of_lt_of_le hlt hsize
    grind [UInt64.not_le]

end ConstructionKit.Hal
