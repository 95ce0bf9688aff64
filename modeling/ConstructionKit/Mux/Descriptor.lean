import ConstructionKit.Args.ArgPack

/-! The descriptors of kernel arguments, the options of an ND-range, and the blocks of memory that
the commands of a target own. -/

namespace ConstructionKit.Mux

open List Option

/-- `mux_descriptor_info_t`.  A buffer is the address of its data, and plain old data comes with the
bytes that can be read at its pointer. -/
inductive Descriptor where
  | buffer (data offset : UInt64)
  | image (pointer : UInt64)
  | sampler (value : UInt64)
  | plainOldData (data : List UInt8) (length : UInt64)
  | sharedLocalBuffer (size : UInt64)
  | nullBuffer
  | customBuffer
deriving DecidableEq, Repr

inductive Result where
  | success | invalidValue
deriving DecidableEq, Repr

/-- `mux_ndrange_options_t` -/
structure NDRangeOptions where
  descriptors : List Descriptor
  globalSize : Fin 3 → UInt64
  globalOffset : Fin 3 → UInt64
  localSize : Fin 3 → UInt64
  dimensions : Nat

/-- The sizes that a command keeps. -/
structure Sizes where
  globalSize : Fin 3 → UInt64
  globalOffset : Fin 3 → UInt64
  localSize : Fin 3 → UInt64
  dimensions : Nat

def NDRangeOptions.sizes (options : NDRangeOptions) : Sizes where
  globalSize i := if i < options.dimensions then options.globalSize i else 1
  globalOffset i := if i < options.dimensions then options.globalOffset i else 0
  localSize := options.localSize
  dimensions := options.dimensions

/-- A call of `UpdateDescriptors`: the id of the command, and the arguments with their indices. -/
structure Update where
  commandId : Nat
  args : List (Nat × Descriptor)
deriving DecidableEq, Repr

/-! ### Blocks of memory -/

/-- The first bytes at a pointer, if as many can be read. -/
def takeExactly (data : List UInt8) (size : Nat) : Option (List UInt8) :=
  if size ≤ data.length then some (data.take size) else none

def loadAt (blocks : List (List UInt8)) (block offset size : Nat) : Option (List UInt8) := do
  takeExactly ((← blocks[block]?).drop offset) size

/-- A `memcpy` into a block, which is undefined outside of the block. -/
def storeAt (blocks : List (List UInt8)) (block dest : Nat) (src : List UInt8) :
    Option (List (List UInt8)) := do
  return blocks.set block (← Args.memcpy (← blocks[block]?) dest src)

variable {blocks blocks' : List (List UInt8)} {block dest size : Nat} {src bytes : List UInt8}

theorem length_of_memcpy {pack pack' : List UInt8} (h : Args.memcpy pack dest src = some pack') :
    pack'.length = pack.length := by
  simp only [Args.memcpy] at h
  split at h
  · cases h
    simp only [length_append, length_take, length_drop]
    omega
  · cases h

theorem drop_take_of_memcpy {pack pack' : List UInt8} (h : Args.memcpy pack dest src = some pack') :
    (pack'.drop dest).take src.length = src := by
  simp only [Args.memcpy] at h
  split at h
  · cases h
    have hdest : (pack.take dest).length = dest := by rw [length_take]; omega
    rw [append_assoc, drop_append_of_le_length hdest.ge, drop_of_length_le hdest.le,
      nil_append, take_left]
  · cases h

theorem storeAt_eq_some_iff : storeAt blocks block dest src = some blocks' ↔
    ∃ bytes bytes', blocks[block]? = some bytes ∧ Args.memcpy bytes dest src = some bytes' ∧
      blocks' = blocks.set block bytes' := by
  simp only [storeAt, bind_eq_bind, bind_eq_some_iff, Option.pure_def,
    Option.some.injEq]
  constructor
  · rintro ⟨bytes, h, bytes', h', rfl⟩
    exact ⟨bytes, bytes', h, h', rfl⟩
  · rintro ⟨bytes, bytes', h, h', rfl⟩
    exact ⟨bytes, h, bytes', h', rfl⟩

section

variable (h : storeAt blocks block dest src = some blocks')
include h

theorem map_length_of_storeAt :
    blocks'.map List.length = blocks.map List.length := by
  obtain ⟨bytes, bytes', hbytes, hcopy, rfl⟩ := storeAt_eq_some_iff.1 h
  rw [map_set, length_of_memcpy hcopy]
  apply ext_getElem?
  intro i
  by_cases hi : block = i
  · subst hi
    rw [getElem?_set_self', getElem?_map, hbytes]
    rfl
  · rw [getElem?_set_ne hi]

theorem getElem?_of_storeAt {other : Nat}
    (hne : other ≠ block) : blocks'[other]? = blocks[other]? := by
  obtain ⟨bytes, bytes', -, -, rfl⟩ := storeAt_eq_some_iff.1 h
  exact getElem?_set_ne hne.symm

theorem loadAt_of_storeAt :
    loadAt blocks' block dest src.length = some src := by
  obtain ⟨bytes, bytes', hbytes, hcopy, rfl⟩ := storeAt_eq_some_iff.1 h
  have hblock : block < blocks.length := (List.getElem?_eq_some_iff.1 hbytes).1
  have htake := drop_take_of_memcpy hcopy
  have hroom : src.length ≤ (bytes'.drop dest).length := by
    rw [← congrArg List.length htake, length_take]
    exact Nat.min_le_right _ _
  simp only [loadAt, getElem?_set_self hblock, bind_eq_bind, bind_some,
    takeExactly, if_pos hroom, htake]

end

theorem loadAt_eq_some_iff : loadAt blocks block dest size = some bytes ↔
    ∃ content, blocks[block]? = some content ∧ size ≤ (content.drop dest).length ∧
      bytes = (content.drop dest).take size := by
  simp only [loadAt, bind_eq_bind, bind_eq_some_iff, takeExactly,
    ite_none_right_eq_some, Option.some.injEq, eq_comm (b := bytes)]

theorem loadAt_length_of_map_length_eq
    (hlengths : blocks'.map List.length = blocks.map List.length) (block offset size : Nat) :
    (loadAt blocks' block offset size).map List.length =
      (loadAt blocks block offset size).map List.length := by
  have hblock := congrArg (·[block]?) hlengths
  simp only [getElem?_map] at hblock
  simp only [loadAt]
  cases h : blocks[block]? with
  | none =>
    rw [h, map_none, map_eq_none_iff] at hblock
    rw [hblock]
  | some =>
    rw [h, map_some, map_eq_some_iff] at hblock
    obtain ⟨content', h', hlength⟩ := hblock
    rw [h']
    simp only [bind_eq_bind, bind_some, takeExactly, length_drop, hlength]
    split
    · simp only [map_some, length_take, length_drop, hlength]
    · rfl

theorem storeAt_of_loadAt (h : loadAt blocks block dest size = some bytes)
    (hsize : src.length = size) (hpos : 0 < size) :
    ∃ blocks', storeAt blocks block dest src = some blocks' := by
  obtain ⟨content, hcontent, hroom, -⟩ := loadAt_eq_some_iff.1 h
  rw [length_drop] at hroom
  have hfits : dest + src.length ≤ content.length := by omega
  exact ⟨_, storeAt_eq_some_iff.2 ⟨content, _, hcontent, if_pos hfits, rfl⟩⟩

end ConstructionKit.Mux
