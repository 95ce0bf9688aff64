import ConstructionKit.Hal.Allocator
import ConstructionKit.ProofKit.Alignment
import ConstructionKit.ProofKit.Tiling

/-! The blocks of an allocator as cells of its memory, and what its operations do to them. -/

namespace ConstructionKit.Hal

open ProofKit UInt64
open List hiding merge

variable {addrHi alignment : UInt64} {block b : Block} {blocks front back : List Block}
  {lo hi : Nat}

def cells (addrHi : UInt64) : List Block → List Cell
  | [] => []
  | block :: next =>
    ⟨block.addr.toNat, (blockEnd addrHi next).toNat, block.isFree⟩ :: cells addrHi next

theorem cells_append (addrHi : UInt64) (front : List Block) (block : Block) (back : List Block) :
    cells addrHi (front ++ block :: back) = cells block.addr front ++ cells addrHi (block :: back) := by
  induction front with
  | nil => rfl
  | cons first front ih =>
    have hend : blockEnd addrHi (front ++ block :: back) = blockEnd block.addr front := by
      cases front <;> rfl
    rw [cons_append, cells, hend, ih]
    rfl

theorem exists_cell (addrHi : UInt64) (h : b ∈ blocks) :
    ∃ c ∈ cells addrHi blocks, c.start = b.addr.toNat ∧ c.free = b.isFree := by
  obtain ⟨front, back, rfl⟩ := append_of_mem h
  refine ⟨⟨b.addr.toNat, (blockEnd addrHi back).toNat, b.isFree⟩, ?_, rfl, rfl⟩
  rw [cells_append]
  exact mem_append_right _ (mem_cons_self ..)

theorem exists_block {c : Cell} (h : c ∈ cells addrHi blocks) :
    ∃ front block back, blocks = front ++ block :: back ∧
      c = ⟨block.addr.toNat, (blockEnd addrHi back).toNat, block.isFree⟩ := by
  induction blocks with
  | nil => cases h
  | cons first blocks ih =>
    rw [cells, mem_cons] at h
    obtain rfl | h := h
    · exact ⟨[], first, blocks, rfl, rfl⟩
    · obtain ⟨front, block, back, rfl, hc⟩ := ih h
      exact ⟨first :: front, block, back, rfl, hc⟩

/-! ### Order -/

theorem sorted_of_tiles (h : Tiles lo hi (cells addrHi blocks)) :
    blocks.Pairwise fun b c => b.addr < c.addr := by
  induction blocks generalizing lo with
  | nil => exact .nil
  | cons first blocks ih =>
    obtain ⟨-, hlt, htail⟩ := h
    refine .cons (fun other hother => ?_) (ih htail)
    obtain ⟨c, hc, hstart, -⟩ := exists_cell addrHi hother
    have hle := (htail.bounds hc).1
    rw [lt_iff_toNat_lt]
    simp only at hlt hle
    omega

theorem insertBlock_between (block : Block) (hfront : ∀ b ∈ front, b.addr < block.addr)
    (hback : ∀ b ∈ back, block.addr < b.addr) :
    insertBlock block (front ++ back) = front ++ block :: back := by
  induction front with
  | nil =>
    cases back with
    | nil => rfl
    | cons first => rw [nil_append, insertBlock, if_pos (hback first (by simp))]; rfl
  | cons first front ih =>
    have hfirst := hfront first (by simp)
    have hnot : ¬ block.addr < first.addr := by
      rw [lt_iff_toNat_lt] at *
      omega
    rw [cons_append, insertBlock, if_neg hnot, if_pos hfirst,
      ih fun b hb => hfront b (mem_cons_of_mem _ hb)]
    rfl

theorem eraseBlock_middle (hfront : ∀ b ∈ front, b.addr < block.addr) :
    eraseBlock block.addr (front ++ block :: back) = front ++ back := by
  have hne : ∀ b ∈ front, ¬ decide (b.addr = block.addr) = true := by
    intro b hb
    have hlt := hfront b hb
    rw [lt_iff_toNat_lt] at hlt
    simp only [decide_eq_true_eq]
    intro heq
    rw [heq] at hlt
    omega
  rw [eraseBlock, eraseP_append_right _ hne, eraseP_cons_of_pos (by simp)]

theorem sorted_middle (h : (front ++ block :: back).Pairwise fun b c => b.addr < c.addr) :
    (∀ b ∈ front, b.addr < block.addr) ∧ ∀ b ∈ back, block.addr < b.addr := by
  rw [pairwise_append, pairwise_cons] at h
  obtain ⟨-, ⟨hback, -⟩, hcross⟩ := h
  exact ⟨fun b hb => hcross b hb block (by simp), hback⟩

theorem blockEnd_le (h : blocks.Pairwise fun b c => b.addr < c.addr) (hb : b ∈ blocks) :
    (blockEnd addrHi blocks).toNat ≤ b.addr.toNat := by
  cases blocks with
  | nil => cases hb
  | cons =>
    rw [mem_cons] at hb
    obtain rfl | hb := hb
    · exact Nat.le_refl _
    · exact Nat.le_of_lt (lt_iff_toNat_lt.1 ((pairwise_cons.1 h).1 b hb))

/-! ### Operations on cells -/

theorem blockEnd_consolidateFrom (block : Block) (blocks : List Block) :
    blockEnd addrHi (Allocator.consolidateFrom block blocks) = block.addr := by
  induction blocks with
  | nil => rfl
  | cons next blocks ih =>
    rw [Allocator.consolidateFrom]
    split
    · rfl
    · exact ih

theorem cells_consolidateFrom (block : Block) (blocks : List Block) :
    cells addrHi (Allocator.consolidateFrom block blocks) =
      merge ⟨block.addr.toNat, (blockEnd addrHi blocks).toNat, block.isFree⟩
        (cells addrHi blocks) := by
  induction blocks generalizing block with
  | nil => rfl
  | cons next blocks ih =>
    rw [Allocator.consolidateFrom, cells, merge]
    by_cases hfree : block.isFree = true ∧ next.isFree = true
    · rw [if_neg (by simp [hfree]), if_pos hfree, ih, hfree.1]
    · rw [if_pos (by simpa [or_iff_not_imp_left] using hfree), if_neg hfree, cells,
        blockEnd_consolidateFrom, ih]
      rfl

theorem cells_consolidate (blocks : List Block) :
    cells addrHi (Allocator.consolidate blocks) = mergeAll (cells addrHi blocks) := by
  cases blocks with
  | nil => rfl
  | cons block blocks => exact cells_consolidateFrom block blocks

theorem toNat_alignDown (h : IsPowerOfTwo alignment) (x : UInt64) :
    (x &&& ~~~(alignment - 1)).toNat = alignment.toNat * (x.toNat / alignment.toNat) := by
  obtain ⟨k, hk, heq⟩ := h
  have hpos := Nat.two_pow_pos k
  have hsub : (alignment - 1).toNat = 2 ^ k - 1 := by
    rw [UInt64.toNat_sub_of_le _ _ (by rw [le_iff_toNat_le, heq]; exact hpos), heq]
    rfl
  have hmask : (~~~(alignment - 1)).toNat = 2 ^ 64 - 2 ^ k := by
    rw [toNat_not]
    have hsize : UInt64.size = 2 ^ 64 := rfl
    omega
  rw [UInt64.toNat_and, hmask, heq]
  exact and_not_mask x.toNat_lt (Nat.le_of_lt hk)

variable {size start : UInt64} {a : Allocator}

theorem findSpace_some (h : Allocator.findSpace addrHi size alignment blocks = some (start, block)) :
    ∃ front back, blocks = front ++ block :: back ∧ block.isFree = true ∧
      start = (blockEnd addrHi back - size) &&& ~~~(alignment - 1) ∧
      block.addr ≤ start ∧ size ≤ blockEnd addrHi back := by
  induction blocks with
  | nil => cases h
  | cons first next ih =>
    -- A block that is passed is in front of the one that is taken.
    have hlater (h : Allocator.findSpace addrHi size alignment next = some (start, block)) :
        ∃ front back, first :: next = front ++ block :: back ∧ block.isFree = true ∧
          start = (blockEnd addrHi back - size) &&& ~~~(alignment - 1) ∧
          block.addr ≤ start ∧ size ≤ blockEnd addrHi back := by
      obtain ⟨front, back, rfl, hrest⟩ := ih h
      exact ⟨first :: front, back, rfl, hrest⟩
    rw [Allocator.findSpace] at h
    split at h
    · exact hlater h
    · rename_i hfree
      simp only at h
      split at h
      · exact hlater h
      · rename_i hfits
        rw [not_or, UInt64.not_lt, UInt64.not_lt] at hfits
        cases h
        exact ⟨[], next, rfl, by simpa using hfree, rfl, hfits⟩

theorem findSpace_none (h : Allocator.findSpace addrHi size alignment (front ++ block :: back) = none)
    (hfree : block.isFree = true) :
    (blockEnd addrHi back - size) &&& ~~~(alignment - 1) < block.addr ∨
      blockEnd addrHi back < size := by
  induction front with
  | nil =>
    rw [nil_append, Allocator.findSpace] at h
    simp only [hfree, Bool.not_true, Bool.false_eq_true, if_false] at h
    split at h
    · assumption
    · cases h
  | cons first front ih =>
    rw [cons_append, Allocator.findSpace] at h
    split at h
    · exact ih h
    · simp only at h
      split at h
      · exact ih h
      · cases h

/-- The size with which an allocation is made. -/
def effectiveSize (size : UInt64) : Nat := max size.toNat 1

theorem toNat_effectiveSize (size : UInt64) :
    (if size = 0 then 1 else size).toNat = effectiveSize size := by
  rw [effectiveSize]
  split
  · rename_i hzero
    rw [hzero]
    rfl
  · rename_i hne
    have hpos : size.toNat ≠ 0 := fun h => hne (UInt64.toNat_inj.1 h)
    omega

theorem alloc_cells (hpow : IsPowerOfTwo alignment) (htiles : Tiles lo hi (cells a.addrHi a.blocks))
    (h : Allocator.findSpace a.addrHi (if size = 0 then 1 else size) alignment a.blocks =
      some (start, block)) :
    (a.alloc size alignment).1 = start ∧
      ∃ front stop back, cells a.addrHi a.blocks = front ++ ⟨block.addr.toNat, stop, true⟩ :: back ∧
        cells a.addrHi (a.alloc size alignment).2.blocks =
          front ++ (cut block.addr.toNat start.toNat stop ++ back) ∧
        block.addr.toNat ≤ start.toNat ∧ start.toNat + effectiveSize size ≤ stop ∧
        alignment.toNat ∣ start.toNat := by
  obtain ⟨front, back, hblocks, hfree, hstart, hle, hsize⟩ := findSpace_some h
  have hsorted := sorted_of_tiles htiles
  rw [hblocks] at hsorted
  obtain ⟨hfront, hback⟩ := sorted_middle hsorted
  have hdown := toNat_alignDown hpow (blockEnd a.addrHi back - if size = 0 then 1 else size)
  rw [← hstart, UInt64.toNat_sub_of_le _ _ hsize, toNat_effectiveSize] at hdown
  rw [le_iff_toNat_le, toNat_effectiveSize] at hsize
  have hstop : start.toNat + effectiveSize size ≤ (blockEnd a.addrHi back).toNat := by
    have := Nat.mul_div_le ((blockEnd a.addrHi back).toNat - effectiveSize size) alignment.toNat
    omega
  refine ⟨by rw [Allocator.alloc, h], cells block.addr front, (blockEnd a.addrHi back).toNat,
    cells a.addrHi back, ?_, ?_, le_iff_toNat_le.1 hle, hstop, ⟨_, hdown⟩⟩
  · rw [hblocks, cells_append, cells, hfree]
  · have hpositive : 0 < effectiveSize size := Nat.lt_of_lt_of_le Nat.one_pos (Nat.le_max_right ..)
    have hafter : ∀ b ∈ back, start < b.addr := by
      intro b hb
      have hlast : (blockEnd a.addrHi back).toNat ≤ b.addr.toNat :=
        blockEnd_le (pairwise_append.1 hsorted).2.1.of_cons hb
      rw [lt_iff_toNat_lt]
      omega
    simp only [Allocator.alloc, h]
    rw [cut]
    by_cases heq : start = block.addr
    · have hbefore : ∀ b ∈ front, b.addr < (Block.mk start false).addr := heq ▸ hfront
      rw [if_pos heq, if_pos (congrArg UInt64.toNat heq), hblocks, eraseBlock_middle hfront,
        insertBlock_between _ hbefore hafter, cells_append, heq]
      rfl
    · have hne : start.toNat ≠ block.addr.toNat := fun h => heq (UInt64.toNat_inj.1 h)
      have hbefore : ∀ b ∈ front ++ [block], b.addr < (Block.mk start false).addr := by
        intro b hb
        rw [le_iff_toNat_le] at hle
        rw [mem_append, mem_singleton] at hb
        obtain hb | rfl := hb
        · have := lt_iff_toNat_lt.1 (hfront b hb)
          exact lt_iff_toNat_lt.2 (by simp only; omega)
        · exact lt_iff_toNat_lt.2 (by simp only; omega)
      rw [if_neg heq, if_neg hne, hblocks, append_cons, insertBlock_between _ hbefore hafter,
        ← append_cons, cells_append, cells, hfree]
      rfl

@[simp] theorem Allocator.addrLo_alloc (a : Allocator) (size alignment : UInt64) :
    (a.alloc size alignment).2.addrLo = a.addrLo := by
  rw [alloc]
  split <;> rfl

@[simp] theorem Allocator.addrHi_alloc (a : Allocator) (size alignment : UInt64) :
    (a.alloc size alignment).2.addrHi = a.addrHi := by
  rw [alloc]
  split <;> rfl

@[simp] theorem Allocator.addrLo_free (a : Allocator) (ptr : UInt64) :
    (a.free ptr).addrLo = a.addrLo := by
  rw [free]
  split
  · rfl
  · split <;> rfl

@[simp] theorem Allocator.addrHi_free (a : Allocator) (ptr : UInt64) :
    (a.free ptr).addrHi = a.addrHi := by
  rw [free]
  split
  · rfl
  · split <;> rfl

/-- A free block becomes a free cell, which is merged with its neighbours. -/
theorem free_cells {ptr : UInt64} (hptr : ptr ≠ 0) (htiles : Tiles lo hi (cells a.addrHi a.blocks))
    (h : ∃ c ∈ taken (cells a.addrHi a.blocks), c.start = ptr.toNat) :
    ∃ front stop back, cells a.addrHi a.blocks = front ++ ⟨ptr.toNat, stop, false⟩ :: back ∧
      cells a.addrHi (a.free ptr).blocks =
        mergeAll (front ++ ⟨ptr.toNat, stop, true⟩ :: back) := by
  obtain ⟨c, hc, hstart⟩ := h
  rw [mem_taken] at hc
  obtain ⟨front, block, back, hblocks, rfl⟩ := exists_block hc.1
  have hsorted := sorted_of_tiles htiles
  rw [hblocks] at hsorted
  obtain ⟨hfront, hback⟩ := sorted_middle hsorted
  obtain rfl : block.addr = ptr := UInt64.toNat_inj.1 hstart
  have hfind : ∃ found, a.blocks.find? (fun b => decide (b.addr = block.addr)) = some found := by
    rw [← Option.isSome_iff_exists, find?_isSome]
    exact ⟨block, by simp [hblocks], by simp⟩
  obtain ⟨found, hfound⟩ := hfind
  refine ⟨cells block.addr front, (blockEnd a.addrHi back).toNat, cells a.addrHi back, ?_, ?_⟩
  · have htaken : block.isFree = false := hc.2
    rw [hblocks, cells_append, cells, htaken]
  · rw [Allocator.free, if_neg hptr, hfound]
    rw [cells_consolidate, hblocks, eraseBlock_middle hfront,
      insertBlock_between ⟨block.addr, true⟩ hfront hback, cells_append, cells]

theorem toNat_availableFrom (hlow : lo ≤ hi) (htiles : Tiles lo hi (cells addrHi blocks))
    (sum : UInt64) (hsum : sum.toNat + (hi - lo) < 2 ^ 64) :
    (Allocator.availableFrom addrHi blocks sum).toNat = sum.toNat + freeSize (cells addrHi blocks) := by
  induction blocks generalizing lo sum with
  | nil => rfl
  | cons first next ih =>
    obtain ⟨hstart, hlt, htail⟩ := htiles
    have hle := htail.le
    have hsize : (blockEnd addrHi next - first.addr).toNat =
        (blockEnd addrHi next).toNat - first.addr.toNat :=
      UInt64.toNat_sub_of_le _ _ (le_iff_toNat_le.2 (Nat.le_of_lt hlt))
    rw [Allocator.availableFrom, cells]
    cases hfree : first.isFree with
    | false =>
      rw [if_neg (by simp), ih hle htail sum (by simp only at *; omega)]
      simp [freeSize]
    | true =>
      have hadd : (sum + (blockEnd addrHi next - first.addr)).toNat =
          sum.toNat + ((blockEnd addrHi next).toNat - first.addr.toNat) := by
        rw [UInt64.toNat_add]
        simp only at *
        omega
      rw [if_pos rfl, ih hle htail _ (by rw [hadd]; simp only at *; omega), hadd]
      simp [freeSize, Nat.add_assoc]

end ConstructionKit.Hal
