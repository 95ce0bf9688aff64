import ConstructionKit.ClBuffer.LinearRanges
import Mathlib.Order.Interval.Set.Disjoint

/-! The overlap check of `cl::validate::CopyBufferArguments`.  The two ranges have one size, so that
looking at the ends of one of them is enough, and the case distinction on parents puts both ranges
at their places in the allocation. -/

namespace ConstructionKit.ClBuffer

open Option

/-! ### Buffers and their bytes -/

/-- Buffers, of which some are parts of others.  What a sub-buffer is part of is not a sub-buffer
itself. -/
structure Buffers where
  object : Nat → Buffer
  parent_root : ∀ {b p}, (object b).optionalParent = some p → (object p).optionalParent = none
  inside_parent : ∀ {b p}, (object b).optionalParent = some p →
    (object b).offset.toNat + (object b).size.toNat ≤ (object p).size.toNat

namespace Buffers

variable (buffers : Buffers)

/-- The buffer that has the memory. -/
def allocation (b : Nat) : Nat := (buffers.object b).optionalParent.getD b

/-- Where a buffer starts in its allocation. -/
def start (b : Nat) : Nat :=
  match (buffers.object b).optionalParent with
  | some _ => (buffers.object b).offset.toNat
  | none => 0

/-- The bytes of a range of a buffer in its allocation. -/
def bytes (b : Nat) (offset size : UInt64) : Set Nat :=
  Set.Ico (buffers.start b + offset.toNat) (buffers.start b + offset.toNat + size.toNat)

variable {buffers} {b p src dst : Nat} {offset size srcOffset dstOffset : UInt64}

theorem allocation_root (h : (buffers.object b).optionalParent = none) :
    buffers.allocation b = b := by
  rw [allocation, h, getD_none]

theorem allocation_sub (h : (buffers.object b).optionalParent = some p) :
    buffers.allocation b = p := by
  rw [allocation, h, getD_some]

theorem start_root (h : (buffers.object b).optionalParent = none) : buffers.start b = 0 := by
  rw [start, h]

theorem start_sub (h : (buffers.object b).optionalParent = some p) :
    buffers.start b = (buffers.object b).offset.toNat := by
  rw [start, h]

theorem start_add_size_le (buffers : Buffers) (b : Nat) :
    buffers.start b + (buffers.object b).size.toNat ≤
      (buffers.object (buffers.allocation b)).size.toNat := by
  cases h : (buffers.object b).optionalParent with
  | none => rw [start_root h, allocation_root h, Nat.zero_add]
  | some =>
    rw [start_sub h, allocation_sub h]
    exact buffers.inside_parent h

theorem bytes_inter_nonempty :
    (buffers.bytes src srcOffset size ∩ buffers.bytes dst dstOffset size).Nonempty ↔
      buffers.start src + srcOffset.toNat < buffers.start dst + dstOffset.toNat + size.toNat ∧
      buffers.start dst + dstOffset.toNat < buffers.start src + srcOffset.toNat + size.toNat := by
  rw [bytes, bytes, Set.Ico_inter_Ico, Set.nonempty_Ico]
  omega

end Buffers

/-! ### The check -/

/-- For two ranges of one size that do not wrap, the test of two ends is exact. -/
theorem rangesOverlap_iff {srcStart dstStart size : UInt64} (hpos : 0 < size.toNat)
    (hsrc : srcStart.toNat + size.toNat < 2 ^ 64) (hdst : dstStart.toNat + size.toNat < 2 ^ 64) :
    rangesOverlap srcStart (srcStart + size) dstStart (dstStart + size) = true ↔
      srcStart.toNat < dstStart.toNat + size.toNat ∧
        dstStart.toNat < srcStart.toNat + size.toNat := by
  have hsrcEnd : (srcStart + size).toNat = srcStart.toNat + size.toNat := by
    rw [UInt64.toNat_add, Nat.mod_eq_of_lt hsrc]
  have hdstEnd : (dstStart + size).toNat = dstStart.toNat + size.toNat := by
    rw [UInt64.toNat_add, Nat.mod_eq_of_lt hdst]
  have hlast : (dstStart + size - 1).toNat = dstStart.toNat + size.toNat - 1 := by
    rw [UInt64.toNat_sub_of_le _ _ (UInt64.le_iff_toNat_le.2 (by rw [hdstEnd]; simp; omega)),
      hdstEnd, UInt64.toNat_one]
  simp only [rangesOverlap, inRange, Bool.or_eq_true, Bool.and_eq_true,
    decide_eq_true_eq, UInt64.le_iff_toNat_le, UInt64.lt_iff_toNat_lt]
  omega

/-! ### The relations -/

variable {buffers : Buffers} {src dst p b : Nat} {srcOffset dstOffset size offset : UInt64}

/-- A range of a buffer that is below `2^63` bytes with its parent. -/
structure Placed (buffers : Buffers) (b : Nat) (offset size : UInt64) : Prop where
  small : (buffers.object (buffers.allocation b)).size.toNat < 2 ^ 63
  inside : offset.toNat + size.toNat ≤ (buffers.object b).size.toNat
  pos : 0 < size.toNat

section

variable (h : Placed buffers b offset size)
include h

theorem Placed.lt :
    buffers.start b + offset.toNat + size.toNat < 2 ^ 63 := by
  have hin := buffers.start_add_size_le b
  have hsmall := h.small
  have hinside := h.inside
  omega

theorem Placed.size_ne_zero : (buffers.object b).size ≠ 0 := by
  intro hzero
  have hinside := h.inside
  rw [hzero, UInt64.toNat_zero] at hinside
  have hpos := h.pos
  omega

theorem Placed.parent_size_ne_zero
    (hparent : (buffers.object b).optionalParent = some p) : (buffers.object p).size ≠ 0 := by
  intro hzero
  have hin := buffers.start_add_size_le b
  rw [Buffers.allocation_sub hparent, hzero, UInt64.toNat_zero] at hin
  have hinside := h.inside
  have hpos := h.pos
  omega

theorem Placed.toNat_add_offset (hparent : (buffers.object b).optionalParent = some p) :
    (offset + (buffers.object b).offset).toNat = buffers.start b + offset.toNat := by
  have hlt := h.lt
  rw [Buffers.start_sub hparent] at hlt ⊢
  rw [UInt64.toNat_add, Nat.mod_eq_of_lt (by omega), Nat.add_comm]

end

/-- What the last check of a copy looks at. -/
def OverlapFound (e : Extents) (size : UInt64) : Prop :=
  e.srcBufferSize ≠ 0 ∧ e.dstBufferSize ≠ 0 ∧
    rangesOverlap e.srcStart (e.srcStart + size) e.dstStart (e.dstStart + size)

instance (e : Extents) (size : UInt64) : Decidable (OverlapFound e size) :=
  inferInstanceAs (Decidable (_ ∧ _))

/-- Two buffers in one allocation are the same, parent and sub-buffer, or siblings. -/
theorem related_of_allocation_eq (h : buffers.allocation src = buffers.allocation dst) :
    src = dst ∨ (buffers.object dst).optionalParent = some src ∨
      (buffers.object src).optionalParent = some dst ∨
      ∃ p, (buffers.object src).optionalParent = some p ∧
        (buffers.object dst).optionalParent = some p := by
  rw [Buffers.allocation, Buffers.allocation] at h
  cases hsrc : (buffers.object src).optionalParent with
  | none =>
    cases hdst : (buffers.object dst).optionalParent with
    | none => exact .inl (by simpa [hsrc, hdst] using h)
    | some => exact .inr (.inl (by simpa [hsrc, hdst] using h.symm))
  | some q =>
    cases hdst : (buffers.object dst).optionalParent with
    | none => exact .inr (.inr (.inl (by simpa [hsrc, hdst] using h)))
    | some r =>
      obtain rfl : q = r := by simpa [hsrc, hdst] using h
      exact .inr (.inr (.inr ⟨q, rfl, rfl⟩))

/-- In each of the relations, the check compares the places of the ranges in the allocation. -/
theorem overlapFound_iff (hsrc : Placed buffers src srcOffset size)
    (hdst : Placed buffers dst dstOffset size) :
    OverlapFound (copyExtents buffers.object src dst srcOffset dstOffset) size ↔
      buffers.allocation src = buffers.allocation dst ∧
        buffers.start src + srcOffset.toNat < buffers.start dst + dstOffset.toNat + size.toNat ∧
        buffers.start dst + dstOffset.toNat < buffers.start src + srcOffset.toNat + size.toNat := by
  have hsrcLt := hsrc.lt
  have hdstLt := hdst.lt
  by_cases hsame : src = dst
  · subst hsame
    rw [copyExtents, if_pos rfl, OverlapFound]
    simp only [ne_eq, hsrc.size_ne_zero, not_false_eq_true, true_and]
    rw [rangesOverlap_iff hsrc.pos (by omega) (by omega)]
    omega
  by_cases hsub : (buffers.object dst).optionalParent = some src
  · have hroot := buffers.parent_root hsub
    rw [copyExtents, if_neg hsame, if_pos hsub, OverlapFound, Buffers.allocation_root hroot,
      Buffers.allocation_sub hsub, Buffers.start_root hroot]
    simp only [hsub, map_some, getD_some, ne_eq, hsrc.size_ne_zero,
      not_false_eq_true, true_and]
    rw [rangesOverlap_iff hsrc.pos (by omega) (by rw [hdst.toNat_add_offset hsub]; omega),
      hdst.toNat_add_offset hsub]
    omega
  by_cases hsuper : (buffers.object src).optionalParent = some dst
  · have hroot := buffers.parent_root hsuper
    rw [copyExtents, if_neg hsame, if_neg hsub, if_pos hsuper, OverlapFound,
      Buffers.allocation_root hroot, Buffers.allocation_sub hsuper, Buffers.start_root hroot]
    simp only [hsuper, map_some, getD_some, ne_eq, hdst.size_ne_zero,
      not_false_eq_true, true_and]
    rw [rangesOverlap_iff hsrc.pos (by rw [hsrc.toNat_add_offset hsuper]; omega) (by omega),
      hsrc.toNat_add_offset hsuper]
    omega
  by_cases hsiblings : ∃ p, (buffers.object src).optionalParent = some p ∧
      (buffers.object dst).optionalParent = some p
  · obtain ⟨p, hp, hp'⟩ := hsiblings
    rw [copyExtents, if_neg hsame, if_neg hsub, if_neg hsuper, if_pos (by simp [hp, hp']),
      OverlapFound, Buffers.allocation_sub hp, Buffers.allocation_sub hp']
    simp only [hp, hp', map_some, getD_some, ne_eq, hsrc.parent_size_ne_zero hp,
      not_false_eq_true, true_and]
    rw [rangesOverlap_iff hsrc.pos (by rw [hsrc.toNat_add_offset hp]; omega)
      (by rw [hdst.toNat_add_offset hp']; omega), hsrc.toNat_add_offset hp,
      hdst.toNat_add_offset hp']
  · -- unrelated buffers: the sizes are left at 0, and the allocations differ
    have hunrelated : ¬((buffers.object src).optionalParent.isSome ∧
        (buffers.object dst).optionalParent.isSome ∧
        (buffers.object src).optionalParent = (buffers.object dst).optionalParent) := by
      rintro ⟨hsome, -, heq⟩
      obtain ⟨p, hp⟩ := isSome_iff_exists.1 hsome
      exact hsiblings ⟨p, hp, heq ▸ hp⟩
    rw [copyExtents, if_neg hsame, if_neg hsub, if_neg hsuper, if_neg hunrelated]
    refine iff_of_false (fun h => h.1 rfl) fun h => ?_
    obtain h | h | h | h := related_of_allocation_eq h.1
    exacts [hsame h, hsub h, hsuper h, hsiblings h]

/-- A buffer of 64 bytes, and its sub-buffers of the first 48 and of the last 32 bytes. -/
def smallBuffers : Buffers where
  object
    | 1 => ⟨0, 0, 48, some 0, 0⟩
    | 2 => ⟨0, 0, 32, some 0, 32⟩
    | _ => ⟨0, 0, 64, none, 0⟩
  parent_root := by
    intro b p h
    split at h <;> cases h <;> rfl
  inside_parent := by
    intro b p h
    split at h <;> cases h <;> decide

theorem smallBuffers_lt (b : Nat) : (smallBuffers.object b).size.toNat < 2 ^ 63 := by
  simp only [smallBuffers]
  split <;> decide

end ConstructionKit.ClBuffer
