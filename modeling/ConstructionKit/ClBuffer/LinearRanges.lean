import ConstructionKit.ClBuffer.Arguments
import ConstructionKit.Mem.Mapping

/-! Which ranges of a buffer the entry points let through.  All of them compare a sum that may
wrap; what they check before decides for which operands it does not matter. -/

namespace ConstructionKit.ClBuffer

/-! ### Calls -/

/-- The validation of a linear range by one of the entry points, with the size of each buffer. -/
inductive LinearCall where
  | createSubBuffer (bufferSize origin size : UInt64)
  | enqueueMapBuffer (bufferSize offset size : UInt64)
  | enqueueReadBuffer (bufferSize offset size : UInt64) (ptr : Nat)
  | enqueueWriteBuffer (bufferSize offset size : UInt64) (ptr : Nat)
  | enqueueFillBuffer (bufferSize offset size : UInt64)
  | enqueueCopyBuffer (srcSize dstSize srcOffset dstOffset size : UInt64)
deriving DecidableEq, Repr

namespace LinearCall

def validate : LinearCall → Except Code Unit
  | createSubBuffer bufferSize origin size => createSubBufferRange bufferSize origin size
  | enqueueMapBuffer bufferSize offset size => enqueueMapBufferRange bufferSize offset size
  | enqueueReadBuffer bufferSize offset size ptr => transferRange bufferSize offset size ptr
  | enqueueWriteBuffer bufferSize offset size ptr => transferRange bufferSize offset size ptr
  | enqueueFillBuffer bufferSize offset size => fillBufferRange bufferSize offset size
  | enqueueCopyBuffer srcSize dstSize srcOffset dstOffset size =>
    copyBufferRange srcSize dstSize srcOffset dstOffset size

/-- The range of a call, or each of the two, ends in its buffer. -/
def InRange : LinearCall → Prop
  | createSubBuffer bufferSize origin size => origin.toNat + size.toNat ≤ bufferSize.toNat
  | enqueueMapBuffer bufferSize offset size => offset.toNat + size.toNat ≤ bufferSize.toNat
  | enqueueReadBuffer bufferSize offset size _ => offset.toNat + size.toNat ≤ bufferSize.toNat
  | enqueueWriteBuffer bufferSize offset size _ => offset.toNat + size.toNat ≤ bufferSize.toNat
  | enqueueFillBuffer bufferSize offset size => offset.toNat + size.toNat ≤ bufferSize.toNat
  | enqueueCopyBuffer srcSize dstSize srcOffset dstOffset size =>
    srcOffset.toNat + size.toNat ≤ srcSize.toNat ∧ dstOffset.toNat + size.toNat ≤ dstSize.toNat

instance : (call : LinearCall) → Decidable call.InRange
  | createSubBuffer _ _ _ | enqueueMapBuffer _ _ _ | enqueueReadBuffer _ _ _ _
  | enqueueWriteBuffer _ _ _ _ | enqueueFillBuffer _ _ _ => inferInstanceAs (Decidable (_ ≤ _))
  | enqueueCopyBuffer _ _ _ _ _ => inferInstanceAs (Decidable (_ ∧ _))

end LinearCall

/-! ### Sums that wrap -/

/-- The sum of a range is below `2^64`, or what is left of it is behind the buffer. -/
def SumRefused (bufferSize offset size : UInt64) : Prop :=
  offset.toNat + size.toNat < 2 ^ 64 ∨ bufferSize.toNat + 2 ^ 64 < offset.toNat + size.toNat

/-- The sum of a range is below `2^64`, or the range starts behind the buffer. -/
def StartRefused (bufferSize offset size : UInt64) : Prop :=
  offset.toNat + size.toNat < 2 ^ 64 ∨ bufferSize.toNat < offset.toNat

/-- The bounds that the range of a copy has to keep before its sum is looked at. -/
def CopyBounded (bufferSize offset size : UInt64) : Prop :=
  offset.toNat ≤ bufferSize.toNat ∧ size.toNat ≤ bufferSize.toNat

/-- What each entry point needs.  A range whose sum wraps passes the checks of a copy only if the
other range of the copy does. -/
def LinearCall.Handled : LinearCall → Prop
  | createSubBuffer bufferSize origin size => SumRefused bufferSize origin size
  | enqueueMapBuffer bufferSize offset size => StartRefused bufferSize offset size
  | enqueueReadBuffer bufferSize offset size ptr => SumRefused bufferSize offset size ∨ ptr = 0
  | enqueueWriteBuffer bufferSize offset size ptr => SumRefused bufferSize offset size ∨ ptr = 0
  | enqueueFillBuffer bufferSize offset size => StartRefused bufferSize offset size
  | enqueueCopyBuffer srcSize dstSize srcOffset dstOffset size =>
    CopyBounded srcSize srcOffset size → CopyBounded dstSize dstOffset size →
      (srcOffset.toNat + size.toNat < 2 ^ 64 ∧ dstOffset.toNat + size.toNat < 2 ^ 64) ∨
      (srcSize.toNat < srcOffset.toNat + size.toNat ∧ srcOffset.toNat + size.toNat < 2 ^ 64) ∨
      (dstSize.toNat < dstOffset.toNat + size.toNat ∧ dstOffset.toNat + size.toNat < 2 ^ 64)

variable (bufferSize offset size : UInt64)

/-- A wrapped sum is compared with the size of a buffer. -/
theorem not_add_gt_iff :
    ¬offset + size > bufferSize ↔
      (offset.toNat + size.toNat < 2 ^ 64 ∧ offset.toNat + size.toNat ≤ bufferSize.toNat) ∨
      (2 ^ 64 ≤ offset.toNat + size.toNat ∧
        offset.toNat + size.toNat ≤ bufferSize.toNat + 2 ^ 64) := by
  have hoffset := offset.toNat_lt
  have hsize := size.toNat_lt
  rw [UInt64.not_lt, UInt64.le_iff_toNat_le, UInt64.toNat_add]
  omega

theorem zero_eq_iff (size : UInt64) : 0 = size ↔ size.toNat = 0 := by
  rw [eq_comm, ← UInt64.toNat_inj, UInt64.toNat_zero]

theorem createSubBufferRange_sound_iff (bufferSize origin size : UInt64) :
    (createSubBufferRange bufferSize origin size = .ok () →
      origin.toNat + size.toNat ≤ bufferSize.toNat) ↔ SumRefused bufferSize origin size := by
  have horigin := origin.toNat_lt
  have hbuffer := bufferSize.toNat_lt
  rw [createSubBufferRange, oclCheck_bind_eq_ok_iff, oclCheck_eq_ok_iff, not_add_gt_iff,
    zero_eq_iff, SumRefused]
  omega

theorem transferRange_sound_iff (ptr : Nat) :
    (transferRange bufferSize offset size ptr = .ok () →
      offset.toNat + size.toNat ≤ bufferSize.toNat) ↔
        SumRefused bufferSize offset size ∨ ptr = 0 := by
  have hoffset := offset.toNat_lt
  have hbuffer := bufferSize.toNat_lt
  have hsum := not_add_gt_iff bufferSize offset size
  rw [transferRange, oclCheck_bind_eq_ok_iff, oclCheck_bind_eq_ok_iff, oclCheck_eq_ok_iff, hsum,
    zero_eq_iff, SumRefused]
  omega

/-- A range that starts in the buffer and whose sum wraps ends, wrapped, before its start. -/
theorem enqueueMapBufferRange_sound_iff :
    (enqueueMapBufferRange bufferSize offset size = .ok () →
      offset.toNat + size.toNat ≤ bufferSize.toNat) ↔ StartRefused bufferSize offset size := by
  have hsize := size.toNat_lt
  have hbuffer := bufferSize.toNat_lt
  rw [enqueueMapBufferRange, oclCheck_bind_eq_ok_iff, oclCheck_bind_eq_ok_iff, oclCheck_eq_ok_iff,
    not_add_gt_iff, zero_eq_iff, gt_iff_lt, UInt64.lt_iff_toNat_lt, StartRefused]
  omega

theorem fillBufferRange_sound_iff :
    (fillBufferRange bufferSize offset size = .ok () →
      offset.toNat + size.toNat ≤ bufferSize.toNat) ↔ StartRefused bufferSize offset size := by
  have hsize := size.toNat_lt
  have hbuffer := bufferSize.toNat_lt
  rw [fillBufferRange, oclCheck_bind_eq_ok_iff, oclCheck_eq_ok_iff, not_add_gt_iff, gt_iff_lt,
    UInt64.lt_iff_toNat_lt, StartRefused]
  omega

theorem copyBufferRange_eq_ok_iff (srcSize dstSize srcOffset dstOffset size : UInt64) :
    copyBufferRange srcSize dstSize srcOffset dstOffset size = .ok () ↔
      CopyBounded srcSize srcOffset size ∧ CopyBounded dstSize dstOffset size ∧
      (srcOffset.toNat + size.toNat ≤ srcSize.toNat ∨
        2 ^ 64 ≤ srcOffset.toNat + size.toNat) ∧
      (dstOffset.toNat + size.toNat ≤ dstSize.toNat ∨
        2 ^ 64 ≤ dstOffset.toNat + size.toNat) ∧ 0 < size.toNat := by
  have hsize := size.toNat_lt
  simp only [copyBufferRange, oclCheck_bind_eq_ok_iff, oclCheck_eq_ok_iff, not_add_gt_iff]
  simp only [UInt64.lt_iff_toNat_lt, ← UInt64.toNat_inj, UInt64.toNat_zero, CopyBounded]
  omega

theorem copyBufferRange_sound_iff (srcSize dstSize srcOffset dstOffset size : UInt64) :
    (copyBufferRange srcSize dstSize srcOffset dstOffset size = .ok () →
      srcOffset.toNat + size.toNat ≤ srcSize.toNat ∧
        dstOffset.toNat + size.toNat ≤ dstSize.toNat) ↔
      (LinearCall.enqueueCopyBuffer srcSize dstSize srcOffset dstOffset size).Handled := by
  have hsrc := srcSize.toNat_lt
  have hdst := dstSize.toNat_lt
  rw [copyBufferRange_eq_ok_iff, LinearCall.Handled, CopyBounded, CopyBounded]
  omega

/-- In buffers below `2^63` bytes, a copy lets exactly the ranges through that are inside. -/
theorem copyBufferRange_exact {srcSize dstSize srcOffset dstOffset size : UInt64}
    (hsrc : srcSize.toNat < 2 ^ 63) (hdst : dstSize.toNat < 2 ^ 63) :
    copyBufferRange srcSize dstSize srcOffset dstOffset size = .ok () ↔
      srcOffset.toNat + size.toNat ≤ srcSize.toNat ∧
        dstOffset.toNat + size.toNat ≤ dstSize.toNat ∧ 0 < size.toNat := by
  rw [copyBufferRange_eq_ok_iff, CopyBounded, CopyBounded]
  omega

/-- An entry point lets only ranges through that end in the buffer if and only if the sums that
wrap are refused for another reason. -/
theorem linear_ranges_sound_iff (call : LinearCall) :
    (call.validate = .ok () → call.InRange) ↔ call.Handled := by
  cases call with
  | createSubBuffer bufferSize origin size =>
    exact createSubBufferRange_sound_iff bufferSize origin size
  | enqueueMapBuffer bufferSize offset size =>
    exact enqueueMapBufferRange_sound_iff bufferSize offset size
  | enqueueReadBuffer bufferSize offset size ptr | enqueueWriteBuffer bufferSize offset size ptr =>
    exact transferRange_sound_iff bufferSize offset size ptr
  | enqueueFillBuffer bufferSize offset size =>
    exact fillBufferRange_sound_iff bufferSize offset size
  | enqueueCopyBuffer srcSize dstSize srcOffset dstOffset size =>
    exact copyBufferRange_sound_iff srcSize dstSize srcOffset dstOffset size

/-- In a buffer of 64 bytes, and for a copy in two of `2^63`, each entry point lets a range through
that ends `2^64` bytes behind the start of the buffer. -/
theorem linear_ranges_unsound :
    ¬∃ call ∈ [LinearCall.createSubBuffer 64 (2 ^ 64 - 32) 32,
        .enqueueMapBuffer 64 32 (2 ^ 64 - 32), .enqueueReadBuffer 64 (2 ^ 64 - 32) 32 1,
        .enqueueWriteBuffer 64 (2 ^ 64 - 32) 32 1, .enqueueFillBuffer 64 32 (2 ^ 64 - 32),
        .enqueueCopyBuffer (2 ^ 63) (2 ^ 63) (2 ^ 63) (2 ^ 63) (2 ^ 63)],
      call.validate = .ok () → call.InRange := by
  decide +kernel

/-! ### The entry points -/

theorem range_of_checkMapArguments {ι : Type} {family : Mem.Family ι} {buffer : Mem.MemObject ι}
    {mapFlags offset size : UInt64} {access : Mem.MapAccess}
    (h : Mem.checkMapArguments family buffer mapFlags offset size = .ok access) :
    enqueueMapBufferRange (family.object buffer).size offset size = .ok () := by
  unfold Mem.checkMapArguments at h
  simp only at h
  split at h
  · cases h
  · next hstart =>
    split at h
    · cases h
    · next hsum =>
      split at h
      · cases h
      · next hzero => simp [enqueueMapBufferRange, hstart, hsum, Ne.symm hzero]

end ConstructionKit.ClBuffer
