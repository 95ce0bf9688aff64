import ConstructionKit.ClBuffer.Arguments
import Mathlib.Data.Fin.VecNotation
import Mathlib.Tactic.Ring

/-! Which rectangular regions of a buffer the entry points let through.  Beside the end of the last
row, they compare products of origins and regions and the pitches with the size of the buffer,
which the end does not bound; and all of it wraps. -/

namespace ConstructionKit.ClBuffer

open UInt64

/-! ### Regions over the natural numbers -/

/-- Where the last row of a region ends. -/
def lastByte (origin region : Triple) (pitches : Pitches) : Nat :=
  ((origin 2).toNat + (region 2).toNat - 1) * pitches.slice.toNat +
    ((origin 1).toNat + (region 1).toNat - 1) * pitches.row.toNat +
    ((origin 0).toNat + (region 0).toNat)

def naturalVolume (sides : Fin 3 → Nat) : Nat := sides 0 * sides 1 * sides 2

/-- A region that is not empty. -/
def Occupied (region : Triple) : Prop :=
  0 < (region 0).toNat ∧ 0 < (region 1).toNat ∧ 0 < (region 2).toNat

/-- The conditions on a row and a slice pitch. -/
def PitchesFit (region : Triple) (pitches : Pitches) : Prop :=
  (region 0).toNat ≤ pitches.row.toNat ∧
    (region 1).toNat * pitches.row.toNat ≤ pitches.slice.toNat ∧
    pitches.slice.toNat % pitches.row.toNat = 0

/-- A region that has a last byte, which is in the buffer. -/
def InBounds (bufferSize : UInt64) (origin region : Triple) (pitches : Pitches) : Prop :=
  Occupied region ∧ lastByte origin region pitches ≤ bufferSize.toNat

instance (region : Triple) (pitches : Pitches) : Decidable (PitchesFit region pitches) :=
  inferInstanceAs (Decidable (_ ∧ _))

instance (region : Triple) : Decidable (Occupied region) := inferInstanceAs (Decidable (_ ∧ _))

instance (bufferSize : UInt64) (origin region : Triple) (pitches : Pitches) :
    Decidable (InBounds bufferSize origin region pitches) := inferInstanceAs (Decidable (_ ∧ _))

/-! ### Words -/

theorem toNat_volume (sides : Triple) :
    (volume sides).toNat = naturalVolume (fun i => (sides i).toNat) % 2 ^ 64 := by
  simp [volume, naturalVolume]

theorem toNat_volume_add (origin region : Triple) :
    (volume (origin + region)).toNat =
      naturalVolume (fun i => (origin i).toNat + (region i).toNat) % 2 ^ 64 := by
  simp [volume, naturalVolume]

theorem add_sub_one_eq_ofNat {a b : UInt64} (h : 0 < b.toNat) :
    a + b - 1 = UInt64.ofNat (a.toNat + b.toNat - 1) := by
  apply UInt64.toNat_inj.1
  rw [toNat_ofNat', UInt64.toNat_sub, UInt64.toNat_add, toNat_one]
  omega

theorem toNat_rectEnd {origin region : Triple} (h : Occupied region) (pitches : Pitches) :
    (rectEnd origin region pitches).toNat = lastByte origin region pitches % 2 ^ 64 := by
  have hword : rectEnd origin region pitches = UInt64.ofNat (lastByte origin region pitches) := by
    rw [rectEnd, lastByte, add_sub_one_eq_ofNat h.2.2, add_sub_one_eq_ofNat h.2.1,
      ofNat_add, ofNat_add, ofNat_add, ofNat_mul, ofNat_mul]
    simp only [UInt64.ofNat_toNat]
  rw [hword, toNat_ofNat']

/-! ### What the end of the last row bounds -/

/-- A region is not larger than what it spans. -/
theorem volume_le_lastByte {region : Triple} (hregion : Occupied region) {pitches : Pitches}
    (hpitches : PitchesFit region pitches) (origin : Triple) :
    naturalVolume (fun i => (region i).toNat) ≤ lastByte origin region pitches := by
  obtain ⟨hr0, hr1, hr2⟩ := hregion
  obtain ⟨hrow, hslice, -⟩ := hpitches
  simp only [naturalVolume, lastByte]
  generalize (region 0).toNat = r₀ at *
  generalize (region 1).toNat = r₁ at *
  generalize (region 2).toNat = r₂ at *
  obtain ⟨r₁, rfl⟩ := Nat.exists_eq_succ_of_ne_zero hr1.ne'
  obtain ⟨r₂, rfl⟩ := Nat.exists_eq_succ_of_ne_zero hr2.ne'
  have hslices : r₂ * ((r₁ + 1) * r₀) ≤ ((origin 2).toNat + r₂) * pitches.slice.toNat :=
    Nat.mul_le_mul (by omega) ((Nat.mul_le_mul_left _ hrow).trans hslice)
  have hrows : r₁ * r₀ ≤ ((origin 1).toNat + r₁) * pitches.row.toNat :=
    Nat.mul_le_mul (by omega) hrow
  have hsplit : r₀ * (r₁ + 1) * (r₂ + 1) = r₂ * ((r₁ + 1) * r₀) + r₁ * r₀ + r₀ := by ring
  simp only [Nat.succ_eq_add_one, ← Nat.add_assoc, Nat.add_sub_cancel]
  omega

/-! ### Calls -/

/-- The validation of a region by one of the entry points, with the size of each buffer and the
pitches that are given. -/
inductive RectCall where
  | enqueueReadBufferRect (bufferSize : UInt64) (origin region : Triple) (buffer host : Pitches)
  | enqueueWriteBufferRect (bufferSize : UInt64) (origin region : Triple) (buffer host : Pitches)
  | enqueueCopyBufferRect (srcSize dstSize : UInt64) (srcOrigin dstOrigin region : Triple)
      (src dst : Pitches)

namespace RectCall

def validate : RectCall → Except Code Unit
  | enqueueReadBufferRect bufferSize origin region buffer host
  | enqueueWriteBufferRect bufferSize origin region buffer host =>
    transferRectBounds bufferSize origin region (buffer.orDefault region) (host.orDefault region)
  | enqueueCopyBufferRect srcSize dstSize srcOrigin dstOrigin region src dst =>
    copyRectBounds srcSize dstSize srcOrigin dstOrigin region (src.orDefault region)
      (dst.orDefault region)

/-- Both row and slice pitches of a call fit its region. -/
def PitchesFit : RectCall → Prop
  | enqueueReadBufferRect _ _ region buffer host | enqueueWriteBufferRect _ _ region buffer host =>
    ClBuffer.PitchesFit region (buffer.orDefault region) ∧
      ClBuffer.PitchesFit region (host.orDefault region)
  | enqueueCopyBufferRect _ _ _ _ region src dst =>
    ClBuffer.PitchesFit region (src.orDefault region) ∧
      ClBuffer.PitchesFit region (dst.orDefault region)

/-- The region of a call is in its buffer, or in both. -/
def InBounds : RectCall → Prop
  | enqueueReadBufferRect bufferSize origin region buffer _
  | enqueueWriteBufferRect bufferSize origin region buffer _ =>
    ClBuffer.InBounds bufferSize origin region (buffer.orDefault region)
  | enqueueCopyBufferRect srcSize dstSize srcOrigin dstOrigin region src dst =>
    ClBuffer.InBounds srcSize srcOrigin region (src.orDefault region) ∧
      ClBuffer.InBounds dstSize dstOrigin region (dst.orDefault region)

instance : (call : RectCall) → Decidable call.PitchesFit
  | enqueueReadBufferRect .. | enqueueWriteBufferRect .. | enqueueCopyBufferRect .. =>
    inferInstanceAs (Decidable (_ ∧ _))

instance : (call : RectCall) → Decidable call.InBounds
  | enqueueReadBufferRect .. | enqueueWriteBufferRect .. =>
    inferInstanceAs (Decidable (ClBuffer.InBounds _ _ _ _))
  | enqueueCopyBufferRect .. => inferInstanceAs (Decidable (_ ∧ _))

/-- Where the pitches fit, the calls that pass are those with a region in the buffer; where they do
not, no call passes. -/
def Exact (call : RectCall) : Prop :=
  (call.PitchesFit → (call.validate = .ok () ↔ call.InBounds)) ∧
    (¬call.PitchesFit → call.validate ≠ .ok ())

instance (call : RectCall) : Decidable call.Exact := inferInstanceAs (Decidable (_ ∧ _))

theorem exact_iff (call : RectCall) :
    call.Exact ↔ (call.validate = .ok () ↔ call.PitchesFit ∧ call.InBounds) := by
  rw [Exact]
  tauto

end RectCall

/-! ### What the checks compare -/

/-- A value, modulo `2^64`, is compared with the size of a buffer. -/
def Within (bufferSize : UInt64) (value : Nat) : Prop := value % 2 ^ 64 ≤ bufferSize.toNat

instance (bufferSize : UInt64) (value : Nat) : Decidable (Within bufferSize value) :=
  inferInstanceAs (Decidable (_ ≤ _))

/-- What the checks of the pitches let through. -/
def PitchesPass (region : Triple) (pitches : Pitches) : Prop :=
  (region 0).toNat ≤ pitches.row.toNat ∧
    (pitches.slice.toNat = 0 ∨
      (region 1).toNat * pitches.row.toNat % 2 ^ 64 ≤ pitches.slice.toNat ∧
      pitches.slice.toNat % pitches.row.toNat = 0)

instance (region : Triple) (pitches : Pitches) : Decidable (PitchesPass region pitches) :=
  inferInstanceAs (Decidable (_ ∧ _))

/-- Limits for reading and writing that the end of the last row does not imply. -/
def TransferLimits (bufferSize : UInt64) (origin region : Triple) (pitches : Pitches) : Prop :=
  Within bufferSize (naturalVolume fun i => (origin i).toNat) ∧
    Within bufferSize (naturalVolume fun i => (origin i).toNat + (region i).toNat) ∧
    pitches.row.toNat ≤ bufferSize.toNat ∧ pitches.slice.toNat ≤ bufferSize.toNat

/-- Limits for a copy that the end of the last row does not imply. -/
def CopyLimits (bufferSize : UInt64) (origin region : Triple) : Prop :=
  Within bufferSize (naturalVolume fun i => (origin i).toNat + (region i).toNat)

/-- What the checks have in common: the region and the end of its last row. -/
def EndPasses (bufferSize : UInt64) (origin region : Triple) (pitches : Pitches) : Prop :=
  Within bufferSize (naturalVolume fun i => (region i).toNat) ∧
    Within bufferSize (lastByte origin region pitches) ∧ PitchesPass region pitches

section

variable {bufferSize srcSize dstSize : UInt64} {origin srcOrigin dstOrigin region : Triple}
  {buffer host src dst pitches : Pitches}

theorem within_iff_le {word : UInt64} {value : Nat} (h : word.toNat = value % 2 ^ 64) :
    ¬word > bufferSize ↔ Within bufferSize value := by
  rw [UInt64.not_lt, le_iff_toNat_le, h, Within]

theorem eq_zero_iff (a : UInt64) : a = 0 ↔ a.toNat = 0 := by
  rw [← UInt64.toNat_inj, UInt64.toNat_zero]

theorem toNat_ne_zero_iff (a : UInt64) : a.toNat ≠ 0 ↔ a ≠ 0 := (eq_zero_iff a).symm.not

theorem not_empty_iff : ¬(region 0 = 0 ∨ region 1 = 0 ∨ region 2 = 0) ↔ Occupied region := by
  simp only [eq_zero_iff, Occupied]
  omega

theorem pitchesPass_iff (hrow : pitches.row ≠ 0) :
    (¬(pitches.row ≠ 0 ∧ pitches.row < region 0) ∧
      ¬(pitches.slice ≠ 0 ∧ pitches.slice < region 1 * pitches.row) ∧
      ¬(pitches.slice ≠ 0 ∧ pitches.slice % pitches.row ≠ 0)) ↔ PitchesPass region pitches := by
  rw [ne_eq, eq_zero_iff] at hrow
  simp only [ne_eq, eq_zero_iff, lt_iff_toNat_lt, UInt64.toNat_mul, UInt64.toNat_mod,
    PitchesPass]
  omega

theorem orDefault_row_ne_zero (hregion : Occupied region) (pitches : Pitches) :
    (pitches.orDefault region).row ≠ 0 := by
  simp only [Pitches.orDefault]
  split
  · rw [ne_eq, eq_zero_iff]
    exact hregion.1.ne'
  · assumption

theorem transferRectBounds_eq_ok_iff :
    transferRectBounds bufferSize origin region (buffer.orDefault region)
        (host.orDefault region) = .ok () ↔
      Occupied region ∧ EndPasses bufferSize origin region (buffer.orDefault region) ∧
      TransferLimits bufferSize origin region (buffer.orDefault region) ∧
      PitchesPass region (host.orDefault region) := by
  simp only [transferRectBounds, oclCheck_bind_eq_ok_iff, oclCheck_eq_ok_iff, not_empty_iff]
  refine and_congr_right fun hregion => ?_
  rw [within_iff_le (toNat_volume region), within_iff_le (toNat_volume origin),
    within_iff_le (toNat_volume_add origin region), within_iff_le (toNat_rectEnd hregion _),
    UInt64.not_lt, UInt64.not_lt,
    EndPasses, ← pitchesPass_iff (orDefault_row_ne_zero hregion buffer),
    ← pitchesPass_iff (orDefault_row_ne_zero hregion host)]
  constructor
  · rintro ⟨hvolume, horigin, hsum, hend, hrow, hslice, hb, hh, hb', hb'', hh', hh''⟩
    exact ⟨⟨hvolume, hend, hb, hb', hb''⟩, ⟨horigin, hsum, hrow, hslice⟩, hh, hh', hh''⟩
  · rintro ⟨⟨hvolume, hend, hb, hb', hb''⟩, ⟨horigin, hsum, hrow, hslice⟩, hh, hh', hh''⟩
    exact ⟨hvolume, horigin, hsum, hend, hrow, hslice, hb, hh, hb', hb'', hh', hh''⟩

theorem copyRectBounds_eq_ok_iff :
    copyRectBounds srcSize dstSize srcOrigin dstOrigin region (src.orDefault region)
        (dst.orDefault region) = .ok () ↔
      Occupied region ∧
      ((src.orDefault region).slice.toNat ≠ 0 ∧ (dst.orDefault region).slice.toNat ≠ 0) ∧
      (EndPasses srcSize srcOrigin region (src.orDefault region) ∧
        CopyLimits srcSize srcOrigin region) ∧
      EndPasses dstSize dstOrigin region (dst.orDefault region) ∧
        CopyLimits dstSize dstOrigin region := by
  simp only [copyRectBounds, oclCheck_bind_eq_ok_iff, oclCheck_eq_ok_iff, not_empty_iff]
  refine and_congr_right fun hregion => ?_
  have hsrc := orDefault_row_ne_zero hregion src
  have hdst := orDefault_row_ne_zero hregion dst
  rw [within_iff_le (toNat_volume region), within_iff_le (toNat_volume region),
    within_iff_le (toNat_volume_add srcOrigin region),
    within_iff_le (toNat_volume_add dstOrigin region), within_iff_le (toNat_rectEnd hregion _),
    within_iff_le (toNat_rectEnd hregion _), EndPasses, EndPasses, ← pitchesPass_iff hsrc, ← pitchesPass_iff hdst, toNat_ne_zero_iff, toNat_ne_zero_iff]
  constructor
  · rintro ⟨hzero, hs, hd, hsv, hdv, hss, hds, hsp, hdp, hsp', hdp', hsp'', hdp''⟩
    exact ⟨⟨fun h => hzero (.inr (.inl h)), fun h => hzero (.inr (.inr (.inr h)))⟩,
      ⟨⟨hsv, hs, hsp, hsp', hsp''⟩, hss⟩, ⟨hdv, hd, hdp, hdp', hdp''⟩, hds⟩
  · rintro ⟨⟨hsz, hdz⟩, ⟨⟨hsv, hs, hsp, hsp', hsp''⟩, hss⟩, ⟨hdv, hd, hdp, hdp', hdp''⟩, hds⟩
    refine ⟨?_, hs, hd, hsv, hdv, hss, hds, hsp, hdp, hsp', hdp', hsp'', hdp''⟩
    rintro (h | h | h | h)
    exacts [hsrc h, hsz h, hdst h, hdz h]

/-! ### Values that wrap -/

/-- The end of the last row of a region, or the product that its slice pitch is compared with, is
`2^64` or more. -/
def EndWraps (origin region : Triple) (pitches : Pitches) : Prop :=
  2 ^ 64 ≤ lastByte origin region pitches ∨ 2 ^ 64 ≤ (region 1).toNat * pitches.row.toNat

/-- A slice pitch of 0 is left only by a product that wraps. -/
theorem orDefault_slice_ne_zero (hregion : Occupied region)
    (hproduct : (region 1).toNat * (pitches.orDefault region).row.toNat < 2 ^ 64) :
    (pitches.orDefault region).slice.toNat ≠ 0 := by
  have hrow := orDefault_row_ne_zero hregion pitches
  rw [ne_eq, eq_zero_iff] at hrow
  have hpos := Nat.mul_pos hregion.2.1 (Nat.pos_of_ne_zero hrow)
  have hslice : (pitches.orDefault region).slice =
      if pitches.slice = 0 then region 1 * (pitches.orDefault region).row else pitches.slice := rfl
  rw [hslice]
  split
  · rw [UInt64.toNat_mul]
    omega
  · next h => rwa [eq_zero_iff] at h

/-- Where the product does not wrap, the checks of the pitches are exact. -/
theorem pitchesPass_iff_fit (hregion : Occupied region)
    (hproduct : (region 1).toNat * (pitches.orDefault region).row.toNat < 2 ^ 64) :
    PitchesPass region (pitches.orDefault region) ↔
      PitchesFit region (pitches.orDefault region) := by
  have hslice := orDefault_slice_ne_zero hregion hproduct
  rw [PitchesPass, PitchesFit, Nat.mod_eq_of_lt hproduct]
  tauto

theorem PitchesFit.product_lt (h : PitchesFit region pitches) :
    (region 1).toNat * pitches.row.toNat < 2 ^ 64 :=
  h.2.1.trans_lt pitches.slice.toNat_lt

theorem not_endWraps (hfit : PitchesFit region pitches)
    (hin : InBounds bufferSize origin region pitches) : ¬EndWraps origin region pitches := by
  have hlast := hin.2.trans_lt bufferSize.toNat_lt
  have hproduct := hfit.product_lt
  rw [EndWraps]
  omega

/-- Where nothing wraps, a region passes what the checks have in common if and only if it is in the
buffer and its pitches fit: the check of its volume follows. -/
theorem endPasses_iff (hregion : Occupied region)
    (hwraps : ¬EndWraps origin region (pitches.orDefault region)) :
    EndPasses bufferSize origin region (pitches.orDefault region) ↔
      PitchesFit region (pitches.orDefault region) ∧
        InBounds bufferSize origin region (pitches.orDefault region) := by
  rw [EndWraps, not_or, not_le, not_le] at hwraps
  rw [EndPasses, pitchesPass_iff_fit hregion hwraps.2, Within, Within,
    Nat.mod_eq_of_lt hwraps.1]
  constructor
  · rintro ⟨-, hend, hfit⟩
    exact ⟨hfit, hregion, hend⟩
  · rintro ⟨hfit, -, hend⟩
    have hvolume := volume_le_lastByte hregion hfit origin
    exact ⟨(Nat.mod_le _ _).trans (hvolume.trans hend), hend, hfit⟩

end

/-! ### When the checks are exact -/

namespace RectCall

/-- A value that a call compares is `2^64` or more. -/
def Wraps : RectCall → Prop
  | enqueueReadBufferRect _ origin region buffer host
  | enqueueWriteBufferRect _ origin region buffer host =>
    EndWraps origin region (buffer.orDefault region) ∨
      2 ^ 64 ≤ (region 1).toNat * (host.orDefault region).row.toNat
  | enqueueCopyBufferRect _ _ srcOrigin dstOrigin region src dst =>
    EndWraps srcOrigin region (src.orDefault region) ∨
      EndWraps dstOrigin region (dst.orDefault region)

/-- The further limits of a call. -/
def Limits : RectCall → Prop
  | enqueueReadBufferRect bufferSize origin region buffer _
  | enqueueWriteBufferRect bufferSize origin region buffer _ =>
    TransferLimits bufferSize origin region (buffer.orDefault region)
  | enqueueCopyBufferRect srcSize dstSize srcOrigin dstOrigin region _ _ =>
    CopyLimits srcSize srcOrigin region ∧ CopyLimits dstSize dstOrigin region

/-- One of the values that a call compares, modulo `2^64`, is refused. -/
def Refused : RectCall → Prop
  | enqueueReadBufferRect bufferSize origin region buffer host
  | enqueueWriteBufferRect bufferSize origin region buffer host =>
    ¬Occupied region ∨ ¬EndPasses bufferSize origin region (buffer.orDefault region) ∨
      ¬TransferLimits bufferSize origin region (buffer.orDefault region) ∨
      ¬PitchesPass region (host.orDefault region)
  | enqueueCopyBufferRect srcSize dstSize srcOrigin dstOrigin region src dst =>
    ¬Occupied region ∨ (src.orDefault region).slice.toNat = 0 ∨
      (dst.orDefault region).slice.toNat = 0 ∨
      ¬EndPasses srcSize srcOrigin region (src.orDefault region) ∨
      ¬CopyLimits srcSize srcOrigin region ∨
      ¬EndPasses dstSize dstOrigin region (dst.orDefault region) ∨
      ¬CopyLimits dstSize dstOrigin region

theorem validate_ne_ok_iff (call : RectCall) : call.validate ≠ .ok () ↔ call.Refused := by
  cases call with
  | enqueueReadBufferRect bufferSize origin region buffer host
  | enqueueWriteBufferRect =>
    rw [validate, ne_eq, transferRectBounds_eq_ok_iff, Refused]
    tauto
  | enqueueCopyBufferRect =>
    rw [validate, ne_eq, copyRectBounds_eq_ok_iff, Refused]
    tauto

/-- A call with a value that wraps has pitches that do not fit, or a region that is not in the
buffer. -/
theorem not_wraps {call : RectCall} (hfit : call.PitchesFit) (hin : call.InBounds) :
    ¬call.Wraps := by
  cases call with
  | enqueueReadBufferRect bufferSize origin region buffer host
  | enqueueWriteBufferRect =>
    rintro (h | h)
    · exact not_endWraps hfit.1 hin h
    · have hproduct := hfit.2.product_lt
      omega
  | enqueueCopyBufferRect =>
    rintro (h | h)
    · exact not_endWraps hfit.1 hin.1 h
    · exact not_endWraps hfit.2 hin.2 h

/-- Where nothing wraps, the calls that pass are those with fitting pitches, a region in the buffer
and the further limits kept. -/
theorem validate_eq_ok_iff_of_not_wraps {call : RectCall} (hwraps : ¬call.Wraps) :
    call.validate = .ok () ↔ (call.PitchesFit ∧ call.InBounds) ∧ call.Limits := by
  cases call with
  | enqueueReadBufferRect bufferSize origin region buffer host
  | enqueueWriteBufferRect =>
    rw [Wraps, not_or, not_le] at hwraps
    rw [validate, transferRectBounds_eq_ok_iff]
    constructor
    · rintro ⟨hregion, hend, hlimits, hhost⟩
      obtain ⟨hfit, hin⟩ := (endPasses_iff hregion hwraps.1).1 hend
      exact ⟨⟨⟨hfit, (pitchesPass_iff_fit hregion hwraps.2).1 hhost⟩, hin⟩, hlimits⟩
    · rintro ⟨⟨⟨hfit, hhost⟩, hin⟩, hlimits⟩
      exact ⟨hin.1, (endPasses_iff hin.1 hwraps.1).2 ⟨hfit, hin⟩, hlimits,
        (pitchesPass_iff_fit hin.1 hwraps.2).2 hhost⟩
  | enqueueCopyBufferRect =>
    rw [Wraps, not_or] at hwraps
    rw [validate, copyRectBounds_eq_ok_iff]
    constructor
    · rintro ⟨hregion, -, ⟨hsrc, hsrcLimits⟩, hdst, hdstLimits⟩
      obtain ⟨hsrcFit, hsrcIn⟩ := (endPasses_iff hregion hwraps.1).1 hsrc
      obtain ⟨hdstFit, hdstIn⟩ := (endPasses_iff hregion hwraps.2).1 hdst
      exact ⟨⟨⟨hsrcFit, hdstFit⟩, hsrcIn, hdstIn⟩, hsrcLimits, hdstLimits⟩
    · rintro ⟨⟨⟨hsrcFit, hdstFit⟩, hsrcIn, hdstIn⟩, hsrcLimits, hdstLimits⟩
      exact ⟨hsrcIn.1, ⟨orDefault_slice_ne_zero hsrcIn.1 hsrcFit.product_lt,
          orDefault_slice_ne_zero hsrcIn.1 hdstFit.product_lt⟩,
        ⟨(endPasses_iff hsrcIn.1 hwraps.1).2 ⟨hsrcFit, hsrcIn⟩, hsrcLimits⟩,
        (endPasses_iff hsrcIn.1 hwraps.2).2 ⟨hdstFit, hdstIn⟩, hdstLimits⟩

end RectCall

end ConstructionKit.ClBuffer
