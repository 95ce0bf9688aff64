import ConstructionKit.Image.Host
import Mathlib.Data.Fin.VecNotation
import Mathlib.Tactic.FinCases
import Mathlib.Tactic.Linarith

/-! When the copies of a checked region stay inside the storage of an image.  For an array of
one-dimensional images `ValidateOriginAndRegion` does not look at `region[2]`, over which the
copies loop all the same, and the sum of origin and region may wrap. -/

namespace ConstructionKit.Image

open Function List

/-! ### The property -/

def SrcInside (moves : List Move) (storage : UInt64) : Prop :=
  ∀ move ∈ moves, ∀ byte < move.size, move.src + byte < storage.toNat

def DstInside (moves : List Move) (storage : UInt64) : Prop :=
  ∀ move ∈ moves, ∀ byte < move.size, move.dst + byte < storage.toNat

/-- Every byte of the image that one of the copies touches is inside its storage.  The images of
`hostCopyImage` have the same format. -/
structure Safe (format : ImageFormat) (desc : ImageDesc) (origin region : Triple) : Prop where
  read : ∀ rowPitch slicePitch,
    SrcInside (hostReadImage (hostInitializeImage format desc) origin region rowPitch slicePitch)
      (hostGetImageStorageSize format desc)
  write : ∀ rowPitch slicePitch,
    DstInside (hostWriteImage (hostInitializeImage format desc) origin region rowPitch slicePitch)
      (hostGetImageStorageSize format desc)
  fill : DstInside (hostFillImage (hostInitializeImage format desc) origin region)
    (hostGetImageStorageSize format desc)
  copyFrom : ∀ dstDesc dstOrigin,
    SrcInside (hostCopyImage (hostInitializeImage format desc)
      (hostInitializeImage format dstDesc) origin dstOrigin region)
      (hostGetImageStorageSize format desc)
  copyTo : ∀ srcDesc srcOrigin,
    DstInside (hostCopyImage (hostInitializeImage format srcDesc)
      (hostInitializeImage format desc) srcOrigin origin region)
      (hostGetImageStorageSize format desc)

/-- The sizes of the image in the three components of an origin or a region. -/
def extent (desc : ImageDesc) : Triple :=
  match desc.imageType with
  | .image1D | .image1DBuffer => ![desc.imageWidth, 1, 1]
  | .image1DArray => ![desc.imageWidth, desc.imageArraySize, 1]
  | .image2D => ![desc.imageWidth, desc.imageHeight, 1]
  | .image2DArray => ![desc.imageWidth, desc.imageHeight, desc.imageArraySize]
  | .image3D => ![desc.imageWidth, desc.imageHeight, desc.imageDepth]

/-- Positive dimensions, pitches that are 0 or at least the packed ones, and products that do not
wrap. -/
structure WellFormed (format : ImageFormat) (desc : ImageDesc) : Prop where
  extent_pos : ∀ i, 0 < (extent desc i).toNat
  row_lt : desc.imageWidth.toNat * (hostGetPixelSize format).toNat < 2 ^ 64
  row_le : desc.imageRowPitch = 0 ∨
    desc.imageWidth.toNat * (hostGetPixelSize format).toNat ≤ desc.imageRowPitch.toNat
  slice_lt : (hostInitializeImage format desc).rowPitch.toNat * (extent desc 1).toNat < 2 ^ 64
  slice_le : desc.imageSlicePitch = 0 ∨
    (hostInitializeImage format desc).rowPitch.toNat *
      (hostInitializeImage format desc).height.toNat ≤ desc.imageSlicePitch.toNat
  storage_lt :
    (hostInitializeImage format desc).slicePitch.toNat * (extent desc 2).toNat < 2 ^ 64

/-- The regions for which the check does its work: it looks at `region[2]`, and no sum wraps. -/
structure Checked (desc : ImageDesc) (region : Triple) : Prop where
  depth : desc.imageType = .image1DArray → region 2 = 1
  noWrap : ∀ i, (extent desc i).toNat + (region i).toNat < 2 ^ 64

/-! ### The geometry of an image -/

section Geometry

variable {format : ImageFormat} {desc : ImageDesc} (wf : WellFormed format desc)

theorem pixelSize_pos (format : ImageFormat) : 0 < (hostGetPixelSize format).toNat := by
  obtain ⟨order, type⟩ := format
  cases order <;> cases type <;> decide

theorem extent_zero (desc : ImageDesc) : extent desc 0 = desc.imageWidth := by
  rw [extent]
  cases desc.imageType <;> rfl

theorem rowPitch_eq (format : ImageFormat) (desc : ImageDesc) :
    (hostInitializeImage format desc).rowPitch = if desc.imageRowPitch ≠ 0 then
      desc.imageRowPitch else desc.imageWidth * hostGetPixelSize format := rfl

theorem slicePitch_eq (format : ImageFormat) (desc : ImageDesc) :
    (hostInitializeImage format desc).slicePitch = if desc.imageSlicePitch ≠ 0 then
      desc.imageSlicePitch else (hostInitializeImage format desc).rowPitch *
        (hostInitializeImage format desc).height := rfl

/-- The two functions compute the row pitch alike, and the slice pitch of layered images. -/
theorem storage_eq (format : ImageFormat) (desc : ImageDesc) :
    hostGetImageStorageSize format desc =
      if desc.imageType = .image3D ∨ desc.imageType = .image2DArray then
        (hostInitializeImage format desc).slicePitch * extent desc 2
      else (hostInitializeImage format desc).rowPitch * extent desc 1 := by
  obtain ⟨type, width, height, depth, layers, row, slice⟩ := desc
  have hrow : (if row = 0 then hostGetPixelSize format * width else row) =
      if row ≠ 0 then row else width * hostGetPixelSize format := by
    by_cases h : row = 0
    · simp [UInt64.mul_comm]
    · simp [h]
  by_cases h : slice = 0 <;> cases type <;>
    simp [hostGetImageStorageSize, hostInitializeImage, extent, hrow]

include wf

theorem width_le_rowPitch :
    (extent desc 0).toNat * (hostGetPixelSize format).toNat ≤
      (hostInitializeImage format desc).rowPitch.toNat := by
  rw [extent_zero, rowPitch_eq]
  split
  · exact wf.row_le.resolve_left ‹_›
  · rw [UInt64.toNat_mul, Nat.mod_eq_of_lt wf.row_lt]

theorem packed_le_slicePitch :
    let image := hostInitializeImage format desc
    image.rowPitch.toNat * image.height.toNat < 2 ^ 64 →
      image.rowPitch.toNat * image.height.toNat ≤ image.slicePitch.toNat := by
  intro image hlt
  rw [slicePitch_eq]
  split
  · exact wf.slice_le.resolve_left ‹_›
  · rw [UInt64.toNat_mul, Nat.mod_eq_of_lt hlt]

/-- A layered image has slices that hold all of its rows; another one has a single slice. -/
theorem storage_cases :
    let image := hostInitializeImage format desc
    let storage := (hostGetImageStorageSize format desc).toNat
    ((extent desc 2).toNat = 1 ∧ storage = image.rowPitch.toNat * (extent desc 1).toNat) ∨
    (image.rowPitch.toNat * (extent desc 1).toNat ≤ image.slicePitch.toNat ∧
      storage = image.slicePitch.toNat * (extent desc 2).toNat) := by
  dsimp only
  rw [storage_eq]
  split
  · rename_i hlayered
    right
    have hheight : (hostInitializeImage format desc).height = extent desc 1 := by
      obtain ⟨type, width, height, depth, layers, row, slice⟩ := desc
      rcases hlayered with rfl | rfl <;> rfl
    refine ⟨hheight ▸ packed_le_slicePitch wf (hheight ▸ wf.slice_lt), ?_⟩
    rw [UInt64.toNat_mul, Nat.mod_eq_of_lt wf.storage_lt]
  · left
    refine ⟨?_, by rw [UInt64.toNat_mul, Nat.mod_eq_of_lt wf.slice_lt]⟩
    rw [extent]
    cases htype : desc.imageType <;> simp_all

end Geometry

/-- A product with a pitch does not wrap when the product with a larger factor does not. -/
theorem toNat_mul_of_le {x pitch : UInt64} {n : Nat} (hx : x.toNat ≤ n)
    (hlt : pitch.toNat * n < 2 ^ 64) : (x * pitch).toNat = x.toNat * pitch.toNat := by
  have hle : x.toNat * pitch.toNat ≤ pitch.toNat * n := by
    rw [mul_comm]
    exact Nat.mul_le_mul_left _ hx
  rw [UInt64.toNat_mul, Nat.mod_eq_of_lt (lt_of_le_of_lt hle hlt)]

theorem toNat_add_of_le {x y n : UInt64} (h : x.toNat + y.toNat ≤ n.toNat) :
    (x + y).toNat = x.toNat + y.toNat := by
  rw [UInt64.toNat_add, Nat.mod_eq_of_lt (lt_of_le_of_lt h n.toNat_lt)]

/-! ### The loops -/

theorem mem_loopValues {n v : UInt64} : v ∈ loopValues n ↔ v.toNat < n.toNat := by
  rw [loopValues, mem_map]
  constructor
  · rintro ⟨k, hk, rfl⟩
    rw [List.mem_range] at hk
    rwa [UInt64.toNat_ofNat_of_lt' (Nat.lt_trans hk n.toNat_lt)]
  · exact fun h => ⟨v.toNat, List.mem_range.2 h, UInt64.ofNat_toNat⟩

variable {region : Triple}

theorem mem_forRows {α : Type} {body : UInt64 → UInt64 → α} {a : α} :
    a ∈ forRows region body ↔ ∃ z y : UInt64, z.toNat < (region 2).toNat ∧
      y.toNat < (region 1).toNat ∧ body z y = a := by
  simp only [forRows, mem_flatMap, mem_map, mem_loopValues]
  constructor
  · rintro ⟨z, hz, y, hy, rfl⟩
    exact ⟨z, y, hz, hy, rfl⟩
  · rintro ⟨z, y, hz, hy, rfl⟩
    exact ⟨z, hz, y, hy, rfl⟩

/-! ### What the check says -/

theorem fits_iff {size origin region : UInt64} : fits size origin region = true ↔
    origin.toNat ≤ size.toNat ∧ region.toNat ≤ size.toNat ∧
      (origin.toNat + region.toNat) % 2 ^ 64 ≤ size.toNat := by
  simp [fits, UInt64.lt_iff_toNat_lt, and_assoc]

theorem unused_iff {origin region : UInt64} :
    unused origin region = true ↔ origin = 0 ∧ region = 1 := by
  simp [unused]

section Accepted

variable {desc : ImageDesc} {origin : Triple}
  (accepted : validateOriginAndRegion desc origin region = true)
  (hdepth : desc.imageType = .image1DArray → region 2 = 1)

include accepted hdepth

/-- With `region[2]` as it should be, every component passes the tests of `fits`. -/
theorem fits_of_accepted (i : Fin 3) : fits (extent desc i) (origin i) (region i) = true := by
  obtain ⟨type, width, height, depth, layers, row, slice⟩ := desc
  cases type <;> simp only [validateOriginAndRegion, Bool.and_eq_true, unused_iff]
    at accepted <;> fin_cases i <;> simp_all [extent] <;> decide

theorem end_le_extent (noWrap : ∀ i, (extent desc i).toNat + (region i).toNat < 2 ^ 64)
    (i : Fin 3) : (origin i).toNat + (region i).toNat ≤ (extent desc i).toNat := by
  have hfits := fits_iff.1 (fits_of_accepted accepted hdepth i)
  have hlt := noWrap i
  omega

end Accepted

variable {desc : ImageDesc}

/-- Where the sum with the region wraps, an origin at the end of the image is accepted. -/
theorem accepted_at_extent (accepted : validateOriginAndRegion desc 0 region = true)
    (hdepth : desc.imageType = .image1DArray → region 2 = 1) {i : Fin 3}
    (wraps : 2 ^ 64 ≤ (extent desc i).toNat + (region i).toNat) :
    validateOriginAndRegion desc (update 0 i (extent desc i)) region = true := by
  have hfits : fits (extent desc i) (extent desc i) (region i) = true := by
    have h := fits_iff.1 (fits_of_accepted accepted hdepth i)
    rw [fits_iff]
    omega
  obtain ⟨type, width, height, depth, layers, row, slice⟩ := desc
  cases type <;> fin_cases i <;>
    simp_all [validateOriginAndRegion, extent, unused_iff]

/-! ### Checked regions stay inside -/

section Inside

variable {format : ImageFormat} (wf : WellFormed format desc)

include wf

theorem pixelEnd_le_storage {x y z : Nat} (hx : x ≤ (extent desc 0).toNat)
    (hy : y < (extent desc 1).toNat) (hz : z < (extent desc 2).toNat) :
    x * (hostGetPixelSize format).toNat + z * (hostInitializeImage format desc).slicePitch.toNat +
      y * (hostInitializeImage format desc).rowPitch.toNat ≤
        (hostGetImageStorageSize format desc).toNat := by
  have hend := (Nat.mul_le_mul_right _ hx).trans (width_le_rowPitch wf)
  have hrows := Nat.mul_le_mul_left (hostInitializeImage format desc).rowPitch.toNat hy
  rcases storage_cases wf with ⟨hone, hstorage⟩ | ⟨hslice, hstorage⟩
  · obtain rfl : z = 0 := by omega
    rw [hstorage]
    linarith
  · have hslices := Nat.mul_le_mul_left (hostInitializeImage format desc).slicePitch.toNat hz
    rw [hstorage]
    linarith

/-- The factors of the pitches stay below the extent, so that no product wraps. -/
theorem pitches_toNat {x y z : UInt64} (hx : x.toNat ≤ (extent desc 0).toNat)
    (hy : y.toNat ≤ (extent desc 1).toNat) (hz : z.toNat ≤ (extent desc 2).toNat) :
    (x * hostGetPixelSize format).toNat = x.toNat * (hostGetPixelSize format).toNat ∧
      (y * (hostInitializeImage format desc).rowPitch).toNat =
        y.toNat * (hostInitializeImage format desc).rowPitch.toNat ∧
      (z * (hostInitializeImage format desc).slicePitch).toNat =
        z.toNat * (hostInitializeImage format desc).slicePitch.toNat := by
  refine ⟨toNat_mul_of_le hx ?_, toNat_mul_of_le hy wf.slice_lt, toNat_mul_of_le hz wf.storage_lt⟩
  rw [extent_zero, mul_comm]
  exact wf.row_lt

variable {origin : Triple}
  (inside : ∀ i, (origin i).toNat + (region i).toNat ≤ (extent desc i).toNat)

include inside

theorem imageRow_le {z y : UInt64} (hz : z.toNat < (region 2).toNat)
    (hy : y.toNat < (region 1).toNat) :
    imageRow (hostInitializeImage format desc) origin z y +
      (region 0 * hostGetPixelSize format).toNat ≤ (hostGetImageStorageSize format desc).toNat := by
  have h0 := inside 0
  have h1 := inside 1
  have h2 := inside 2
  have hy' : (y + origin 1).toNat = y.toNat + (origin 1).toNat :=
    toNat_add_of_le (n := extent desc 1) (by omega)
  have hz' : (z + origin 2).toNat = z.toNat + (origin 2).toNat :=
    toNat_add_of_le (n := extent desc 2) (by omega)
  have horigin := pitches_toNat wf (x := origin 0) (y := y + origin 1) (z := z + origin 2)
    (by omega) (by omega) (by omega)
  have hsize := pitches_toNat wf (x := region 0) (y := 0) (z := 0)
    (by omega) (Nat.zero_le _) (Nat.zero_le _)
  have hend := pixelEnd_le_storage wf h0 (y := (y + origin 1).toNat) (z := (z + origin 2).toNat)
    (by omega) (by omega)
  have hpixel : (hostInitializeImage format desc).pixelSize = hostGetPixelSize format := rfl
  rw [imageRow, hpixel]
  linarith

theorem fillPixel_le {z y x : UInt64} (hz : z.toNat < (region 2).toNat)
    (hy : y.toNat < (region 1).toNat) (hx : x.toNat < (region 0).toNat) :
    let image := hostInitializeImage format desc
    (origin 0 * hostGetPixelSize format).toNat + (origin 1 * image.rowPitch).toNat +
      (origin 2 * image.slicePitch).toNat + (z * image.slicePitch).toNat +
      (y * image.rowPitch).toNat + (x * hostGetPixelSize format).toNat +
      (hostGetPixelSize format).toNat ≤ (hostGetImageStorageSize format desc).toNat := by
  dsimp only
  have h0 := inside 0
  have h1 := inside 1
  have h2 := inside 2
  have horigin := pitches_toNat wf (x := origin 0) (y := origin 1) (z := origin 2)
    (by omega) (by omega) (by omega)
  have hpixel := pitches_toNat wf (x := x) (y := y) (z := z) (by omega) (by omega) (by omega)
  have hend := pixelEnd_le_storage wf (x := (origin 0).toNat + x.toNat + 1)
    (y := (origin 1).toNat + y.toNat) (z := (origin 2).toNat + z.toNat)
    (by omega) (by omega) (by omega)
  rw [horigin.1]
  linarith

/-- A region inside the extent is touched inside the storage only. -/
theorem safe_of_inside : Safe format desc origin region := by
  constructor
  case fill =>
    intro move hmove byte hbyte
    obtain ⟨row, hrow, hmem⟩ := mem_flatten.1 hmove
    obtain ⟨z, y, hz, hy, rfl⟩ := mem_forRows.1 hrow
    obtain ⟨x, hx, rfl⟩ := mem_map.1 hmem
    exact lt_of_lt_of_le (Nat.add_lt_add_left hbyte _)
      (fillPixel_le wf inside hz hy (mem_loopValues.1 hx))
  -- the others go through the rows of the region
  all_goals
    intro _ _ move hmove byte hbyte
    obtain ⟨z, y, hz, hy, rfl⟩ := mem_forRows.1 hmove
    exact lt_of_lt_of_le (Nat.add_lt_add_left hbyte _) (imageRow_le wf inside hz hy)

end Inside

/-! ### Other regions leave the storage -/

section Outside

variable {format : ImageFormat} (wf : WellFormed format desc) (nonempty : ∀ i, 0 < (region i).toNat)

/-- One row of a read is enough to leave the storage. -/
theorem not_safe_of_row {origin : Triple} (z y : UInt64) (byte : Nat)
    (hz : z.toNat < (region 2).toNat) (hy : y.toNat < (region 1).toNat)
    (hbyte : byte < (region 0 * hostGetPixelSize format).toNat)
    (hle : (hostGetImageStorageSize format desc).toNat ≤
      imageRow (hostInitializeImage format desc) origin z y + byte) :
    ¬Safe format desc origin region := fun safe =>
  absurd (safe.read 0 0 _ (mem_forRows.2 ⟨z, y, hz, hy, rfl⟩) byte hbyte) (Nat.not_lt.2 hle)

theorem pitch_eq_one {pitch n size : UInt64} (hpos : 0 < pitch.toNat) (hle : size.toNat ≤ n.toNat)
    (wraps : 2 ^ 64 ≤ n.toNat + size.toNat) (hlt : pitch.toNat * n.toNat < 2 ^ 64) : pitch = 1 := by
  rw [← UInt64.toNat_inj, UInt64.toNat_one]
  by_contra hne
  have := Nat.mul_le_mul_right n.toNat (show 2 ≤ pitch.toNat by omega)
  omega

theorem last_lt {n size : UInt64} (wraps : 2 ^ 64 ≤ n.toNat + size.toNat) :
    (-1 - n).toNat < size.toNat := by
  have hlast : (-1 - n).toNat = (-1 : UInt64).toNat - n.toNat :=
    UInt64.toNat_sub_of_le _ _ (Nat.le_of_lt_succ n.toNat_lt)
  have hmax : (-1 : UInt64).toNat = 2 ^ 64 - 1 := rfl
  have := n.toNat_lt
  omega

include wf nonempty

/-- The second slice of an array of one-dimensional images starts behind its last row. -/
theorem not_safe_of_depth (accepted : validateOriginAndRegion desc 0 region = true)
    (htype : desc.imageType = .image1DArray) (hdepth : region 2 ≠ 1) :
    ∃ origin, validateOriginAndRegion desc origin region = true ∧
      ¬Safe format desc origin region := by
  have hheight : (hostInitializeImage format desc).height = 1 := by
    simp [hostInitializeImage, htype]
  have hextent : extent desc 1 = desc.imageArraySize := by simp [extent, htype]
  have hstorage : hostGetImageStorageSize format desc =
      (hostInitializeImage format desc).rowPitch * extent desc 1 := by
    rw [storage_eq, if_neg (by simp [htype])]
  have hslice := packed_le_slicePitch wf (by
    rw [hheight, UInt64.toNat_one, mul_one]
    exact UInt64.toNat_lt _)
  simp only [validateOriginAndRegion, htype, Bool.and_eq_true, fits_iff] at accepted
  obtain ⟨⟨⟨-, hwidth, -⟩, -, hlayers, -⟩, -⟩ := accepted
  have hw : (desc.imageWidth - region 0).toNat = desc.imageWidth.toNat - (region 0).toNat :=
    UInt64.toNat_sub_of_le _ _ hwidth
  have ha : (desc.imageArraySize - region 1).toNat =
      desc.imageArraySize.toNat - (region 1).toNat := UInt64.toNat_sub_of_le _ _ hlayers
  refine ⟨![desc.imageWidth - region 0, desc.imageArraySize - region 1, 0], ?_, ?_⟩
  · simp [validateOriginAndRegion, htype, fits_iff, hw, ha, hwidth, hlayers]
  · have hone : (region 2).toNat ≠ 1 := fun h => hdepth (UInt64.toNat_inj.1 h)
    have hlast : (region 1 - 1).toNat = (region 1).toNat - 1 :=
      UInt64.toNat_sub_of_le _ _ (nonempty 1)
    have hsize := pitches_toNat wf (x := region 0) (y := 0) (z := 0)
      (extent_zero desc ▸ hwidth) (Nat.zero_le _) (Nat.zero_le _)
    refine not_safe_of_row 1 (region 1 - 1) 0 ?_ ?_ ?_ ?_
    · have := nonempty 2
      rw [UInt64.toNat_one]
      omega
    · have := nonempty 1
      omega
    · rw [hsize.1]
      exact Nat.mul_pos (nonempty 0) (pixelSize_pos format)
    · have hrow : (region 1 - 1 + (desc.imageArraySize - region 1)).toNat =
          desc.imageArraySize.toNat - 1 := by
        have := nonempty 1
        rw [toNat_add_of_le (n := desc.imageArraySize)] <;> omega
      have hpitch := pitches_toNat wf (x := 0)
        (y := region 1 - 1 + (desc.imageArraySize - region 1)) (z := 0)
        (Nat.zero_le _) (by rw [hextent]; omega) (Nat.zero_le _)
      have hpos := hextent ▸ wf.extent_pos 1
      rw [hstorage, UInt64.toNat_mul, Nat.mod_eq_of_lt wf.slice_lt, hextent]
      rw [hheight, UInt64.toNat_one, mul_one] at hslice
      calc (hostInitializeImage format desc).rowPitch.toNat * desc.imageArraySize.toNat
          = (hostInitializeImage format desc).rowPitch.toNat +
            (desc.imageArraySize.toNat - 1) *
              (hostInitializeImage format desc).rowPitch.toNat := by
            obtain ⟨k, hk⟩ := Nat.exists_eq_add_of_lt hpos
            rw [hk, Nat.add_sub_cancel, Nat.mul_add_one, mul_comm, Nat.add_comm]
        _ ≤ (hostInitializeImage format desc).slicePitch.toNat +
            ((region 1 - 1 + (desc.imageArraySize - region 1)) *
              (hostInitializeImage format desc).rowPitch).toNat := by
            rw [hpitch.2.1, hrow]
            exact Nat.add_le_add_right hslice _
        _ ≤ _ := by
            simp only [imageRow, Matrix.cons_val, UInt64.add_zero, UInt64.one_mul]
            omega

theorem not_safe_of_wrap_width (hle : (region 0).toNat ≤ (extent desc 0).toNat)
    (wraps : 2 ^ 64 ≤ (extent desc 0).toNat + (region 0).toNat) :
    ¬Safe format desc (update 0 0 (extent desc 0)) region := by
  have hpixel := pixelSize_pos format
  have hsize := pitches_toNat wf (x := region 0) (y := 0) (z := 0)
    hle (Nat.zero_le _) (Nat.zero_le _)
  have horigin := pitches_toNat wf (x := extent desc 0) (y := 0) (z := 0)
    le_rfl (Nat.zero_le _) (Nat.zero_le _)
  have hpos := Nat.mul_pos (nonempty 0) hpixel
  refine not_safe_of_row 0 0
    ((region 0).toNat * (hostGetPixelSize format).toNat - 1)
    (nonempty 2) (nonempty 1) (by rw [hsize.1]; omega) ?_
  have hlt := (hostGetImageStorageSize format desc).toNat_lt
  have hrow : imageRow (hostInitializeImage format desc)
      (update 0 0 (extent desc 0)) 0 0 =
        (extent desc 0).toNat * (hostGetPixelSize format).toNat := by
    rw [← horigin.1]
    simp [imageRow, hostInitializeImage]
  have hmul := Nat.le_mul_of_pos_right ((extent desc 0).toNat + (region 0).toNat) hpixel
  rw [Nat.add_mul] at hmul
  omega

omit nonempty in
theorem rowPitch_pos : 0 < (hostInitializeImage format desc).rowPitch.toNat :=
  lt_of_lt_of_le (Nat.mul_pos (wf.extent_pos 0) (pixelSize_pos format)) (width_le_rowPitch wf)

theorem rowSize_pos (hle : (region 0).toNat ≤ (extent desc 0).toNat) :
    0 < (region 0 * hostGetPixelSize format).toNat := by
  rw [(pitches_toNat wf (y := 0) (z := 0) hle (Nat.zero_le _) (Nat.zero_le _)).1]
  exact Nat.mul_pos (nonempty 0) (pixelSize_pos format)

theorem not_safe_of_wrap_rows (hle : ∀ i, (region i).toNat ≤ (extent desc i).toNat)
    (wraps : 2 ^ 64 ≤ (extent desc 1).toNat + (region 1).toNat) :
    ¬Safe format desc (update 0 1 (extent desc 1)) region := by
  have hrow := pitch_eq_one (rowPitch_pos wf) (hle 1) wraps wf.slice_lt
  refine not_safe_of_row 0 (-1 - extent desc 1) 0 (nonempty 2)
    (last_lt wraps) (rowSize_pos wf nonempty (hle 0)) ?_
  have hoffset : imageRow (hostInitializeImage format desc)
      (update 0 1 (extent desc 1)) 0 (-1 - extent desc 1) = 2 ^ 64 - 1 := by
    simp only [imageRow, hrow]
    simp
  have := (hostGetImageStorageSize format desc).toNat_lt
  omega

theorem not_safe_of_wrap_slices (hle : ∀ i, (region i).toNat ≤ (extent desc i).toNat)
    (wraps : 2 ^ 64 ≤ (extent desc 2).toNat + (region 2).toNat) :
    ¬Safe format desc (update 0 2 (extent desc 2)) region := by
  have hpos : 0 < (hostInitializeImage format desc).slicePitch.toNat := by
    rcases storage_cases wf with ⟨hone, -⟩ | ⟨hslice, -⟩
    · have := hle 2
      omega
    · exact lt_of_lt_of_le (Nat.mul_pos (rowPitch_pos wf) (wf.extent_pos 1)) hslice
  have hslice := pitch_eq_one hpos (hle 2) wraps wf.storage_lt
  refine not_safe_of_row (-1 - extent desc 2) 0 0 (last_lt wraps)
    (nonempty 1) (rowSize_pos wf nonempty (hle 0)) ?_
  have hoffset : imageRow (hostInitializeImage format desc)
      (update 0 2 (extent desc 2)) (-1 - extent desc 2) 0 = 2 ^ 64 - 1 := by
    simp only [imageRow, hslice]
    simp
  have := (hostGetImageStorageSize format desc).toNat_lt
  omega

/-- A region that is not empty and not `Checked` has an accepted origin with which it leaves the
storage. -/
theorem exists_not_safe (accepted : validateOriginAndRegion desc 0 region = true)
    (unchecked : ¬Checked desc region) :
    ∃ origin, validateOriginAndRegion desc origin region = true ∧
      ¬Safe format desc origin region := by
  by_cases hdepth : desc.imageType = .image1DArray → region 2 = 1
  · have hle i := (fits_iff.1 (fits_of_accepted accepted hdepth i)).2.1
    obtain ⟨i, hi⟩ : ∃ i, ¬(extent desc i).toNat + (region i).toNat < 2 ^ 64 := by
      by_contra h
      exact unchecked ⟨hdepth, by simpa using h⟩
    have wraps := Nat.not_lt.1 hi
    refine ⟨_, accepted_at_extent accepted hdepth wraps, ?_⟩
    match i with
    | 0 => exact not_safe_of_wrap_width wf nonempty (hle 0) wraps
    | 1 => exact not_safe_of_wrap_rows wf nonempty hle wraps
    | 2 => exact not_safe_of_wrap_slices wf nonempty hle wraps
  · push Not at hdepth
    exact not_safe_of_depth wf nonempty accepted hdepth.1 hdepth.2

end Outside

/-! ### The exact regions -/

theorem accepted_zero {origin : Triple}
    (accepted : validateOriginAndRegion desc origin region = true) :
    validateOriginAndRegion desc 0 region = true := by
  have hfits {size origin region : UInt64} (h : fits size origin region = true) :
      fits size 0 region = true := by
    rw [fits_iff] at h ⊢
    rw [UInt64.toNat_zero]
    omega
  obtain ⟨type, width, height, depth, layers, row, slice⟩ := desc
  cases type <;>
    simp only [validateOriginAndRegion, Bool.and_eq_true, unused_iff] at accepted ⊢ <;>
    simp <;> grind

theorem no_row_of_empty (empty : ∃ i, region i = 0) {z y : UInt64}
    (hz : z.toNat < (region 2).toNat) (hy : y.toNat < (region 1).toNat) : region 0 = 0 := by
  obtain ⟨i, hi⟩ := empty
  match i with
  | 0 => exact hi
  | 1 => simp [hi] at hy
  | 2 => simp [hi] at hz

theorem safe_of_empty {format : ImageFormat} {origin : Triple}
    (empty : ∃ i, region i = 0) : Safe format desc origin region := by
  have rows {pixelSize : UInt64} {dst src : UInt64 → UInt64 → Nat} {move : Move}
      (hmove : move ∈ forRows region fun z y =>
        ⟨dst z y, src z y, (region 0 * pixelSize).toNat⟩) : move.size = 0 := by
    obtain ⟨z, y, hz, hy, rfl⟩ := mem_forRows.1 hmove
    simp [no_row_of_empty empty hz hy]
  constructor
  case fill =>
    intro move hmove
    obtain ⟨row, hrow, hmem⟩ := mem_flatten.1 hmove
    obtain ⟨z, y, hz, hy, rfl⟩ := mem_forRows.1 hrow
    obtain ⟨x, hx, -⟩ := mem_map.1 hmem
    simp [no_row_of_empty empty hz hy, mem_loopValues] at hx
  all_goals
    exact fun _ _ move hmove byte hbyte => absurd hbyte (rows hmove ▸ Nat.not_lt_zero _)

/-- The accepted origins of a region keep all accesses inside the storage of the image exactly when
the region is empty or, for an array of one-dimensional images, has one slice, and its sums with the
sizes of the image do not wrap. -/
theorem accepted_safe_iff {format : ImageFormat} {desc : ImageDesc} (wf : WellFormed format desc)
    (region : Triple) :
    (∀ origin, validateOriginAndRegion desc origin region = true →
      Safe format desc origin region) ↔
    (validateOriginAndRegion desc 0 region = true → (∃ i, region i = 0) ∨ Checked desc region) := by
  constructor
  · intro safe accepted
    by_contra h
    push Not at h
    obtain ⟨nonempty, unchecked⟩ := h
    have hpos i : 0 < (region i).toNat :=
      Nat.pos_of_ne_zero fun h => nonempty i (UInt64.toNat_inj.1 h)
    obtain ⟨origin, haccepted, hunsafe⟩ := exists_not_safe wf hpos accepted unchecked
    exact hunsafe (safe origin haccepted)
  · intro condition origin accepted
    rcases condition (accepted_zero accepted) with empty | ⟨hdepth, noWrap⟩
    · exact safe_of_empty empty
    · exact safe_of_inside wf (end_le_extent accepted hdepth noWrap)

/-- An image of bytes with packed rows and slices. -/
def byteImage (type : ImageType) (width height layers : UInt64) : ImageDesc :=
  ⟨type, width, height, 1, layers, 0, 0⟩

theorem byteImage_wellFormed : WellFormed ⟨.r, .unsignedInt8⟩ (byteImage .image2D 4 3 1) := by
  constructor <;> decide

theorem accepted_safe_image2D :
    WellFormed ⟨.r, .unsignedInt8⟩ (byteImage .image2D 4 3 1) ∧
      validateOriginAndRegion (byteImage .image2D 4 3 1) ![1, 1, 0] ![3, 2, 1] = true ∧
      Safe ⟨.r, .unsignedInt8⟩ (byteImage .image2D 4 3 1) ![1, 1, 0] ![3, 2, 1] :=
  ⟨byteImage_wellFormed, by decide, (accepted_safe_iff byteImage_wellFormed ![3, 2, 1]).2
    (fun _ => .inr ⟨nofun, by decide⟩) ![1, 1, 0] (by decide)⟩

/-- Two slices of an array of two rows, and an origin whose sum with the region wraps. -/
theorem accepted_safe_fails :
    (WellFormed ⟨.r, .unsignedInt8⟩ (byteImage .image1DArray 4 0 2) ∧
      validateOriginAndRegion (byteImage .image1DArray 4 0 2) 0 ![4, 2, 2] = true ∧
      ¬Safe ⟨.r, .unsignedInt8⟩ (byteImage .image1DArray 4 0 2) 0 ![4, 2, 2]) ∧
    (WellFormed ⟨.r, .unsignedInt8⟩ (byteImage .image1D 0x8000000000000000 0 0) ∧
      validateOriginAndRegion (byteImage .image1D 0x8000000000000000 0 0) ![0x8000000000000000, 0, 0]
        ![0x8000000000000000, 1, 1] = true ∧
      ¬Safe ⟨.r, .unsignedInt8⟩ (byteImage .image1D 0x8000000000000000 0 0) ![0x8000000000000000, 0, 0]
        ![0x8000000000000000, 1, 1]) := by
  refine ⟨⟨by constructor <;> decide, by decide, ?_⟩, by constructor <;> decide, by decide, ?_⟩
  · exact not_safe_of_row 1 1 0 (by decide) (by decide) (by decide)
      (by decide)
  · exact not_safe_of_row 0 0 0 (by decide) (by decide) (by decide)
      (by decide)

end ConstructionKit.Image
