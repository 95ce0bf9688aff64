import Mathlib.Data.UInt
import ConstructionKit.ProofKit.MixedRadix
/-! The host side of the image library (`modules/compiler/builtins/libimg`): sizes and pitches, the
check of an origin and a region, and the copies of regions as the moves that they make.  All sizes
are `size_t`, so that sums and products wrap; a pointer into the data of an image is given by its
offset, which is a natural number. -/

namespace ConstructionKit.Image

inductive ImageType where
  | image1D | image1DBuffer | image1DArray | image2D | image2DArray | image3D
deriving DecidableEq, Repr

inductive ChannelOrder where
  | r | a | rx | luminance | intensity | rgb | rgbx | rg | ra | rgx | rgba | bgra | argb
deriving DecidableEq, Repr

inductive ChannelType where
  | snormInt8 | unormInt8 | signedInt8 | unsignedInt8
  | snormInt16 | unormInt16 | signedInt16 | unsignedInt16 | halfFloat
  | unormShort565 | unormShort555
  | signedInt32 | unsignedInt32 | float | unormInt101010
deriving DecidableEq, Repr

/-- A `cl_image_format` that the library supports. -/
structure ImageFormat where
  imageChannelOrder : ChannelOrder
  imageChannelDataType : ChannelType
deriving DecidableEq, Repr

/-- A `cl_image_desc`; a pitch of 0 stands for the packed one. -/
structure ImageDesc where
  imageType : ImageType
  imageWidth : UInt64
  imageHeight : UInt64
  imageDepth : UInt64
  imageArraySize : UInt64
  imageRowPitch : UInt64
  imageSlicePitch : UInt64
deriving DecidableEq, Repr

abbrev Triple := Fin 3 → UInt64

/-! ### Sizes -/

def ChannelOrder.componentCount : ChannelOrder → UInt64
  | r | a | rx | luminance | intensity | rgb | rgbx => 1
  | rg | ra | rgx => 2
  | rgba | bgra | argb => 4

def ChannelType.componentSize : ChannelType → UInt64
  | snormInt8 | unormInt8 | signedInt8 | unsignedInt8 => 1
  | snormInt16 | unormInt16 | signedInt16 | unsignedInt16 | halfFloat => 2
  | unormShort565 | unormShort555 => 2
  | signedInt32 | unsignedInt32 | float => 4
  | unormInt101010 => 4

def hostGetPixelSize (format : ImageFormat) : UInt64 :=
  format.imageChannelDataType.componentSize * format.imageChannelOrder.componentCount

def hostGetImageStorageSize (format : ImageFormat) (desc : ImageDesc) : UInt64 :=
  let pixelSize := hostGetPixelSize format
  let rowPitch := if desc.imageRowPitch = 0 then pixelSize * desc.imageWidth else desc.imageRowPitch
  let slicePitch :=
    if desc.imageSlicePitch = 0 then rowPitch * desc.imageHeight else desc.imageSlicePitch
  match desc.imageType with
  | .image1D | .image1DBuffer => rowPitch
  | .image1DArray => rowPitch * desc.imageArraySize
  | .image2D => rowPitch * desc.imageHeight
  | .image3D => slicePitch * desc.imageDepth
  | .image2DArray => slicePitch * desc.imageArraySize

/-- The fields of `ImageMetaData` that the copies read. -/
structure ImageMetaData where
  pixelSize : UInt64
  width : UInt64
  height : UInt64
  depth : UInt64
  arraySize : UInt64
  rowPitch : UInt64
  slicePitch : UInt64
deriving DecidableEq, Repr

def hostInitializeImage (format : ImageFormat) (desc : ImageDesc) : ImageMetaData :=
  let pixelSize := hostGetPixelSize format
  let width := desc.imageWidth
  let (height, depth, arraySize) := match desc.imageType with
    | .image1D | .image1DBuffer => (1, 1, 1)
    | .image2D => (desc.imageHeight, 1, 1)
    | .image3D => (desc.imageHeight, desc.imageDepth, 1)
    | .image1DArray => (1, 1, desc.imageArraySize)
    | .image2DArray => (desc.imageHeight, 1, desc.imageArraySize)
  let rowPitch := if desc.imageRowPitch ≠ 0 then desc.imageRowPitch else width * pixelSize
  let slicePitch := if desc.imageSlicePitch ≠ 0 then desc.imageSlicePitch else rowPitch * height
  { pixelSize, width, height, depth, arraySize, rowPitch, slicePitch }

/-! ### The check of an origin and a region -/

/-- The three tests of one component against the size of the image in it. -/
def fits (size origin region : UInt64) : Bool :=
  !(size < origin) && !(size < region) && !(size < origin + region)

/-- A component that the image does not have. -/
def unused (origin region : UInt64) : Bool := origin == 0 && region == 1

/-- Whether `ValidateOriginAndRegion` returns `CL_SUCCESS`. -/
def validateOriginAndRegion (desc : ImageDesc) (origin region : Triple) : Bool :=
  match desc.imageType with
  | .image1D | .image1DBuffer =>
    fits desc.imageWidth (origin 0) (region 0) && unused (origin 1) (region 1) &&
      unused (origin 2) (region 2)
  | .image1DArray =>
    -- `region[2]` is not looked at
    fits desc.imageWidth (origin 0) (region 0) && fits desc.imageArraySize (origin 1) (region 1) &&
      origin 2 == 0
  | .image2D =>
    fits desc.imageWidth (origin 0) (region 0) && fits desc.imageHeight (origin 1) (region 1) &&
      unused (origin 2) (region 2)
  | .image2DArray =>
    fits desc.imageWidth (origin 0) (region 0) && fits desc.imageHeight (origin 1) (region 1) &&
      fits desc.imageArraySize (origin 2) (region 2)
  | .image3D =>
    fits desc.imageWidth (origin 0) (region 0) && fits desc.imageHeight (origin 1) (region 1) &&
      fits desc.imageDepth (origin 2) (region 2)

/-! ### Copies -/

/-- `memmove(dst, src, size)`, with the offsets of the two pointers. -/
structure Move where
  dst : Nat
  src : Nat
  size : Nat
deriving DecidableEq, Repr

/-- The values of the variable of a loop `for (size_t i = 0; i < n; ++i)`. -/
def loopValues (n : UInt64) : List UInt64 := (List.range n.toNat).map UInt64.ofNat

/-- The body of the two loops over the rows of a region. -/
def forRows {α : Type} (region : Triple) (body : UInt64 → UInt64 → α) : List α :=
  (loopValues (region 2)).flatMap fun z => (loopValues (region 1)).map fun y => body z y

/-- The offset of a row of a region in the data of an image. -/
def imageRow (desc : ImageMetaData) (origin : Triple) (z y : UInt64) : Nat :=
  (origin 0 * desc.pixelSize).toNat + ((z + origin 2) * desc.slicePitch).toNat +
    ((y + origin 1) * desc.rowPitch).toNat

/-- The offset of a row in a buffer with the given pitches. -/
def bufferRow (rowPitch slicePitch : UInt64) (z y : UInt64) : Nat :=
  (z * slicePitch).toNat + (y * rowPitch).toNat

def hostReadImage (image : ImageMetaData) (origin region : Triple)
    (dstRowPitch dstSlicePitch : UInt64) : List Move :=
  forRows region fun z y =>
    ⟨bufferRow dstRowPitch dstSlicePitch z y, imageRow image origin z y,
      (region 0 * image.pixelSize).toNat⟩

def hostWriteImage (image : ImageMetaData) (origin region : Triple)
    (srcRowPitch srcSlicePitch : UInt64) : List Move :=
  forRows region fun z y =>
    ⟨imageRow image origin z y, bufferRow srcRowPitch srcSlicePitch z y,
      (region 0 * image.pixelSize).toNat⟩

/-- The stores of a pixel, each with the offset of its pointer: the pixel itself is at offset 0 of
`final_color`. -/
def hostFillImage (image : ImageMetaData) (origin region : Triple) : List Move :=
  let dst := (origin 0 * image.pixelSize).toNat + (origin 1 * image.rowPitch).toNat +
    (origin 2 * image.slicePitch).toNat
  (forRows region fun z y => (loopValues (region 0)).map fun x =>
    (⟨dst + (z * image.slicePitch).toNat + (y * image.rowPitch).toNat +
      (x * image.pixelSize).toNat, 0, image.pixelSize.toNat⟩ : Move)).flatten

def hostCopyImage (srcImage dstImage : ImageMetaData) (srcOrigin dstOrigin region : Triple) :
    List Move :=
  forRows region fun z y =>
    ⟨imageRow dstImage dstOrigin z y, imageRow srcImage srcOrigin z y,
      (region 0 * srcImage.pixelSize).toNat⟩

end ConstructionKit.Image
