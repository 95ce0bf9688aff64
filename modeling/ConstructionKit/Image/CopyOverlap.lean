import ConstructionKit.Image.Host
import Mathlib.Data.Fin.VecNotation
import Mathlib.Order.Interval.Set.Disjoint

/-! The overlap check of a copy inside one image, `libimg::ValidateNoOverlap`.  Two boxes of one
size share a pixel when their intervals meet in every dimension of the image; the loop of the check
returns at the first dimension in which they meet, or in which the destination ends where the
source starts. -/

namespace ConstructionKit.Image

/-! ### The check -/

inductive OverlapResult where
  | success | memCopyOverlap
deriving DecidableEq, Repr

/-- The components of an origin that the check looks at. -/
def ImageType.dimensions : ImageType → List (Fin 3)
  | image1D | image1DBuffer => [0]
  | image1DArray | image2D => [0, 1]
  | image2DArray | image3D => [0, 1, 2]

/-- The loop of `ValidateNoOverlap`. -/
def noOverlapLoop (srcOrigin dstOrigin region : Triple) : List (Fin 3) → OverlapResult
  | [] => .success
  | i :: rest =>
    if dstOrigin i ≥ srcOrigin i ∧ dstOrigin i < srcOrigin i + region i then .memCopyOverlap
    else if dstOrigin i + region i ≥ srcOrigin i ∧
        dstOrigin i + region i < srcOrigin i + region i then .memCopyOverlap
    else noOverlapLoop srcOrigin dstOrigin region rest

def validateNoOverlap (desc : ImageDesc) (srcOrigin dstOrigin region : Triple) : OverlapResult :=
  noOverlapLoop srcOrigin dstOrigin region desc.imageType.dimensions

/-! ### Boxes -/

/-- The pixels of a region, in the dimensions of the image. -/
def pixels (desc : ImageDesc) (origin region : Triple) : Set (Fin 3 → ℕ) :=
  {p | ∀ i ∈ desc.imageType.dimensions,
    p i ∈ Set.Ico (origin i).toNat ((origin i).toNat + (region i).toNat)}

/-- The intervals of the two boxes meet in a dimension. -/
def Meets (srcOrigin dstOrigin region : Triple) (i : Fin 3) : Prop :=
  0 < (region i).toNat ∧ (srcOrigin i).toNat < (dstOrigin i).toNat + (region i).toNat ∧
    (dstOrigin i).toNat < (srcOrigin i).toNat + (region i).toNat

/-- The destination neither meets the source in a dimension nor ends where the source starts. -/
def Clear (srcOrigin dstOrigin region : Triple) (i : Fin 3) : Prop :=
  (region i).toNat = 0 ∨ (srcOrigin i).toNat + (region i).toNat ≤ (dstOrigin i).toNat ∨
    (dstOrigin i).toNat + (region i).toNat < (srcOrigin i).toNat

instance (srcOrigin dstOrigin region : Triple) (i : Fin 3) :
    Decidable (Meets srcOrigin dstOrigin region i) := inferInstanceAs (Decidable (_ ∧ _))

instance (srcOrigin dstOrigin region : Triple) (i : Fin 3) :
    Decidable (Clear srcOrigin dstOrigin region i) := inferInstanceAs (Decidable (_ ∨ _))

variable {srcOrigin dstOrigin region : Triple}

theorem Meets.not_clear {i : Fin 3} (h : Meets srcOrigin dstOrigin region i) :
    ¬Clear srcOrigin dstOrigin region i := by
  rw [Meets] at h
  rw [Clear]
  omega

theorem meets_iff_inter_nonempty {i : Fin 3} :
    Meets srcOrigin dstOrigin region i ↔
      (Set.Ico (srcOrigin i).toNat ((srcOrigin i).toNat + (region i).toNat) ∩
        Set.Ico (dstOrigin i).toNat ((dstOrigin i).toNat + (region i).toNat)).Nonempty := by
  rw [Set.Ico_inter_Ico, Set.nonempty_Ico, Meets]
  omega

/-- Two boxes of one size share a pixel if and only if they meet in every dimension. -/
theorem share_pixel_iff (desc : ImageDesc) :
    (pixels desc srcOrigin region ∩ pixels desc dstOrigin region).Nonempty ↔
      ∀ i ∈ desc.imageType.dimensions, Meets srcOrigin dstOrigin region i := by
  constructor
  · rintro ⟨p, hsrc, hdst⟩ i hi
    exact meets_iff_inter_nonempty.2 ⟨p i, hsrc i hi, hdst i hi⟩
  · intro h
    -- the corner of the intersection that is nearest to the origin
    refine ⟨fun i => max (srcOrigin i).toNat (dstOrigin i).toNat, fun i hi => ?_, fun i hi => ?_⟩
    all_goals
      have hmeets := h i hi
      rw [Meets] at hmeets
      simp only [Set.mem_Ico]
      omega

/-! ### What the check finds -/

/-- Source and destination end below `2^64` in every component. -/
def SumsFit (srcOrigin dstOrigin region : Triple) : Prop :=
  ∀ i, (srcOrigin i).toNat + (region i).toNat < 2 ^ 64 ∧
    (dstOrigin i).toNat + (region i).toNat < 2 ^ 64

theorem noOverlapLoop_eq_memCopyOverlap_iff (hsums : SumsFit srcOrigin dstOrigin region)
    (dimensions : List (Fin 3)) :
    noOverlapLoop srcOrigin dstOrigin region dimensions = .memCopyOverlap ↔
      ∃ i ∈ dimensions, ¬Clear srcOrigin dstOrigin region i := by
  induction dimensions with
  | nil => simp [noOverlapLoop]
  | cons i rest ih =>
    obtain ⟨hsrc, hdst⟩ := hsums i
    have hsrcEnd : (srcOrigin i + region i).toNat = (srcOrigin i).toNat + (region i).toNat := by
      rw [UInt64.toNat_add, Nat.mod_eq_of_lt hsrc]
    have hdstEnd : (dstOrigin i + region i).toNat = (dstOrigin i).toNat + (region i).toNat := by
      rw [UInt64.toNat_add, Nat.mod_eq_of_lt hdst]
    rw [List.exists_mem_cons_iff, ← ih, noOverlapLoop]
    simp only [UInt64.le_iff_toNat_le, UInt64.lt_iff_toNat_lt]
    split
    · next h => simp only [Clear, true_iff]; omega
    · split
      · next h => simp only [Clear, true_iff]; omega
      · next h h' => simp only [iff_or_self, Clear]; omega

theorem ImageType.exists_mem_dimensions (type : ImageType) : ∃ i, i ∈ type.dimensions := by
  cases type <;> exact ⟨0, by decide⟩

/-- The check of a copy is exact if and only if the boxes meet in every dimension, or in none, with
the destination not ending where the source starts in any either. -/
theorem validateNoOverlap_exact_iff (desc : ImageDesc) (srcOrigin dstOrigin region : Triple)
    (hsums : SumsFit srcOrigin dstOrigin region) :
    (validateNoOverlap desc srcOrigin dstOrigin region = .memCopyOverlap ↔
      (pixels desc srcOrigin region ∩ pixels desc dstOrigin region).Nonempty) ↔
    (∀ i ∈ desc.imageType.dimensions, Meets srcOrigin dstOrigin region i) ∨
      ∀ i ∈ desc.imageType.dimensions, Clear srcOrigin dstOrigin region i := by
  rw [share_pixel_iff, validateNoOverlap, noOverlapLoop_eq_memCopyOverlap_iff hsums]
  obtain ⟨first, hfirst⟩ := desc.imageType.exists_mem_dimensions
  constructor
  · intro hexact
    by_cases hclear : ∀ i ∈ desc.imageType.dimensions, Clear srcOrigin dstOrigin region i
    · exact .inr hclear
    · push Not at hclear
      exact .inl (hexact.1 hclear)
  · rintro (hmeets | hclear)
    · exact iff_of_true ⟨first, hfirst, (hmeets first hfirst).not_clear⟩ hmeets
    · refine iff_of_false (fun ⟨i, hi, h⟩ => h (hclear i hi)) fun hmeets => ?_
      exact (hmeets first hfirst).not_clear (hclear first hfirst)

/-- A two-dimensional image of 16 by 16 pixels. -/
def smallImage : ImageDesc := ⟨.image2D, 16, 16, 0, 0, 0, 0⟩

theorem validateNoOverlap_exact_diagonal :
    SumsFit ![0, 0, 0] ![4, 4, 0] ![2, 2, 1] ∧
      (validateNoOverlap smallImage ![0, 0, 0] ![4, 4, 0] ![2, 2, 1] = .memCopyOverlap ↔
        (pixels smallImage ![0, 0, 0] ![2, 2, 1] ∩
          pixels smallImage ![4, 4, 0] ![2, 2, 1]).Nonempty) := by
  have hsums : SumsFit ![0, 0, 0] ![4, 4, 0] ![2, 2, 1] := by unfold SumsFit; decide
  exact ⟨hsums, (validateNoOverlap_exact_iff smallImage _ _ _ hsums).2 (.inr (by decide))⟩

/-- Two rows of pixels below each other have no pixel in common, and their copy is refused. -/
theorem validateNoOverlap_rows :
    SumsFit ![0, 0, 0] ![0, 8, 0] ![2, 1, 1] ∧
      validateNoOverlap smallImage ![0, 0, 0] ![0, 8, 0] ![2, 1, 1] = .memCopyOverlap ∧
      ¬(pixels smallImage ![0, 0, 0] ![2, 1, 1] ∩
        pixels smallImage ![0, 8, 0] ![2, 1, 1]).Nonempty := by
  refine ⟨by unfold SumsFit; decide, by decide, ?_⟩
  rw [share_pixel_iff]
  decide

end ConstructionKit.Image
