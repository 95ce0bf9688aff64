import Mathlib.Data.Finset.Max
import Mathlib.Data.Prod.Lex

/-! Which variant of a kernel the host and the RISC-V target take for a local size (`kernel.cpp`). -/

namespace ConstructionKit.Mux

open List

structure KernelVariant where
  minWorkWidth : Nat
  prefWorkWidth : Nat
  subGroupSize : Nat
  deriving DecidableEq

/-- The sizes in y and z are not read. -/
def isLegalKernelVariant (x : Nat) (v : KernelVariant) : Bool :=
  x % v.minWorkWidth == 0 && (v.subGroupSize == 0 || x % v.subGroupSize == 0)

/-- Whether a variant that is wider than the best one so far is taken. -/
abbrev Fits (x : Nat) (best v : KernelVariant) : Prop :=
  v.prefWorkWidth ≤ x ∧ (x % v.prefWorkWidth = 0 ∨ x % best.prefWorkWidth ≠ 0)

/-- The best variant after the loop has seen `v`. -/
def better (x : Nat) (best v : KernelVariant) : KernelVariant :=
  if v.prefWorkWidth = best.prefWorkWidth then
    if best.subGroupSize = 0 ∧ v.subGroupSize ≠ 0 then v else best
  else if v.prefWorkWidth > best.prefWorkWidth ∧ Fits x best v then v else best

/-- The first legal variant is the best one until another one is better. -/
def getKernelVariantForWGSize (x : Nat) (variants : List KernelVariant) : Option KernelVariant :=
  match variants.filter (isLegalKernelVariant x) with
  | [] => none
  | v :: variants => some (variants.foldl (better x) v)

/-- The preferred width, and whether sub-groups are not degenerate. -/
def kind (v : KernelVariant) : Nat ×ₗ Bool := toLex (v.prefWorkWidth, v.subGroupSize != 0)

/-- A legal variant is taken if there is one, of the same kind for any order of the variants. -/
structure OrderFree (x : Nat) (variants : List KernelVariant) : Prop where
  fails_iff : getKernelVariantForWGSize x variants = none ↔
    ∀ v ∈ variants, ¬isLegalKernelVariant x v
  legal : ∀ v ∈ getKernelVariantForWGSize x variants, v ∈ variants ∧ isLegalKernelVariant x v
  same : ∀ permuted, permuted.Perm variants →
    (getKernelVariantForWGSize x permuted).map kind =
      (getKernelVariantForWGSize x variants).map kind

section

variable {x : Nat} {u v : KernelVariant}

theorem kind_le : kind u ≤ kind v ↔ u.prefWorkWidth < v.prefWorkWidth ∨
    u.prefWorkWidth = v.prefWorkWidth ∧ (v.subGroupSize = 0 → u.subGroupSize = 0) := by
  simp [kind, Prod.Lex.toLex_le_toLex, Bool.le_iff_imp, not_imp_not]

/-- The best variant is one of those seen, and never gets worse. -/
theorem foldl_better (x : Nat) (b : KernelVariant) (variants : List KernelVariant) :
    kind b ≤ kind (variants.foldl (better x) b) ∧ variants.foldl (better x) b ∈ b :: variants := by
  refine List.foldlRecOn (motive := fun r => kind b ≤ kind r ∧ r ∈ b :: variants) variants _
    ⟨le_rfl, by simp⟩ fun r ⟨hle, hr⟩ v hv => ⟨hle.trans ?_, ?_⟩
  all_goals unfold better
  · rw [kind_le]
    grind
  · split_ifs <;> simp [hv, hr]

/-- A variant that is taken over every narrower one is not above the result. -/
theorem kind_le_foldl_better {b : KernelVariant} {variants : List KernelVariant}
    (hu : u ∈ b :: variants)
    (hfits : ∀ v ∈ b :: variants, v.prefWorkWidth < u.prefWorkWidth → Fits x v u) :
    kind u ≤ kind (variants.foldl (better x) b) := by
  rcases mem_cons.1 hu with rfl | hu
  · exact (foldl_better x u variants).1
  · obtain ⟨before, after, rfl⟩ := append_of_mem hu
    rw [foldl_append]
    refine le_trans ?_ (foldl_better x _ after).1
    have hbest := (foldl_better x b before).2
    generalize before.foldl (better x) b = best at hbest
    have hfits := hfits best (by grind)
    rw [kind_le, better]
    grind

theorem getKernelVariantForWGSize_cons (h : isLegalKernelVariant x v)
    (variants : List KernelVariant) : getKernelVariantForWGSize x (v :: variants) =
      some ((variants.filter (isLegalKernelVariant x)).foldl (better x) v) := by
  simp [getKernelVariantForWGSize, h]

end

/-- The choice depends on the order unless the widest legal variants are taken over each narrower one
that is legal. -/
theorem orderFree_iff (x : Nat) (variants : List KernelVariant) :
    OrderFree x variants ↔ ∀ w ∈ variants.filter (isLegalKernelVariant x),
      (∀ v ∈ variants.filter (isLegalKernelVariant x), v.prefWorkWidth ≤ w.prefWorkWidth) →
      ∀ b ∈ variants.filter (isLegalKernelVariant x), b.prefWorkWidth < w.prefWorkWidth →
        Fits x b w := by
  constructor
  · intro h w hw hwidest b hb hlt
    by_contra hfits
    rw [mem_filter] at hw hb
    let widest := variants.filter fun v => v.prefWorkWidth = w.prefWorkWidth
    let others := variants.filter fun v => !decide (v.prefWorkWidth = w.prefWorkWidth)
    have hothers : b ∈ others := mem_filter.2 ⟨hb.1, by simp [hlt.ne]⟩
    -- `w` is only left for variants of its width if it is the first one
    have hfirst := h.same _ (perm_cons_erase hw.1).symm
    -- and `b` is not left for one of these
    have hlast := h.same (b :: (widest ++ others.erase b)) <| perm_middle.symm.trans <|
      ((perm_cons_erase hothers).symm.append_left _).trans (filter_append_perm _ _)
    have hkept : (widest.filter (isLegalKernelVariant x)).foldl (better x) b = b :=
      List.foldlRecOn (motive := (· = b)) _ _ rfl fun r hr v hv => by grind [better]
    rw [← hlast, getKernelVariantForWGSize_cons hw.2, getKernelVariantForWGSize_cons hb.2,
      Option.map_some, Option.map_some,
      Option.some.injEq] at hfirst
    have hwide := (foldl_better x w _).1.trans_eq hfirst
    have hmem := (foldl_better x b ((others.erase b).filter (isLegalKernelVariant x))).2
    rw [kind_le] at hwide
    grind
  · intro hfits
    refine ⟨?_, ?_, fun permuted hperm => ?_⟩
    · unfold getKernelVariantForWGSize
      split
      · next hnil => simpa using hnil
      · next v vs hcons =>
        have hv := mem_filter.1 (hcons ▸ mem_cons_self)
        exact iff_of_false nofun fun h => h v hv.1 hv.2
    · intro v hv
      unfold getKernelVariantForWGSize at hv
      split at hv
      · cases hv
      · next u us hcons =>
        rw [← mem_filter, hcons, ← Option.some.inj hv]
        exact (foldl_better x u us).2
    · have hperm := hperm.filter (isLegalKernelVariant x)
      unfold getKernelVariantForWGSize
      generalize permuted.filter (isLegalKernelVariant x) = others at hperm
      generalize variants.filter (isLegalKernelVariant x) = legal at hperm hfits
      cases others with
      | nil => rw [hperm.nil_eq]
      | cons b others =>
        cases legal with
        | nil => simp at hperm
        | cons v legal =>
          obtain ⟨u, hu, hmax⟩ := Finset.exists_max_image (v :: legal).toFinset kind ⟨v, by simp⟩
          simp only [mem_toFinset] at hu hmax
          have hfits := hfits u hu fun v hv => by grind [kind_le]
          -- both results are of the greatest kind
          have hle := kind_le_foldl_better hu hfits
          have hle' := kind_le_foldl_better (hperm.mem_iff.2 hu) fun b hb =>
            hfits b (hperm.mem_iff.1 hb)
          have hge := hmax _ (foldl_better x v legal).2
          have hge' := hmax _ (hperm.mem_iff.1 (foldl_better x b others).2)
          exact congrArg some ((hge'.trans hle).antisymm (hge.trans hle'))

theorem not_orderFree : ¬OrderFree 4 [⟨1, 8, 0⟩, ⟨1, 4, 0⟩] :=
  fun h => absurd (h.same _ (.swap _ _ _)) (by decide)

end ConstructionKit.Mux
