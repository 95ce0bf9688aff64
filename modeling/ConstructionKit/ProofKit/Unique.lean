import Mathlib.Data.List.Destutter

/-! Lists without repeated neighbours, and lists without repetitions. -/

namespace ConstructionKit.ProofKit

open List

variable {α : Type} [DecidableEq α]

theorem mem_destutter'_ne {x a : α} (l : List α) :
    x ∈ l.destutter' (· ≠ ·) a ↔ x ∈ a :: l := by
  induction l generalizing a with
  | nil => simp
  | cons b l ih =>
    by_cases h : a = b
    · subst h
      rw [destutter'_cons_neg _ (by simp), ih]
      simp
    · rw [destutter'_cons_pos _ h, mem_cons, ih, mem_cons (l := b :: l)]

/-- Removing repeated neighbours keeps the elements. -/
theorem mem_destutter_ne {x : α} {l : List α} : x ∈ l.destutter (· ≠ ·) ↔ x ∈ l := by
  cases l with
  | nil => rfl
  | cons a l => exact mem_destutter'_ne l

/-- Lists put one behind the other repeat nothing if none of them does and each element tells from
which of them it comes. -/
theorem nodup_flatMap_of_key {ι β : Type} {l : List ι} {f : ι → List β} (key : β → ι)
    (hkey : ∀ i ∈ l, ∀ b ∈ f i, key b = i) (hl : l.Nodup) (hf : ∀ i ∈ l, (f i).Nodup) :
    (l.flatMap f).Nodup := by
  rw [nodup_flatMap]
  refine ⟨hf, hl.imp_of_mem fun {i j} hi hj hij => ?_⟩
  intro b hbi hbj
  exact hij ((hkey i hi b hbi).symm.trans (hkey j hj b hbj))

/-- Lists that put one behind the other repeat nothing have no element in common. -/
theorem eq_of_nodup_flatMap {ι β : Type} {l : List ι} {f : ι → List β} (h : (l.flatMap f).Nodup)
    {i j : ι} (hi : i ∈ l) (hj : j ∈ l) {b : β} (hbi : b ∈ f i) (hbj : b ∈ f j) : i = j := by
  by_contra hne
  obtain ⟨front, back, rfl⟩ := append_of_mem hi
  have hpairs := (nodup_flatMap.1 h).2
  rw [pairwise_append, pairwise_cons] at hpairs
  obtain ⟨-, ⟨hback, -⟩, hfront⟩ := hpairs
  rw [mem_append, mem_cons] at hj
  obtain hj | rfl | hj := hj
  · exact hfront j hj i mem_cons_self hbj hbi
  · exact hne rfl
  · exact hback j hj hbi hbj

end ConstructionKit.ProofKit
