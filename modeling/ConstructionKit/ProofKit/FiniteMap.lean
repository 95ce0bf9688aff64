import Mathlib.Data.Finmap

/-! Searching a finite map. -/

namespace ConstructionKit.ProofKit

variable {α : Type} [DecidableEq α] {β : α → Type}

theorem foldl_or_iff {γ : Type} (test : γ → Bool) (list : List γ) (start : Bool) :
    list.foldl (fun found x => found || test x) start = true ↔
      start = true ∨ ∃ x ∈ list, test x = true := by
  induction list generalizing start with
  | nil => simp
  | cons x list ih => simp [ih, or_assoc]

theorem any_iff_lookup {map : Finmap β} {test : ∀ key, β key → Bool} :
    map.any test = true ↔ ∃ key value, map.lookup key = some value ∧ test key value = true := by
  induction map using Finmap.induction_on with
  | H list =>
    change list.entries.foldl (fun found x => found || test x.1 x.2) false = true ↔ _
    rw [foldl_or_iff (fun x : Sigma β => test x.1 x.2)]
    simp [AList.mem_lookup_iff.symm]

end ConstructionKit.ProofKit
