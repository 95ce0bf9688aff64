import Mathlib.Data.List.Perm.Basic

/-! Lists from which elements are taken out. -/

namespace ConstructionKit.ProofKit

variable {α β : Type} {R : α → β → Prop} {xs : List α} {ys : List β} {x : α} {y : β}

theorem find_perm_eraseP {p : α → Bool} (hfind : xs.find? p = some x) :
    xs.Perm (x :: xs.eraseP p) := by
  induction xs with
  | nil => cases hfind
  | cons y ys ih =>
    cases hy : p y with
    | true =>
      rw [List.find?_cons_of_pos hy] at hfind
      cases hfind
      rw [List.eraseP_cons_of_pos hy]
    | false =>
      have hnot : ¬p y = true := by rw [hy]; exact Bool.false_ne_true
      rw [List.find?_cons_of_neg hnot] at hfind
      rw [List.eraseP_cons_of_neg hnot]
      exact ((ih hfind).cons y).trans (List.Perm.swap ..)

theorem forall₂_eraseIdx (h : List.Forall₂ R xs ys) (i : Nat) :
    List.Forall₂ R (xs.eraseIdx i) (ys.eraseIdx i) := by
  induction h generalizing i with
  | nil => exact .nil
  | cons hxy hrest ih =>
    cases i with
    | zero => exact hrest
    | succ i => exact .cons hxy (ih i)

theorem forall₂_concat_iff (h : List.Forall₂ R xs ys) :
    List.Forall₂ R (xs ++ [x]) (ys ++ [y]) ↔ R x y := by
  induction h with
  | nil => simp
  | cons hxy _ ih => simp [hxy, ih]

end ConstructionKit.ProofKit
