import Mathlib

/-! The comparison operators of `cargo::small_vector` (`cargo/small_vector.h`).  They only read the
elements, so a vector is the list of them here. -/

namespace ConstructionKit.Cargo

variable {T : Type} [LinearOrder T] (a b : List T)

/-- `std::lexicographical_compare` -/
def lexicographicalCompare (comp : T → T → Bool) : List T → List T → Bool
  | _, [] => false
  | [], _ :: _ => true
  | x :: xs, y :: ys =>
    if comp x y then true else if comp y x then false else lexicographicalCompare comp xs ys

/-- `operator==`, with `std::equal` -/
def operatorEq (left right : List T) : Bool :=
  if left.length ≠ right.length then false else (left.zip right).all fun (x, y) => x = y

def operatorLt (left right : List T) : Bool := lexicographicalCompare (· < ·) left right

def operatorLe (left right : List T) : Bool := lexicographicalCompare (· ≤ ·) left right

def operatorGt (left right : List T) : Bool := lexicographicalCompare (· > ·) left right

def operatorGe (left right : List T) : Bool := lexicographicalCompare (· ≥ ·) left right

/-- The operators are those of one total order. -/
structure Consistent (a b : List T) : Prop where
  one : [operatorLt a b, operatorEq a b, operatorLt b a].count true = 1
  le : operatorLe a b = !operatorLt b a
  gt : operatorGt a b = operatorLt b a
  ge : operatorGe a b = !operatorLt a b

theorem operatorEq_eq : operatorEq a b = decide (a = b) := by
  induction a generalizing b with
  | nil => cases b <;> simp [operatorEq]
  | cons x xs ih =>
    cases b with
    | nil => simp [operatorEq]
    | cons y ys =>
      have := ih ys
      by_cases hlength : xs.length = ys.length <;> simp_all [operatorEq]

theorem operatorLt_eq : operatorLt a b = decide (a < b) := by
  induction a generalizing b with
  | nil => cases b <;> simp [operatorLt, lexicographicalCompare]
  | cons x xs ih =>
    cases b with
    | nil => simp [operatorLt, lexicographicalCompare]
    | cons y ys =>
      have := ih ys
      rw [operatorLt] at this ⊢
      rcases lt_trichotomy x y with h | rfl | h
      · simp [lexicographicalCompare, List.cons_lt_cons_iff, h]
      · simp [lexicographicalCompare, this]
      · simp [lexicographicalCompare, h, List.cons_lt_cons_iff, h.ne']

theorem operatorGt_self (a : List T) : operatorGt a a = false := by
  induction a with
  | nil => rfl
  | cons x xs ih => simpa [operatorGt, lexicographicalCompare] using ih

theorem one_holds :
    [operatorLt a b, operatorEq a b, operatorLt b a].count true = 1 := by
  rw [operatorLt_eq, operatorLt_eq, operatorEq_eq]
  rcases lt_trichotomy a b with h | rfl | h
  · simp [h, h.ne, h.not_gt]
  · simp
  · simp [h, h.ne', h.not_gt]

/-- `<=` and `>=` are decided by the first elements, and a vector that ends first is less for all
of the operators. -/
theorem operators_consistent_iff (a b : List T) :
    Consistent a b ↔ a ≠ [] ∧ b ≠ [] ∧ (a.head? = b.head? → a = b) := by
  constructor
  · rintro ⟨-, hle, -, hge⟩
    cases a with
    | nil => cases b <;> cases hge
    | cons x xs =>
      cases b with
      | nil => cases hge
      | cons y ys =>
        refine ⟨nofun, nofun, fun hhead => ?_⟩
        cases hhead
        have hle : xs ≤ ys := by simpa [operatorLt_eq, operatorLe, lexicographicalCompare] using hle
        have hge : ys ≤ xs := by simpa [operatorLt_eq, operatorGe, lexicographicalCompare] using hge
        rw [le_antisymm hle hge]
  · rintro ⟨ha, hb, heq⟩
    obtain ⟨x, xs, rfl⟩ := List.exists_cons_of_ne_nil ha
    obtain ⟨y, ys, rfl⟩ := List.exists_cons_of_ne_nil hb
    rcases lt_trichotomy x y with h | rfl | h
    case inr.inl =>
      obtain rfl : xs = ys := (List.cons.inj (heq rfl)).2
      refine ⟨one_holds _ _, ?_, ?_, ?_⟩ <;>
        simp [operatorLe, operatorGt_self, operatorGe, operatorLt_eq, lexicographicalCompare]
    all_goals
      refine ⟨one_holds _ _, ?_, ?_, ?_⟩ <;>
        simp [operatorLe, operatorGt, operatorGe, operatorLt, lexicographicalCompare, h, h.le]

/-- `{1, 2} <= {1, 1}`, although `{1, 1} < {1, 2}`. -/
theorem operators_inconsistent : ¬ Consistent [1, 2] [1, 1] := fun h => by cases h.le

end ConstructionKit.Cargo
