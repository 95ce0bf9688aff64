import Mathlib.Data.List.Basic

/-! Lists of stores to a memory. -/

namespace ConstructionKit.ProofKit

open Function

variable {α β γ : Type} [DecidableEq α] {a : α} {stores : List (α × β)}

def storeAll (f : α → β) : List (α × β) → α → β
  | [] => f
  | (a, v) :: stores => storeAll (update f a v) stores

theorem storeAll_of_notMem (f : α → β) (ha : a ∉ stores.map Prod.fst) : storeAll f stores a = f a := by
  induction stores generalizing f with
  | nil => rfl
  | cons store stores ih =>
    obtain ⟨hne, hrest⟩ := not_or.1 (mt List.mem_cons.2 ha)
    rw [storeAll, ih _ hrest, update_of_ne hne]

/-- Where a list stores, what was there before does not matter; another memory that gets the images of
its values has the image there. -/
theorem storeAll_map (g : β → γ) (f : α → β) (f' : α → γ) (ha : a ∈ stores.map Prod.fst) :
    storeAll f' (stores.map (Prod.map id g)) a = g (storeAll f stores a) := by
  induction stores generalizing f f' with
  | nil => cases ha
  | cons store stores ih =>
    by_cases hrest : a ∈ stores.map Prod.fst
    · exact ih _ _ hrest
    · obtain rfl := (List.mem_cons.1 ha).resolve_right hrest
      have hrest' : store.1 ∉ (stores.map (Prod.map id g)).map Prod.fst := by
        rw [List.map_map]
        exact hrest
      calc storeAll f' ((store :: stores).map (Prod.map id g)) store.1
          = update f' store.1 (g store.2) store.1 := storeAll_of_notMem _ hrest'
        _ = g (update f store.1 store.2 store.1) := by
          rw [update_self, update_self]
        _ = g (storeAll f (store :: stores) store.1) := by
          rw [storeAll, storeAll_of_notMem _ hrest]

theorem storeAll_key (p : α → γ) (f : α → γ) (ha : a ∈ stores.map Prod.fst) :
    storeAll f (stores.map fun store => (store.1, p store.1)) a = p a := by
  induction stores generalizing f with
  | nil => cases ha
  | cons store stores ih =>
    by_cases hrest : a ∈ stores.map Prod.fst
    · exact ih _ hrest
    · obtain rfl := (List.mem_cons.1 ha).resolve_right hrest
      have hrest' : store.1 ∉ (stores.map fun store => (store.1, p store.1)).map Prod.fst := by
        rw [List.map_map]
        exact hrest
      rw [List.map_cons, storeAll, storeAll_of_notMem _ hrest', update_self]

end ConstructionKit.ProofKit
