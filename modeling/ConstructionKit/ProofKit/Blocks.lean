import Mathlib.Logic.Function.Basic

/-! Memory as blocks of cells that are allocated and freed as a whole.  An access outside of a block,
or to a block that is not there, has no result. -/

namespace ConstructionKit.ProofKit

open List Option Function

def Blocks (κ β : Type) : Type := κ → Option (List β)

namespace Blocks

variable {κ β : Type} {mem : Blocks κ β} {block : κ} {offset n : Nat} {cells xs ys : List β}

/-- No cells can be loaded from everywhere. -/
def load (mem : Blocks κ β) (block : κ) (offset n : Nat) : Option (List β) :=
  if n = 0 then some []
  else do
    let cells ← mem block
    if offset + n ≤ cells.length then some ((cells.drop offset).take n) else none

theorem load_eq_some (h : mem block = some cells) (hroom : offset + n ≤ cells.length) :
    mem.load block offset n = some ((cells.drop offset).take n) := by
  rw [load]
  split
  · next hzero => rw [hzero, take_zero]
  · simp only [h, bind_eq_bind, bind_some, if_pos hroom]

theorem load_middle {left right : List β} (h : mem block = some (left ++ xs ++ right))
    (hoffset : offset = left.length) (hn : n = xs.length) :
    mem.load block offset n = some xs := by
  have hroom : offset + n ≤ (left ++ xs ++ right).length := by
    simp only [length_append]
    omega
  rw [load_eq_some h hroom, hoffset, hn, append_assoc, drop_left, take_left]

theorem load_eq_none (h : mem block = some cells) (hn : n ≠ 0)
    (hroom : cells.length < offset + n) : mem.load block offset n = none := by
  simp only [load, if_neg hn, h, bind_eq_bind, bind_some,
    if_neg (Nat.not_le.2 hroom)]

variable [DecidableEq κ]

def set (mem : Blocks κ β) (block : κ) (cells : Option (List β)) : Blocks κ β :=
  update mem block cells

@[simp] theorem set_self (mem : Blocks κ β) (block : κ) (cells : Option (List β)) :
    mem.set block cells block = cells := update_self ..

theorem set_of_ne (mem : Blocks κ β) {block other : κ} (cells : Option (List β))
    (h : other ≠ block) : mem.set block cells other = mem other := update_of_ne h ..

@[simp] theorem set_set (mem : Blocks κ β) (block : κ) (cells cells' : Option (List β)) :
    (mem.set block cells).set block cells' = mem.set block cells' := update_idem ..

theorem set_eq_self {cells : Option (List β)} (h : mem block = cells) :
    mem.set block cells = mem := by
  subst h
  exact update_eq_self ..

def store (mem : Blocks κ β) (block : κ) (offset : Nat) (xs : List β) : Option (Blocks κ β) :=
  if xs.isEmpty then some mem
  else do
    let cells ← mem block
    if offset + xs.length ≤ cells.length then
      some (mem.set block (some (cells.take offset ++ xs ++ cells.drop (offset + xs.length))))
    else none

theorem store_eq_some (h : mem block = some cells) (hroom : offset + xs.length ≤ cells.length) :
    mem.store block offset xs =
      some (mem.set block (some (cells.take offset ++ xs ++ cells.drop (offset + xs.length)))) := by
  rw [store]
  split
  · next hempty =>
    rw [List.isEmpty_iff.1 hempty, length_nil, Nat.add_zero, append_nil,
      take_append_drop, set_eq_self h]
  · simp only [h, bind_eq_bind, bind_some, if_pos hroom]

theorem store_middle {left right : List β} (h : mem block = some (left ++ xs ++ right))
    (hoffset : offset = left.length) (hlength : ys.length = xs.length) :
    mem.store block offset ys = some (mem.set block (some (left ++ ys ++ right))) := by
  have hroom : offset + ys.length ≤ (left ++ xs ++ right).length := by
    simp only [length_append]
    omega
  rw [store_eq_some h hroom, hoffset, hlength, ← length_append, drop_left,
    append_assoc left xs, take_left]

theorem length_of_store {mem' : Blocks κ β} (h : mem block = some cells)
    (hstore : mem.store block offset xs = some mem') :
    ∃ cells', mem' block = some cells' ∧ cells'.length = cells.length := by
  rw [store] at hstore
  split at hstore
  · cases hstore
    exact ⟨cells, h, rfl⟩
  · simp only [h, bind_eq_bind, bind_some] at hstore
    split at hstore
    · cases hstore
      refine ⟨_, set_self .., ?_⟩
      simp only [length_append, length_take, length_drop]
      omega
    · cases hstore

theorem store_eq_none (h : mem block = some cells) (hxs : xs ≠ [])
    (hroom : cells.length < offset + xs.length) : mem.store block offset xs = none := by
  have hempty : ¬ xs.isEmpty = true := fun h => hxs (List.isEmpty_iff.1 h)
  simp only [store, if_neg hempty, h, bind_eq_bind, bind_some,
    if_neg (Nat.not_le.2 hroom)]

end Blocks

end ConstructionKit.ProofKit
