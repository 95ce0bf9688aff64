import Mathlib.Algebra.Group.Nat.Defs
import ConstructionKit.Cargo.SmallVector

/-! The representation of lists by vectors, and the operations on one vector that keep it. -/

namespace ConstructionKit.Cargo

open ProofKit List Function Option UInt64

variable {T : Type} {N : UInt64} {s s' : State T} {v : Nat} {vec vec' : Vec} {xs ys : List T}

/-- The lists that the vectors stand for. -/
abbrev Lists (T : Type) : Type := Nat → Option (List T)

/-- A vector of a list: the embedded storage is there, and the elements are in it or on the heap, in
a block of the capacity. -/
structure VecRep (N : UInt64) (mem : Blocks Block (Option T)) (v : Nat) (vec : Vec) (xs : List T) :
    Prop where
  storage : ∃ cells, mem (.embedded v) = some cells ∧ cells.length = N.toNat
  place : (vec.start = .embedded v ∧ vec.capacity = N) ∨ ((∃ b, vec.start = .heap b) ∧ N < vec.capacity)
  cells : ∃ rest, mem vec.start = some (xs.map some ++ rest) ∧
    xs.length + rest.length = vec.capacity.toNat
  size : vec.size = xs.length

structure Rep (N : UInt64) (s : State T) (a : Lists T) : Prop where
  dead : ∀ v, a v = none → s.vectors v = none
  live : ∀ v xs, a v = some xs → ∃ vec, s.vectors v = some vec ∧ VecRep N s.mem v vec xs
  separate : ∀ {v v' vec vec' b}, s.vectors v = some vec → s.vectors v' = some vec' →
    vec.start = .heap b → vec'.start = .heap b → v = v'
  fresh : ∀ b, s.allocated ≤ b → s.mem (.heap b) = none

variable {a a' : Lists T}

theorem Rep.vecRep (h : Rep N s a) (hvec : s.vectors v = some vec) :
    ∃ xs, a v = some xs ∧ VecRep N s.mem v vec xs := by
  cases hv : a v with
  | none =>
    rw [h.dead v hv] at hvec
    cases hvec
  | some xs =>
    obtain ⟨vec', hvec', hrep⟩ := h.live v xs hv
    cases hvec.symm.trans hvec'
    exact ⟨xs, rfl, hrep⟩

variable {mem : Blocks Block (Option T)} {block : Block} {b : Nat}

section

variable (h : VecRep N mem v vec xs)
include h

theorem VecRep.congr {mem' : Blocks Block (Option T)}
    (hembedded : mem' (.embedded v) = mem (.embedded v)) (hstart : mem' vec.start = mem vec.start) :
    VecRep N mem' v vec xs :=
  ⟨hembedded ▸ h.storage, h.place, hstart ▸ h.cells, h.size⟩

theorem VecRep.embedded_or_heap :
    vec.start = .embedded v ∨ ∃ b, vec.start = .heap b :=
  h.place.imp (·.1) (·.1)

theorem VecRep.start_eq (hcapacity : vec.capacity = N) : vec.start = .embedded v := by
  rcases h.place with ⟨hstart, -⟩ | ⟨-, hlt⟩
  · exact hstart
  · rw [hcapacity] at hlt
    exact absurd hlt (UInt64.lt_irrefl N)

theorem VecRep.capacity_eq (hstart : vec.start = .embedded v) : vec.capacity = N := by
  rcases h.place with ⟨-, hcapacity⟩ | ⟨⟨b, hheap⟩, -⟩
  · exact hcapacity
  · cases hstart.symm.trans hheap

theorem VecRep.heap_of_ne
    (hne : vec.capacity ≠ N) : (∃ b, vec.start = .heap b) ∧ N < vec.capacity :=
  h.place.resolve_left fun hsmall => hne hsmall.2

end

theorem Rep.lt_allocated (h : Rep N s a) (hlive : s.mem (.heap b) ≠ none) : b < s.allocated := by
  by_contra hge
  exact hlive (h.fresh b (Nat.le_of_not_lt hge))

/-! ### Frames -/

/-- The blocks of a vector. -/
def Owned (s : State T) (v : Nat) (block : Block) : Prop :=
  block = .embedded v ∨ ∃ vec, s.vectors v = some vec ∧ block = vec.start

theorem Rep.embedded_or_heap (h : Rep N s a) (hvec : s.vectors v = some vec)
    (hblock : block = .embedded v ∨ block = vec.start) :
    block = .embedded v ∨ ∃ b, block = .heap b ∧ vec.start = .heap b := by
  obtain ⟨_, -, hrep⟩ := h.vecRep hvec
  rcases hblock with hblock | rfl
  · exact .inl hblock
  · exact hrep.embedded_or_heap.imp_right fun ⟨b, heq⟩ => ⟨b, heq, heq⟩

theorem Rep.not_owned (h : Rep N s a) {u : Nat} {vecU : Vec} (hu : s.vectors u = some vecU)
    (hne : u ≠ v) (hblock : block = .embedded u ∨ block = vecU.start) :
    ¬ Owned s v block := by
  rintro (hv | ⟨vec, hvec, hv⟩)
  · rcases h.embedded_or_heap hu hblock with rfl | ⟨b, rfl, -⟩
    · exact hne (Block.embedded.inj hv)
    · cases hv
  · rcases h.embedded_or_heap hu hblock with rfl | ⟨b, rfl, hheapU⟩ <;>
      rcases h.embedded_or_heap hvec (.inr hv) with heq | ⟨b', heq, hheap⟩
    · exact hne (Block.embedded.inj heq)
    · cases heq
    · cases heq
    · exact hne (h.separate hu hvec hheapU (heq ▸ hheap))

theorem Rep.owned_old (h : Rep N s a) (hvec : s.vectors v = some vec)
    (hblock : block = .embedded v ∨ block = vec.start) :
    block ≠ .localArray ∧ ∀ b, block = .heap b → b < s.allocated := by
  obtain ⟨xs, -, hrep⟩ := h.vecRep hvec
  obtain ⟨rest, hcells, -⟩ := hrep.cells
  rcases h.embedded_or_heap hvec hblock with rfl | ⟨b, rfl, hheap⟩
  · exact ⟨nofun, nofun⟩
  · refine ⟨nofun, fun _ heq => ?_⟩
    cases heq
    apply h.lt_allocated
    rw [← hheap, hcells]
    exact some_ne_none _

/-- Some vectors change, and with them only their blocks, new blocks on the heap, and the local
array. -/
theorem Rep.change (h : Rep N s a) (touched : Nat → Prop)
    (hothers : ∀ u, ¬ touched u → s'.vectors u = s.vectors u ∧ a' u = a u)
    (hmem : ∀ block, (∀ w, touched w → ¬ Owned s w block) → block ≠ .localArray →
      (∀ b, block = .heap b → b < s.allocated) → s'.mem block = s.mem block)
    (hdead : ∀ u, touched u → a' u = none → s'.vectors u = none)
    (hlive : ∀ u xs, touched u → a' u = some xs →
      ∃ vec, s'.vectors u = some vec ∧ VecRep N s'.mem u vec xs)
    (hstart : ∀ u vec b, touched u → s'.vectors u = some vec → vec.start = .heap b →
      s.allocated ≤ b ∨ ∃ w, touched w ∧ Owned s w (.heap b))
    (hseparate : ∀ u u' vec vec' b, touched u → touched u' → s'.vectors u = some vec →
      s'.vectors u' = some vec' → vec.start = .heap b → vec'.start = .heap b → u = u')
    (hfresh : ∀ b, s'.allocated ≤ b → s'.mem (.heap b) = none) : Rep N s' a' := by
  -- the heap block of a vector that changes is not that of one that does not
  have hcross : ∀ {u u' vec vec' b}, touched u → ¬ touched u' → s'.vectors u = some vec →
      s'.vectors u' = some vec' → vec.start = .heap b → vec'.start ≠ .heap b := by
    intro u u' vec vec' b hu hu' hvec hvec' hb hb'
    rw [(hothers u' hu').1] at hvec'
    rcases hstart u vec b hu hvec hb with hnew | ⟨w, hw, howned⟩
    · exact absurd ((h.owned_old hvec' (.inr rfl)).2 b hb') (Nat.not_lt.2 hnew)
    · exact h.not_owned hvec' (fun heq => hu' (heq ▸ hw)) (.inr hb'.symm) howned
  constructor
  · intro u hu
    by_cases htouched : touched u
    · exact hdead u htouched hu
    · rw [(hothers u htouched).1]
      exact h.dead u ((hothers u htouched).2 ▸ hu)
  · intro u xs hu
    by_cases htouched : touched u
    · exact hlive u xs htouched hu
    · obtain ⟨vec, hvec, hrep⟩ := h.live u xs ((hothers u htouched).2 ▸ hu)
      have hkept : ∀ block, block = .embedded u ∨ block = vec.start → s'.mem block = s.mem block := by
        intro block hblock
        obtain ⟨hlocal, hold⟩ := h.owned_old hvec hblock
        exact hmem block (fun w hw => h.not_owned hvec (fun heq => htouched (heq ▸ hw)) hblock) hlocal hold
      exact ⟨vec, (hothers u htouched).1.trans hvec, hrep.congr (hkept _ (.inl rfl)) (hkept _ (.inr rfl))⟩
  · intro u u' vec vec' b hvec hvec' hb hb'
    by_cases hu : touched u
    · by_cases hu' : touched u'
      · exact hseparate u u' vec vec' b hu hu' hvec hvec' hb hb'
      · exact absurd hb' (hcross hu hu' hvec hvec' hb)
    · by_cases hu' : touched u'
      · exact absurd hb (hcross hu' hu hvec' hvec hb')
      · rw [(hothers u hu).1] at hvec
        rw [(hothers u' hu').1] at hvec'
        exact h.separate hvec hvec' hb hb'
  · exact hfresh

theorem Rep.changeOne (h : Rep N s a) (hvec : s.vectors v = some vec)
    (hvectors : s'.vectors = update s.vectors v (some vec'))
    (hmem : ∀ block, ¬ Owned s v block → block ≠ .localArray →
      (∀ b, block = .heap b → b < s.allocated) → s'.mem block = s.mem block)
    (hrep : VecRep N s'.mem v vec' xs)
    (hstart : ∀ b, vec'.start = .heap b → s.allocated ≤ b ∨ vec.start = .heap b)
    (hfresh : ∀ b, s'.allocated ≤ b → s'.mem (.heap b) = none) :
    Rep N s' (update a v (some xs)) := by
  have hself : s'.vectors v = some vec' := by rw [hvectors, update_self]
  apply h.change (· = v)
  · intro u hu
    rw [hvectors, update_of_ne hu, update_of_ne hu]
    exact ⟨rfl, rfl⟩
  · exact fun block howned => hmem block (howned v rfl)
  · rintro u rfl hu
    rw [update_self] at hu
    cases hu
  · rintro u ys rfl hu
    rw [update_self] at hu
    cases hu
    exact ⟨vec', hself, hrep⟩
  · rintro u vec'' b rfl hvec'' hb
    cases hself.symm.trans hvec''
    exact (hstart b hb).imp_right fun heq => ⟨u, rfl, .inr ⟨vec, hvec, heq.symm⟩⟩
  · rintro u u' _ _ _ rfl rfl _ _ _ _
    rfl
  · exact hfresh

/-! ### Accesses to a block -/

section Accesses

variable {left right mid mid' : List (Option T)} {offset n : Nat}

theorem State.store_middle (h : s.mem block = some (left ++ mid ++ right))
    (hoffset : offset = left.length) (hlength : mid'.length = mid.length) :
    s.store block offset mid' = some (s.setBlock block (some (left ++ mid' ++ right))) := by
  rw [State.store, Blocks.store_middle h hoffset hlength]
  rfl

theorem State.destroy_middle (offset n : Nat) (h : s.mem block = some (left ++ mid ++ right))
    (hoffset : offset = left.length) (hn : n = mid.length) :
    s.destroy block offset n = some (s.setBlock block (some (left ++ .replicate n none ++ right))) :=
  State.store_middle h hoffset (by rw [length_replicate, hn])

theorem State.store_nil (s : State T) (block : Block) (offset : Nat) :
    s.store block offset [] = some s := rfl

theorem State.store_eq_none {cells : List (Option T)} (h : s.mem block = some cells)
    (hmid : mid ≠ []) (hroom : cells.length < offset + mid.length) :
    s.store block offset mid = none := by
  rw [State.store, Blocks.store_eq_none h hmid hroom]
  rfl

@[simp] theorem State.setBlock_setBlock (s : State T) (block : Block)
    (cells cells' : Option (List (Option T))) :
    (s.setBlock block cells).setBlock block cells' = s.setBlock block cells' := by
  rw [setBlock, setBlock, setBlock, Blocks.set_set]

@[simp] theorem State.setBlock_mem_self (s : State T) (block : Block)
    (cells : Option (List (Option T))) : (s.setBlock block cells).mem block = cells :=
  Blocks.set_self ..

theorem State.setBlock_mem_of_ne (s : State T) {other : Block}
    (cells : Option (List (Option T))) (h : other ≠ block) :
    (s.setBlock block cells).mem other = s.mem other :=
  Blocks.set_of_ne _ _ h

theorem State.mem_split {cells : List (Option T)} (n : Nat) (h : s.mem block = some cells) :
    s.mem block = some ([] ++ cells.take n ++ cells.drop n) := by
  rw [nil_append, take_append_drop, h]

section Transfers

variable (keep : Bool) (offset n : Nat) (h : s.mem block = some (left ++ mid ++ right))
  (hoffset : offset = left.length) (hn : n = mid.length)

include h hoffset hn

/-- The elements are read, they are kept or destroyed where they were, and then they are stored. -/
theorem State.transfer_eq (dest : Block) (destOffset : Nat) :
    ∃ mid' : List (Option T), mid'.length = mid.length ∧
      s.transfer keep block offset n dest destOffset =
        (s.setBlock block (some (left ++ mid' ++ right))).store dest destOffset mid := by
  rw [State.transfer, Blocks.load_middle h hoffset hn]
  cases keep with
  | true =>
    refine ⟨mid, rfl, ?_⟩
    rw [State.setBlock, Blocks.set_eq_self h]
    rfl
  | false =>
    refine ⟨.replicate n none, by rw [length_replicate, hn], ?_⟩
    rw [State.destroy_middle offset n h hoffset hn]
    rfl

theorem State.transfer_within (dest : Nat) (hroom : dest + n ≤ (left ++ mid ++ right).length) :
    ∃ mid' : List (Option T), mid'.length = mid.length ∧
      s.transfer keep block offset n block dest = some (s.setBlock block
        (some ((left ++ mid' ++ right).take dest ++ mid ++
          (left ++ mid' ++ right).drop (dest + mid.length)))) := by
  obtain ⟨mid', hlength, htransfer⟩ := State.transfer_eq keep offset n h hoffset hn block dest
  refine ⟨mid', hlength, ?_⟩
  have hroom' : dest + mid.length ≤ (left ++ mid' ++ right).length := by
    simp only [length_append] at hroom ⊢
    omega
  rw [htransfer, State.store, Blocks.store_eq_some (State.setBlock_mem_self ..) hroom', bind_eq_bind,
    bind_some]
  simp only [State.setBlock, Blocks.set_set, Option.pure_def]

theorem State.transfer_eq_none (dest : Nat) (hmid : mid ≠ [])
    (hroom : (left ++ mid ++ right).length < dest + n) :
    s.transfer keep block offset n block dest = none := by
  obtain ⟨mid', hlength, htransfer⟩ := State.transfer_eq keep offset n h hoffset hn block dest
  rw [htransfer]
  refine State.store_eq_none (State.setBlock_mem_self ..) hmid ?_
  simp only [length_append] at hroom ⊢
  omega

theorem State.transfer_to {dest : Block} (hne : dest ≠ block) {left' right' old : List (Option T)}
    (hdest : s.mem dest = some (left' ++ old ++ right')) {destOffset : Nat}
    (hdestOffset : destOffset = left'.length) (hold : mid.length = old.length) :
    ∃ mid' : List (Option T), mid'.length = mid.length ∧
      s.transfer keep block offset n dest destOffset =
        some ((s.setBlock block (some (left ++ mid' ++ right))).setBlock dest
          (some (left' ++ mid ++ right'))) := by
  obtain ⟨mid', hlength, htransfer⟩ := State.transfer_eq keep offset n h hoffset hn dest destOffset
  refine ⟨mid', hlength, htransfer.trans ?_⟩
  exact State.store_middle ((State.setBlock_mem_of_ne _ _ hne).trans hdest) hdestOffset hold

end Transfers

theorem State.length_of_store {cells : List (Option T)} (h : s.mem block = some cells)
    (hstore : s.store block offset mid = some s') :
    ∃ cells', s'.mem block = some cells' ∧ cells'.length = cells.length := by
  obtain ⟨mem', hmem', hstore⟩ := bind_eq_some_iff.1 hstore
  cases hstore
  exact Blocks.length_of_store h hmem'

theorem State.length_of_transfer {keep : Bool} {dest : Nat} {cells : List (Option T)}
    (h : s.mem block = some cells)
    (htransfer : s.transfer keep block offset n block dest = some s') :
    ∃ cells', s'.mem block = some cells' ∧ cells'.length = cells.length := by
  obtain ⟨values, -, htransfer⟩ := bind_eq_some_iff.1 htransfer
  obtain ⟨s₁, hsource, hstore⟩ := bind_eq_some_iff.1 htransfer
  have hlive : ∃ cells', s₁.mem block = some cells' ∧ cells'.length = cells.length := by
    cases keep with
    | true =>
      cases hsource
      exact ⟨cells, h, rfl⟩
    | false => exact State.length_of_store h hsource
  obtain ⟨cells₁, hcells₁, hlength₁⟩ := hlive
  obtain ⟨cells', hcells', hlength'⟩ := State.length_of_store hcells₁ hstore
  exact ⟨cells', hcells', hlength'.trans hlength₁⟩

end Accesses

/-! ### Changes in place -/

/-- The elements of a vector and its size change, in its block. -/
def State.put (s : State T) (v : Nat) (vec : Vec) (cells : List (Option T)) (size : Nat) : State T :=
  (s.setBlock vec.start (some cells)).setVec v (some { vec with size })

section

variable (h : Rep N s a)
include h

section

variable (hvec : s.vectors v = some vec)
include hvec

theorem Rep.put {cells : List (Option T)}
    (hcells : ys.map some <+: cells) (hlength : cells.length = vec.capacity.toNat)
    {size : Nat} (hsize : size = ys.length) :
    Rep N (s.put v vec cells size) (update a v (some ys)) := by
  obtain ⟨xs, -, hrep⟩ := h.vecRep hvec
  obtain ⟨rest, rfl⟩ := hcells
  subst hsize
  rw [length_append, length_map] at hlength
  apply h.changeOne hvec rfl
  · intro block howned _ _
    exact Blocks.set_of_ne _ _ fun heq => howned (.inr ⟨vec, hvec, heq⟩)
  · constructor
    · rcases hrep.place with ⟨hstart, hcapacity⟩ | ⟨⟨b, hstart⟩, -⟩
      · refine ⟨ys.map some ++ rest, ?_, ?_⟩
        · rw [State.put, hstart]
          exact Blocks.set_self ..
        · rw [length_append, length_map, hlength, hcapacity]
      · obtain ⟨cells, hcells, hN⟩ := hrep.storage
        refine ⟨cells, (Blocks.set_of_ne _ _ ?_).trans hcells, hN⟩
        rw [hstart]
        exact Block.noConfusion
    · exact hrep.place
    · exact ⟨rest, Blocks.set_self .., hlength⟩
    · rfl
  · exact fun b hb => .inr hb
  · intro b hb
    refine (Blocks.set_of_ne _ _ ?_).trans (h.fresh b hb)
    rintro heq
    exact absurd ((h.owned_old hvec (.inr rfl)).2 b heq.symm) (Nat.not_lt.2 hb)

theorem Rep.cells (hv : a v = some xs) :
    vec.size = xs.length ∧ ∃ rest, s.mem vec.start = some (xs.map some ++ rest) ∧
      xs.length + rest.length = vec.capacity.toNat := by
  obtain ⟨ys, hys, hrep⟩ := h.vecRep hvec
  cases hv.symm.trans hys
  exact ⟨hrep.size, hrep.cells⟩

theorem destroy_eq :
    ∃ cells, s.destroy vec.start 0 vec.size = some (s.setBlock vec.start (some cells)) ∧
      cells.length = vec.capacity.toNat := by
  obtain ⟨xs, hv, -⟩ := h.vecRep hvec
  obtain ⟨hsize, rest, hcells, hlength⟩ := h.cells hvec hv
  have hsource : s.mem vec.start = some ([] ++ xs.map some ++ rest) := hcells
  refine ⟨[] ++ .replicate vec.size none ++ rest, ?_, ?_⟩
  · exact State.destroy_middle 0 vec.size hsource rfl (by rw [length_map, hsize])
  · rw [nil_append, length_append, length_replicate, hsize, hlength]

theorem clear_eq :
    ∃ cells, clear s v = some (s.put v vec cells 0) ∧ cells.length = vec.capacity.toNat := by
  obtain ⟨cells, hdestroy, hlength⟩ := destroy_eq h hvec
  refine ⟨cells, ?_, hlength⟩
  simp only [clear, hvec, hdestroy, bind_eq_bind, bind_some]
  rfl

end

theorem clear_rep (hv : a v = some xs) :
    ∃ s', clear s v = some s' ∧ Rep N s' (update a v (some [])) := by
  obtain ⟨vec, hvec, -⟩ := h.live v xs hv
  obtain ⟨cells, hclear, hlength⟩ := clear_eq h hvec
  have hnil : ([] : List T).map some <+: cells := nil_prefix
  exact ⟨_, hclear, h.put hvec hnil hlength rfl⟩

theorem eraseRange_eq {left mid right : List T} (hvec : s.vectors v = some vec)
    (hv : a v = some (left ++ mid ++ right)) :
    ∃ cells, eraseRange s v left.length (left.length + mid.length) =
        some (s.put v vec cells (left ++ right).length) ∧
      (left ++ right).map some <+: cells ∧ cells.length = vec.capacity.toNat := by
  obtain ⟨hsize, rest, hcells, hlength⟩ := h.cells hvec hv
  simp only [length_append] at hsize hlength
  rw [map_append, map_append] at hcells
  have hlast : ¬ vec.size < left.length + mid.length := by omega
  have htail : vec.size - (left.length + mid.length) = right.length := by omega
  have hgone : vec.size - (left.length + right.length) = mid.length := by omega
  obtain ⟨right', hright', hmove⟩ := State.transfer_within false (left.length + mid.length)
    right.length hcells (by simp only [length_append, length_map]) (by rw [length_map])
    left.length (by simp only [length_append, length_map]; omega)
  -- the elements in front stay, and the tail is behind them
  have htake : (left.map some ++ mid.map some ++ right' ++ rest).take left.length = left.map some := by
    rw [append_assoc, append_assoc]
    exact take_left' (length_map ..)
  rw [htake, length_map] at hmove
  have hdrop : ((left.map some ++ mid.map some ++ right' ++ rest).drop
      (left.length + right.length)).length = mid.length + rest.length := by
    simp only [length_drop, length_append, length_map] at hright' ⊢
    omega
  generalize (left.map some ++ mid.map some ++ right' ++ rest).drop (left.length + right.length) =
    behind at hmove hdrop
  rw [← take_append_drop mid.length behind, ← append_assoc, ← map_append] at hmove
  have hdestroy := State.destroy_middle (left.length + right.length) mid.length
    (State.setBlock_mem_self s vec.start (some ((left ++ right).map some ++ behind.take mid.length ++
      behind.drop mid.length))) (by rw [length_map, length_append])
    (by rw [length_take]; omega)
  refine ⟨(left ++ right).map some ++ .replicate mid.length none ++ behind.drop mid.length, ?_, ?_, ?_⟩
  · simp only [eraseRange, hvec, bind_eq_bind, bind_some, if_neg hlast, htail, State.move,
      hmove, hgone, hdestroy, State.setBlock_setBlock, length_append]
    rfl
  · rw [append_assoc]
    exact prefix_append _ _
  · simp only [length_append, length_map, length_replicate, length_drop]
    omega

theorem eraseRange_rep (hv : a v = some xs) {first last : Nat} (hfirst : first ≤ last)
    (hlast : last ≤ xs.length) :
    ∃ s', eraseRange s v first last = some s' ∧
      Rep N s' (update a v (some (xs.take first ++ xs.drop last))) := by
  obtain ⟨vec, hvec, -⟩ := h.live v xs hv
  have hsplit : xs.take first ++ (xs.drop first).take (last - first) ++ xs.drop last = xs := by
    calc xs.take first ++ (xs.drop first).take (last - first) ++ xs.drop last
        = xs.take first ++ ((xs.drop first).take (last - first) ++
            (xs.drop first).drop (last - first)) := by
          rw [drop_drop, Nat.add_sub_cancel' hfirst, append_assoc]
      _ = xs := by rw [take_append_drop, take_append_drop]
  obtain ⟨cells, herase, hcells, hlength⟩ := eraseRange_eq h hvec (hv.trans (congrArg some hsplit.symm))
  have hleft : (xs.take first).length = first := length_take_of_le (Nat.le_trans hfirst hlast)
  have hmid : first + ((xs.drop first).take (last - first)).length = last := by
    rw [length_take, length_drop]
    omega
  rw [hleft, hmid] at herase
  exact ⟨_, herase, h.put hvec hcells hlength rfl⟩

end

theorem erase_eq_eraseRange (hvec : s.vectors v = some vec) {pos : Nat} (hpos : pos < vec.size) :
    erase s v pos = eraseRange s v pos (pos + 1) := by
  have hlast : pos + (vec.size - (pos + 1)) = vec.size - 1 := by omega
  have hone : vec.size - (vec.size - 1) = 1 := by omega
  simp only [erase, eraseRange, hvec, bind_eq_bind, bind_some,
    if_neg (Nat.not_le.2 hpos), if_neg (Nat.not_lt.2 (Nat.succ_le_of_lt hpos)), hlast, hone]

theorem popBack_rep (h : Rep N s a) {x : T} (hv : a v = some (xs ++ [x])) :
    ∃ s', popBack s v = some s' ∧ Rep N s' (update a v (some xs)) := by
  obtain ⟨vec, hvec, -⟩ := h.live v _ hv
  obtain ⟨hsize, rest, hcells, hlength⟩ := h.cells hvec hv
  rw [length_append, length_singleton] at hsize hlength
  rw [map_append] at hcells
  have hdestroy := State.destroy_middle (vec.size - 1) 1 hcells
    (by rw [hsize, length_map]; rfl) rfl
  refine ⟨s.put v vec (xs.map some ++ .replicate 1 none ++ rest) (vec.size - 1), ?_, ?_⟩
  · simp only [popBack, hvec, bind_eq_bind, bind_some, hdestroy,
      if_neg (show ¬ vec.size = 0 by omega)]
    rfl
  · apply h.put hvec
    · rw [append_assoc]
      exact prefix_append _ _
    · simp only [length_append, length_map, length_replicate]
      omega
    · omega

/-! ### More capacity -/

theorem VecRep.le_capacity (h : VecRep N mem v vec xs) :
    N.toNat ≤ vec.capacity.toNat := by
  rcases h.place with ⟨-, hcapacity⟩ | ⟨-, hlt⟩
  · exact Nat.le_of_eq (congrArg UInt64.toNat hcapacity).symm
  · exact Nat.le_of_lt (lt_iff_toNat_lt.1 hlt)

theorem freeHeap_eq (hrep : VecRep N mem v vec xs)
    {cells : List (Option T)} (hlive : s.mem vec.start = some cells) :
    ∃ s', freeHeap N s vec = some s' ∧ s'.vectors = s.vectors ∧ s'.allocated = s.allocated ∧
      (∀ block, block ≠ vec.start → s'.mem block = s.mem block) ∧
      (vec.start = .embedded v → s'.mem vec.start = s.mem vec.start) := by
  rw [freeHeap]
  rcases hrep.place with ⟨-, hcapacity⟩ | ⟨⟨b, hstart⟩, hlt⟩
  · rw [if_neg (by rw [hcapacity]; exact UInt64.lt_irrefl N)]
    exact ⟨s, rfl, rfl, rfl, fun _ _ => rfl, fun _ => rfl⟩
  · rw [hstart] at hlive
    simp only [if_pos hlt, State.free, hstart, hlive]
    refine ⟨s.setBlock (.heap b) none, rfl, rfl, rfl, fun block hne => ?_, fun heq => ?_⟩
    · exact State.setBlock_mem_of_ne _ _ hne
    · cases heq

/-- The elements of a vector are in another block. -/
structure Relocated (s s' : State T) (v : Nat) (vec : Vec) (xs : List T) (dest : Block) (room : Nat) :
    Prop where
  vectors : s'.vectors = s.vectors
  allocated : s'.allocated = s.allocated
  cells : ∃ rest, s'.mem dest = some (xs.map some ++ rest) ∧ xs.length + rest.length = room
  source : vec.start = .embedded v →
    ∃ cells, s'.mem vec.start = some cells ∧ cells.length = vec.capacity.toNat
  others : ∀ block, block ≠ vec.start → block ≠ dest → s'.mem block = s.mem block

/-- The elements are moved to another block, and their own one is freed. -/
theorem relocate (hrep : VecRep N s.mem v vec xs) {dest : Block} {room : List (Option T)}
    (hne : dest ≠ vec.start) (hdest : s.mem dest = some room) (hroom : xs.length ≤ room.length) :
    ∃ s₁ s₂, s.move vec.start 0 vec.size dest 0 = some s₁ ∧ freeHeap N s₁ vec = some s₂ ∧
      Relocated s s₂ v vec xs dest room.length := by
  obtain ⟨rest, hcells, hlength⟩ := hrep.cells
  have hsource : s.mem vec.start = some ([] ++ xs.map some ++ rest) := hcells
  obtain ⟨old, hold, hmove⟩ := State.transfer_to false 0 vec.size hsource rfl
    (by rw [length_map, hrep.size]) hne (State.mem_split xs.length hdest) rfl
    (by rw [length_map, length_take_of_le hroom])
  generalize hmoved : (s.setBlock vec.start (some ([] ++ old ++ rest))).setBlock dest
    (some ([] ++ xs.map some ++ room.drop xs.length)) = s₁ at hmove
  have hlive : s₁.mem vec.start = some ([] ++ old ++ rest) := by
    rw [← hmoved, State.setBlock_mem_of_ne _ _ hne.symm, State.setBlock_mem_self]
  obtain ⟨s₂, hfree, hvectors, hallocated, hkept, hembedded⟩ := freeHeap_eq hrep hlive
  refine ⟨s₁, s₂, hmove, hfree, ?_, ?_, ?_, ?_, ?_⟩
  · rw [hvectors, ← hmoved]
    rfl
  · rw [hallocated, ← hmoved]
    rfl
  · refine ⟨room.drop xs.length, ?_, ?_⟩
    · rw [hkept dest hne, ← hmoved, State.setBlock_mem_self, nil_append]
    · rw [length_drop]
      exact Nat.add_sub_cancel' hroom
  · intro hstart
    refine ⟨[] ++ old ++ rest, (hembedded hstart).trans hlive, ?_⟩
    rw [nil_append, length_append, hold, length_map, hlength]
  · intro block hstart hdest
    rw [hkept block hstart, ← hmoved, State.setBlock_mem_of_ne _ _ hdest,
      State.setBlock_mem_of_ne _ _ hstart]

theorem Rep.ne_fresh (h : Rep N s a) (hvec : s.vectors v = some vec)
    (hb : s.allocated ≤ b) : Block.heap b ≠ vec.start :=
  fun heq => absurd ((h.owned_old hvec (.inr rfl)).2 b heq.symm) (Nat.not_lt.2 hb)

theorem update_some_eq_self (hv : a v = some xs) : update a v (some xs) = a := by
  rw [← hv, update_eq_self]

theorem reserve_rep (h : Rep N s a) (hvec : s.vectors v = some vec) (size : UInt64) :
    ∃ s' vec', reserve N s v size = some s' ∧ Rep N s' a ∧ s'.vectors v = some vec' ∧
      vec'.capacity = (if size ≤ vec.capacity then vec.capacity else size) ∧
      ∀ u, u ≠ v → s'.vectors u = s.vectors u := by
  by_cases hle : size ≤ vec.capacity
  · refine ⟨s, vec, ?_, h, hvec, (if_pos hle).symm, fun _ _ => rfl⟩
    simp only [reserve, hvec, bind_eq_bind, bind_some, if_pos hle]
    rfl
  obtain ⟨xs, hv, hrep⟩ := h.vecRep hvec
  obtain ⟨hsize, rest, -, hlength⟩ := h.cells hvec hv
  have hlt : vec.capacity.toNat < size.toNat := by
    exact Nat.lt_of_not_le hle
  -- the new block is not that of the vector
  have hne := h.ne_fresh hvec (Nat.le_refl _)
  have halloc : ∀ block, block ≠ .heap s.allocated → (s.alloc size).1.mem block = s.mem block :=
    fun block hblock => Blocks.set_of_ne _ _ hblock
  have hrep' : VecRep N (s.alloc size).1.mem v vec xs :=
    hrep.congr (halloc _ Block.noConfusion) (halloc _ hne.symm)
  have hroom : xs.length ≤ (List.replicate size.toNat (none : Option T)).length := by
    rw [length_replicate]
    omega
  obtain ⟨s₁, s₂, hmove, hfree, hrelocated⟩ := relocate hrep' hne (Blocks.set_self ..) hroom
  refine ⟨s₂.setVec v (some ⟨size, .heap s.allocated, vec.size⟩), ⟨size, .heap s.allocated, vec.size⟩,
    ?_, ?_, update_self .., (if_neg hle).symm, ?_⟩
  rotate_left 2
  · intro u hu
    rw [State.setVec, hrelocated.vectors]
    exact update_of_ne hu ..
  · simp only [reserve, hvec, bind_eq_bind, bind_some, if_neg hle]
    rw [show (s.alloc size).2 = .heap s.allocated from rfl, hmove, bind_some, hfree]
    rfl
  have hothers : ∀ block, block ≠ vec.start → block ≠ .heap s.allocated →
      s₂.mem block = s.mem block :=
    fun block hstart hheap => (hrelocated.others block hstart hheap).trans (halloc block hheap)
  rw [← update_some_eq_self hv]
  apply h.changeOne hvec
  · rw [State.setVec, hrelocated.vectors]
    rfl
  · intro block howned _ hold
    apply hothers
    · exact fun heq => howned (.inr ⟨vec, hvec, heq⟩)
    · exact fun heq => Nat.lt_irrefl _ (hold s.allocated heq)
  · constructor
    · rcases hrep.place with ⟨hstart, hcapacity⟩ | ⟨⟨b, hstart⟩, -⟩
      · obtain ⟨cells, hcells, hlength⟩ := hrelocated.source hstart
        rw [hstart] at hcells
        exact ⟨cells, hcells, hcapacity ▸ hlength⟩
      · obtain ⟨cells, hstorage, hN⟩ := hrep.storage
        refine ⟨cells, (hothers _ ?_ Block.noConfusion).trans hstorage, hN⟩
        rw [hstart]
        exact Block.noConfusion
    · refine .inr ⟨⟨_, rfl⟩, ?_⟩
      exact Nat.lt_of_le_of_lt hrep.le_capacity hlt
    · obtain ⟨rest', hcells, hlength'⟩ := hrelocated.cells
      rw [length_replicate] at hlength'
      exact ⟨rest', hcells, hlength'⟩
    · exact hsize
  · intro b hb
    exact .inl (Nat.le_of_eq (Block.heap.inj hb))
  · intro b hb
    have hb' : s.allocated + 1 ≤ b := by
      refine Nat.le_trans (Nat.le_of_eq ?_) hb
      exact hrelocated.allocated.symm
    have hheap : Block.heap b ≠ .heap s.allocated := by
      intro heq
      cases heq
      omega
    exact (hothers _ (h.ne_fresh hvec (by omega)) hheap).trans (h.fresh b (by omega))

theorem shrinkToFit_rep (h : Rep N s a) (hv : a v = some xs) :
    ∃ s', shrinkToFit N s v = some s' ∧ Rep N s' a := by
  obtain ⟨vec, hvec, hrep⟩ := h.live v xs hv
  by_cases hshrink : vec.size ≤ N.toNat ∧ N < vec.capacity
  · obtain ⟨b, hstart⟩ : ∃ b, vec.start = .heap b :=
      (hrep.heap_of_ne fun heq => UInt64.lt_irrefl N (heq ▸ hshrink.2)).1
    have hne : Block.embedded v ≠ vec.start := by
      rw [hstart]
      exact Block.noConfusion
    obtain ⟨cells, hstorage, hN⟩ := hrep.storage
    obtain ⟨s₁, s₂, hmove, hfree, hrelocated⟩ := relocate hrep hne hstorage
      (by rw [hN, ← hrep.size]; exact hshrink.1)
    rw [freeHeap, if_pos hshrink.2] at hfree
    refine ⟨s₂.setVec v (some ⟨N, .embedded v, vec.size⟩), ?_, ?_⟩
    · simp only [shrinkToFit, hvec, bind_eq_bind, bind_some, if_pos hshrink, hmove, hfree]
      rfl
    obtain ⟨rest, hcells, hlength⟩ := hrelocated.cells
    rw [hN] at hlength
    rw [← update_some_eq_self hv]
    apply h.changeOne hvec
    · rw [State.setVec, hrelocated.vectors]
    · intro block howned _ _
      apply hrelocated.others
      · exact fun heq => howned (.inr ⟨vec, hvec, heq⟩)
      · exact fun heq => howned (.inl heq)
    · refine ⟨⟨_, hcells, ?_⟩, .inl ⟨rfl, rfl⟩, ⟨rest, hcells, hlength⟩, hrep.size⟩
      rw [length_append, length_map, hlength]
    · intro b hb
      cases hb
    · intro b hb
      have hb' : s.allocated ≤ b := Nat.le_trans (Nat.le_of_eq hrelocated.allocated.symm) hb
      exact (hrelocated.others _ (h.ne_fresh hvec hb') Block.noConfusion).trans (h.fresh b hb')
  · refine ⟨s, ?_, h⟩
    simp only [shrinkToFit, hvec, bind_eq_bind, bind_some, if_neg hshrink]
    rfl

/-- Elements fit, or so few are added that the new capacity does not overflow. -/
def Fits (vec : Vec) (count : Nat) : Prop :=
  vec.size + count ≤ vec.capacity.toNat ∨ vec.size + count < 2 ^ 63

theorem extend_rep (h : Rep N s a) (hvec : s.vectors v = some vec) (count : Nat) :
    ∃ s' vec', extend N s v (UInt64.ofNat count) = some s' ∧ Rep N s' a ∧
      s'.vectors v = some vec' ∧ (vec.size + count ≤ vec'.capacity.toNat ↔ Fits vec count) := by
  have htotal : (UInt64.ofNat count + UInt64.ofNat vec.size).toNat = (count + vec.size) % 2 ^ 64 := by
    rw [UInt64.toNat_add, toNat_ofNat', toNat_ofNat', ← Nat.add_mod]
  simp only [extend, hvec, bind_eq_bind, bind_some]
  by_cases hfits : UInt64.ofNat count + UInt64.ofNat vec.size ≤ vec.capacity
  · rw [if_pos hfits]
    rw [le_iff_toNat_le] at hfits
    refine ⟨s, vec, rfl, h, hvec, ?_⟩
    rw [Fits]
    omega
  · rw [if_neg hfits]
    obtain ⟨s', vec', hreserve, hrep', hvec', hcap, -⟩ :=
      reserve_rep h hvec ((UInt64.ofNat count + UInt64.ofNat vec.size) * 2)
    have hdouble : ((UInt64.ofNat count + UInt64.ofNat vec.size) * 2).toNat =
        ((count + vec.size) % 2 ^ 64 * 2) % 2 ^ 64 := by
      rw [UInt64.toNat_mul, htotal]
      rfl
    refine ⟨s', vec', hreserve, hrep', hvec', ?_⟩
    rw [le_iff_toNat_le] at hfits
    rw [hcap, Fits]
    split
    · next hle =>
      rw [le_iff_toNat_le] at hle
      omega
    · omega

/-! ### Insertions -/

theorem insertValues_rep (h : Rep N s a) (hvec : s.vectors v = some vec) {left right : List T}
    (hv : a v = some (left ++ right)) (keep : Bool) (values : List T)
    (hfits : Fits vec values.length) :
    ∃ s', insertValues N s v keep left.length values = some s' ∧
      Rep N s' (update a v (some (left ++ values ++ right))) := by
  obtain ⟨s₁, vec₁, hextend, h₁, hvec₁, hroom⟩ := extend_rep h hvec values.length
  have hroom := hroom.2 hfits
  obtain ⟨hsize, -⟩ := h.cells hvec hv
  obtain ⟨hsize₁, rest, hcells, hlength⟩ := h₁.cells hvec₁ hv
  simp only [length_append] at hsize hsize₁ hlength
  rw [map_append] at hcells
  have hcapacity : vec₁.capacity.toNat < 2 ^ 64 := vec₁.capacity.toNat_lt
  have hcount : (UInt64.ofNat values.length).toNat = values.length :=
    toNat_ofNat_of_lt' (show values.length < 2 ^ 64 by omega)
  have hpos : ¬ vec.size < left.length := by omega
  have htail : vec₁.size - left.length = right.length := by omega
  obtain ⟨right', hright', hshift⟩ := State.transfer_within keep left.length right.length hcells
    (by rw [length_map]) (by rw [length_map]) (left.length + values.length)
    (by simp only [length_append, length_map]; omega)
  rw [length_map] at hright'
  -- the elements in front stay, and between them and the others there is room for the values
  have htake : (left.map some ++ right' ++ rest).take (left.length + values.length) =
      left.map some ++ (right' ++ rest).take values.length := by
    rw [append_assoc, ← length_map some, take_length_add_append]
  have hgap : ((right' ++ rest).take values.length).length = values.length := by
    rw [length_take_of_le]
    rw [length_append]
    omega
  have hbehind : ((left.map some ++ right' ++ rest).drop
      (left.length + values.length + right.length)).length = rest.length - values.length := by
    simp only [length_drop, length_append, length_map]
    omega
  rw [htake, length_map] at hshift
  generalize (left.map some ++ right' ++ rest).drop (left.length + values.length + right.length) =
    behind at hshift hbehind
  rw [append_assoc] at hshift
  have hstore := State.store_middle (State.setBlock_mem_self s₁ vec₁.start (some (left.map some ++
      (right' ++ rest).take values.length ++ (right.map some ++ behind))))
    (show left.length = _ by rw [length_map])
    (show (values.map some).length = _ by rw [length_map, hgap])
  rw [State.setBlock_setBlock] at hstore
  refine ⟨s₁.put v vec₁ (left.map some ++ values.map some ++ (right.map some ++ behind))
    (vec₁.size + values.length), ?_, ?_⟩
  · simp only [insertValues, hvec, hvec₁, hextend, bind_eq_bind, bind_some, if_neg hpos,
      htail, hcount, hshift, hstore]
    rfl
  · apply h₁.put hvec₁
    · rw [map_append, map_append, ← append_assoc]
      exact prefix_append _ _
    · simp only [length_append, length_map]
      omega
    · simp only [length_append]
      omega

/-- Too many elements: the new capacity has overflowed. -/
theorem insertValues_eq_none (h : Rep N s a) (hvec : s.vectors v = some vec) {left right : List T}
    (hv : a v = some (left ++ right)) (keep : Bool) (values : List T)
    (hfits : ¬ Fits vec values.length) : insertValues N s v keep left.length values = none := by
  obtain ⟨s₁, vec₁, hextend, h₁, hvec₁, hroom⟩ := extend_rep h hvec values.length
  have hroom : ¬ vec.size + values.length ≤ vec₁.capacity.toNat := fun hle => hfits (hroom.1 hle)
  obtain ⟨hsize, -⟩ := h.cells hvec hv
  obtain ⟨hsize₁, rest, hcells, hlength⟩ := h₁.cells hvec₁ hv
  simp only [length_append] at hsize hsize₁ hlength
  rw [map_append] at hcells
  have hcapacity : vec₁.capacity.toNat < 2 ^ 64 := vec₁.capacity.toNat_lt
  have hpos : ¬ vec.size < left.length := by omega
  have htail : vec₁.size - left.length = right.length := by omega
  simp only [insertValues, hvec, hvec₁, hextend, bind_eq_bind, bind_some, if_neg hpos,
    htail]
  by_cases hvalues : left.length + values.length ≤ vec₁.capacity.toNat
  · -- the elements behind the position have no place
    have hcount : (UInt64.ofNat values.length).toNat = values.length :=
      toNat_ofNat_of_lt' (show values.length < 2 ^ 64 by omega)
    rw [hcount, State.transfer_eq_none keep left.length right.length hcells
      (by rw [length_map]) (by rw [length_map]) (left.length + values.length)]
    · rfl
    · intro hnil
      rw [map_eq_nil_iff] at hnil
      rw [hnil, length_nil] at hsize
      omega
    · simp only [length_append, length_map]
      omega
  · -- the values have no place
    cases hshift : s₁.transfer keep vec₁.start left.length right.length vec₁.start
        (left.length + (UInt64.ofNat values.length).toNat) with
    | none => rfl
    | some s₂ =>
      obtain ⟨cells', hcells', hlength'⟩ := State.length_of_transfer hcells hshift
      simp only [length_append, length_map] at hlength'
      rw [bind_some, State.store_eq_none hcells']
      · rfl
      · intro hnil
        rw [map_eq_nil_iff] at hnil
        rw [hnil, length_nil] at hroom
        omega
      · rw [length_map]
        omega

theorem pushBack_eq_insertValues (h : Rep N s a) (hv : a v = some xs) (x : T) :
    pushBack N s v x = insertValues N s v true xs.length [x] := by
  obtain ⟨vec, hvec, -⟩ := h.live v xs hv
  obtain ⟨s₁, vec₁, hextend, h₁, hvec₁, -⟩ := extend_rep h hvec 1
  obtain ⟨hsize, -⟩ := h.cells hvec hv
  obtain ⟨hsize₁, -⟩ := h₁.cells hvec₁ hv
  have hextend' : extend N s v 1 = some s₁ := hextend
  have hnone : s₁.transfer true vec₁.start xs.length 0 vec₁.start
      (xs.length + (UInt64.ofNat 1).toNat) = some s₁ := rfl
  have hpos : ¬ vec.size < xs.length := by omega
  simp only [pushBack, insertValues, hextend', hvec, hvec₁, bind_eq_bind, bind_some,
    if_neg hpos, length_singleton, hextend, hsize₁, Nat.sub_self]
  rfl

/-! ### New sizes -/

theorem resize_rep (h : Rep N s a) (hv : a v = some xs) (count : UInt64) (x : T) :
    ∃ s', resize N s v count x = some s' ∧ Rep N s' (update a v
      (some (xs.take count.toNat ++ .replicate (count.toNat - xs.length) x))) := by
  obtain ⟨vec, hvec, -⟩ := h.live v xs hv
  obtain ⟨s₁, vec₁, hreserve, h₁, hvec₁, hcapacity, -⟩ := reserve_rep h hvec count
  obtain ⟨hsize₁, rest, hcells, hlength⟩ := h₁.cells hvec₁ hv
  have hroom : count.toNat ≤ vec₁.capacity.toNat := by
    rw [hcapacity]
    split
    · next hle => exact le_iff_toNat_le.1 hle
    · exact Nat.le_refl _
  simp only [resize, hreserve, hvec₁, bind_eq_bind, bind_some]
  by_cases hle : count.toNat ≤ xs.length
  · -- the last elements are destroyed
    have hcells' : s₁.mem vec₁.start = some ((xs.take count.toNat).map some ++
        (xs.drop count.toNat).map some ++ rest) := by
      rw [← map_append, take_append_drop, hcells]
    have hdestroy := State.destroy_middle count.toNat (vec₁.size - count.toNat) hcells'
      (by rw [length_map, length_take_of_le hle])
      (by rw [length_map, length_drop, hsize₁])
    rw [hdestroy, show count.toNat - vec₁.size = 0 by omega]
    refine ⟨s₁.put v vec₁ _ count.toNat, rfl, ?_⟩
    rw [show count.toNat - xs.length = 0 by omega, replicate_zero, append_nil]
    apply h₁.put hvec₁
    · rw [append_assoc]
      exact prefix_append _ _
    · simp only [length_append, length_map, length_replicate, length_take]
      omega
    · exact (length_take_of_le hle).symm
  · -- new elements are constructed
    have hcells' : s₁.mem vec₁.start = some (xs.map some ++ rest.take (count.toNat - vec₁.size) ++
        rest.drop (count.toNat - vec₁.size)) := by
      rw [append_assoc, take_append_drop, hcells]
    have hnew : (List.replicate (count.toNat - vec₁.size) (some x)).length =
        (rest.take (count.toNat - vec₁.size)).length := by
      rw [length_replicate, length_take_of_le]
      omega
    have hstore := State.store_middle hcells' (show vec₁.size = _ by rw [length_map, hsize₁]) hnew
    rw [show vec₁.size - count.toNat = 0 by omega, State.destroy, replicate_zero,
      State.store_nil, bind_some, hstore]
    refine ⟨s₁.put v vec₁ _ count.toNat, rfl, ?_⟩
    rw [take_of_length_le (by omega)]
    apply h₁.put hvec₁
    · rw [map_append, map_replicate, hsize₁]
      exact prefix_append _ _
    · simp only [length_append, length_map, length_replicate, length_drop]
      omega
    · simp only [length_append, length_replicate]
      omega

end ConstructionKit.Cargo
