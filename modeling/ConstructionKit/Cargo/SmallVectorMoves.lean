import ConstructionKit.Cargo.SmallVectorRep

/-! The operations that make vectors, end them, or move elements from one to another. -/

namespace ConstructionKit.Cargo

open ProofKit List Function Option

variable {T : Type} {N : UInt64} {s s' : State T} {a : Lists T} {v other : Nat} {vec o : Vec}
  {xs ys : List T}

/-! ### New vectors, and their end -/

variable {block : Block} {cells rest cells' : List (Option T)} {mem : Blocks Block (Option T)}

theorem addStorage_mem_of_ne (N : UInt64) (s : State T) (h : block ≠ .embedded v) :
    (addStorage N s v).mem block = s.mem block :=
  State.setBlock_mem_of_ne s _ h

theorem construct_rep (h : Rep N s a) (hv : a v = none) :
    Rep N (construct N s v) (update a v (some [])) := by
  have hstorage : (construct N s v).mem (.embedded v) = some (.replicate N.toNat none) :=
    Blocks.set_self ..
  have hself : (construct N s v).vectors v = some ⟨N, .embedded v, 0⟩ := update_self ..
  apply h.change (· = v)
  · intro u hu
    exact ⟨update_of_ne hu .., update_of_ne hu ..⟩
  · intro block howned _ _
    exact addStorage_mem_of_ne N s fun heq => howned v rfl (.inl heq)
  · rintro u rfl hu
    rw [update_self] at hu
    cases hu
  · rintro u ys rfl hu
    rw [update_self] at hu
    cases hu
    refine ⟨_, hself, ⟨_, hstorage, length_replicate ..⟩, .inl ⟨rfl, rfl⟩, ?_, rfl⟩
    refine ⟨.replicate N.toNat none, hstorage, ?_⟩
    rw [length_replicate]
    exact Nat.zero_add _
  · rintro u vec b rfl hvec hb
    cases hself.symm.trans hvec
    cases hb
  · rintro u u' _ _ _ rfl rfl _ _ _ _
    rfl
  · intro b hb
    have hne : Block.heap b ≠ .embedded v := Block.noConfusion
    exact (addStorage_mem_of_ne N s hne).trans (h.fresh b hb)

theorem destruct_rep (h : Rep N s a) (hv : a v = some xs) :
    ∃ s', destruct N s v = some s' ∧ Rep N s' (update a v none) := by
  obtain ⟨vec, hvec, hrep⟩ := h.live v xs hv
  obtain ⟨cells, hclear, -⟩ := clear_eq h hvec
  have hlive : (s.put v vec cells 0).mem vec.start = some cells :=
    State.setBlock_mem_self s vec.start (some cells)
  obtain ⟨s₂, hfree, hvectors, hallocated, hkept, -⟩ := freeHeap_eq hrep hlive
  refine ⟨(s₂.setVec v none).setBlock (.embedded v) none, ?_, ?_⟩
  · simp only [destruct, hvec, hclear, hfree, bind_eq_bind, bind_some]
    rfl
  have hothers : ∀ block, block ≠ .embedded v → block ≠ vec.start →
      ((s₂.setVec v none).setBlock (.embedded v) none).mem block = s.mem block := by
    intro block hembedded hstart
    refine (State.setBlock_mem_of_ne _ _ hembedded).trans ?_
    exact (hkept block hstart).trans (State.setBlock_mem_of_ne _ _ hstart)
  have hgone : ((s₂.setVec v none).setBlock (.embedded v) none).vectors v = none :=
    update_self ..
  apply h.change (· = v)
  · intro u hu
    refine ⟨(update_of_ne hu ..).trans ?_, update_of_ne hu ..⟩
    rw [hvectors]
    exact update_of_ne hu ..
  · intro block howned _ _
    apply hothers
    · exact fun heq => howned v rfl (.inl heq)
    · exact fun heq => howned v rfl (.inr ⟨vec, hvec, heq⟩)
  · rintro u rfl -
    exact hgone
  · rintro u ys rfl hu
    rw [update_self] at hu
    cases hu
  · rintro u vec' b rfl hvec' -
    cases hgone.symm.trans hvec'
  · rintro u u' _ _ _ rfl rfl _ _ _ _
    rfl
  · intro b hb
    have hb' : s.allocated ≤ b := Nat.le_trans (Nat.le_of_eq hallocated.symm) hb
    exact (hothers _ Block.noConfusion (h.ne_fresh hvec hb')).trans (h.fresh b hb')

/-! ### Two vectors -/

theorem Rep.changeTwo (h : Rep N s a) (hne : v ≠ other)
    (hvectors : s'.vectors = update (update s.vectors v (some vec)) other (some o))
    (hallocated : s'.allocated = s.allocated)
    (hmem : ∀ block, ¬ Owned s v block → ¬ Owned s other block → block ≠ .localArray →
      s'.mem block = s.mem block)
    (hrep : VecRep N s'.mem v vec xs) (hrep' : VecRep N s'.mem other o ys)
    (hstart : ∀ b, vec.start = .heap b ∨ o.start = .heap b →
      Owned s v (.heap b) ∨ Owned s other (.heap b))
    (hseparate : ∀ b, vec.start = .heap b → o.start ≠ .heap b)
    (hfresh : ∀ b, s.allocated ≤ b → s'.mem (.heap b) = none) :
    Rep N s' (update (update a v (some xs)) other (some ys)) := by
  have hself : s'.vectors v = some vec := by
    rw [hvectors, update_of_ne hne, update_self]
  have hother : s'.vectors other = some o := by
    rw [hvectors, update_self]
  have howner : ∀ b, vec.start = .heap b ∨ o.start = .heap b →
      ∃ w, (w = v ∨ w = other) ∧ Owned s w (.heap b) := by
    intro b hb
    rcases hstart b hb with howned | howned
    · exact ⟨v, .inl rfl, howned⟩
    · exact ⟨other, .inr rfl, howned⟩
  apply h.change (fun u => u = v ∨ u = other)
  · intro u hu
    rw [not_or] at hu
    rw [hvectors, update_of_ne hu.2, update_of_ne hu.1,
      update_of_ne hu.2, update_of_ne hu.1]
    exact ⟨rfl, rfl⟩
  · intro block howned hlocal _
    exact hmem block (howned v (.inl rfl)) (howned other (.inr rfl)) hlocal
  · rintro u (rfl | rfl) hu
    · rw [update_of_ne hne, update_self] at hu
      cases hu
    · rw [update_self] at hu
      cases hu
  · rintro u zs (rfl | rfl) hu
    · rw [update_of_ne hne, update_self] at hu
      cases hu
      exact ⟨vec, hself, hrep⟩
    · rw [update_self] at hu
      cases hu
      exact ⟨o, hother, hrep'⟩
  · rintro u vec' b (rfl | rfl) hvec' hb
    · cases hself.symm.trans hvec'
      exact .inr (howner b (.inl hb))
    · cases hother.symm.trans hvec'
      exact .inr (howner b (.inr hb))
  · rintro u u' vec' vec'' b (rfl | rfl) (rfl | rfl) hvec' hvec'' hb hb'
    · rfl
    · cases hself.symm.trans hvec'
      cases hother.symm.trans hvec''
      exact absurd hb' (hseparate b hb)
    · cases hother.symm.trans hvec'
      cases hself.symm.trans hvec''
      exact absurd hb (hseparate b hb')
    · rfl
  · exact fun b hb => hfresh b (hallocated ▸ hb)

theorem VecRep.ofEmbedded (hcells : mem (.embedded v) = some (xs.map some ++ rest))
    (hlength : xs.length + rest.length = N.toNat) {size : Nat} (hsize : size = xs.length) :
    VecRep N mem v ⟨N, .embedded v, size⟩ xs := by
  refine ⟨⟨_, hcells, ?_⟩, .inl ⟨rfl, rfl⟩, ⟨rest, hcells, hlength⟩, hsize⟩
  rw [length_append, length_map, hlength]

/-- One vector has the elements of another, which is empty and has its embedded storage. -/
theorem Rep.handOver (h : Rep N s a) (hne : v ≠ other) (ho : s.vectors other = some o)
    (hxs : a other = some xs)
    (hvectors : s'.vectors = update (update s.vectors v (some vec)) other
      (some ⟨N, .embedded other, 0⟩))
    (hallocated : s'.allocated = s.allocated)
    (hmem : ∀ block, ¬ Owned s v block → ¬ Owned s other block → s'.mem block = s.mem block)
    (hrep : VecRep N s'.mem v vec xs)
    (hstorage : ∃ cells, s'.mem (.embedded other) = some cells ∧ cells.length = N.toNat)
    (hstart : ∀ b, vec.start = .heap b → o.start = .heap b)
    (hfresh : ∀ b, s.allocated ≤ b → s'.mem (.heap b) = none) :
    Rep N s' (update (update a v (a other)) other (some [])) := by
  obtain ⟨cells, hcells, hN⟩ := hstorage
  have hempty : VecRep N s'.mem other ⟨N, .embedded other, 0⟩ [] := by
    have hcells' : s'.mem (.embedded other) = some (([] : List T).map some ++ cells) := hcells
    exact .ofEmbedded hcells' (by rw [length_nil, Nat.zero_add, hN]) rfl
  rw [hxs]
  apply h.changeTwo hne hvectors hallocated (fun block hv ho _ => hmem block hv ho) hrep hempty
  · rintro b (hb | hb)
    · exact .inr (.inr ⟨o, ho, (hstart b hb).symm⟩)
    · cases hb
  · exact fun b _ => Block.noConfusion
  · exact hfresh

/-! ### Moves -/

/-- The elements of a vector with embedded storage are moved to that of another one. -/
theorem moveElements_eq (hne : v ≠ other) (ho : VecRep N s.mem other o xs)
    (hsmall : o.start = .embedded other)
    (hcells : s.mem (.embedded v) = some cells) (hN : cells.length = N.toNat) :
    ∃ s₁ s₂, s.move o.start 0 o.size (.embedded v) 0 = some s₁ ∧
      s₁.destroy o.start 0 o.size = some s₂ ∧ s₂.vectors = s.vectors ∧ s₂.allocated = s.allocated ∧
      (∃ rest, s₂.mem (.embedded v) = some (xs.map some ++ rest) ∧
        xs.length + rest.length = N.toNat) ∧
      (∃ cells, s₂.mem (.embedded other) = some cells ∧ cells.length = N.toNat) ∧
      ∀ block, block ≠ .embedded v → block ≠ .embedded other → s₂.mem block = s.mem block := by
  obtain ⟨rest, hsource, hlength⟩ := ho.cells
  rw [ho.capacity_eq hsmall] at hlength
  rw [hsmall] at hsource ⊢
  have hsource' : s.mem (.embedded other) = some ([] ++ xs.map some ++ rest) := hsource
  have hblock : Block.embedded v ≠ .embedded other := fun heq => hne (Block.embedded.inj heq)
  obtain ⟨old, hold, hmove⟩ := State.transfer_to false 0 o.size hsource' rfl
    (by rw [length_map, ho.size]) hblock (State.mem_split xs.length hcells) rfl
    (by rw [length_map, length_take_of_le (by omega)])
  have hlive : ((s.setBlock (.embedded other) (some ([] ++ old ++ rest))).setBlock (.embedded v)
      (some ([] ++ xs.map some ++ cells.drop xs.length))).mem (.embedded other) =
        some ([] ++ old ++ rest) := by
    rw [State.setBlock_mem_of_ne _ _ hblock.symm, State.setBlock_mem_self]
  refine ⟨_, _, hmove, State.destroy_middle 0 o.size hlive rfl ?_, rfl, rfl, ?_, ?_, ?_⟩
  · rw [hold, length_map, ho.size]
  · refine ⟨cells.drop xs.length, ?_, ?_⟩
    · rw [State.setBlock_mem_of_ne _ _ hblock, State.setBlock_mem_self, nil_append]
    · rw [length_drop]
      omega
  · refine ⟨_, State.setBlock_mem_self .., ?_⟩
    rw [nil_append, length_append, length_replicate, ho.size, hlength]
  · intro block hv hother
    rw [State.setBlock_mem_of_ne _ _ hother, State.setBlock_mem_of_ne _ _ hv,
      State.setBlock_mem_of_ne _ _ hother]

theorem VecRep.takeHeap {mem' : Blocks Block (Option T)} (ho : VecRep N mem other o xs) {b : Nat}
    (hstart : o.start = .heap b) (hstorage : ∃ cells, mem' (.embedded v) = some cells ∧
      cells.length = N.toNat) (hmem : mem' o.start = mem o.start) :
    VecRep N mem' v ⟨o.capacity, o.start, o.size⟩ xs := by
  refine ⟨hstorage, ?_, hmem ▸ ho.cells, ho.size⟩
  rcases ho.place with ⟨hembedded, -⟩ | hheap
  · cases hstart.symm.trans hembedded
  · exact .inr hheap

theorem moveConstruct_rep (h : Rep N s a) (hv : a v = none) (hxs : a other = some xs) :
    ∃ s', moveConstruct N s v other = some s' ∧
      Rep N s' (update (update a v (a other)) other (some [])) := by
  obtain ⟨o, ho, hrep⟩ := h.live other xs hxs
  have hne : v ≠ other := by
    rintro rfl
    cases hv.symm.trans hxs
  have hblock : Block.embedded other ≠ .embedded v := fun heq => hne (Block.embedded.inj heq).symm
  have hfresh : ∀ b, s.allocated ≤ b → (addStorage N s v).mem (.heap b) = none :=
    fun b hb => (addStorage_mem_of_ne N s Block.noConfusion).trans (h.fresh b hb)
  have hstorage : (addStorage N s v).mem (.embedded v) = some (.replicate N.toNat none) :=
    State.setBlock_mem_self ..
  simp only [moveConstruct, ho, bind_eq_bind, bind_some]
  rcases hrep.place with ⟨hsmall, hcapacity⟩ | ⟨⟨b, hheap⟩, hlt⟩
  · have hrep' : VecRep N (addStorage N s v).mem other o xs := by
      apply hrep.congr
      · exact addStorage_mem_of_ne N s hblock
      · rw [hsmall]
        exact addStorage_mem_of_ne N s hblock
    obtain ⟨s₁, s₂, hmove, hdestroy, hvectors, hallocated, hcells, hcells', hothers⟩ :=
      moveElements_eq hne hrep' hsmall hstorage (length_replicate ..)
    rw [if_pos (by rw [hcapacity]; exact UInt64.le_refl N), hmove, bind_some, hdestroy,
      hcapacity]
    refine ⟨_, rfl, ?_⟩
    apply h.handOver hne ho hxs
    · rw [State.setVec, State.setVec, hvectors]
      rfl
    · exact hallocated
    · intro block hv hother
      have hv' : block ≠ .embedded v := fun heq => hv (.inl heq)
      exact (hothers block hv' fun heq => hother (.inl heq)).trans (addStorage_mem_of_ne N s hv')
    · obtain ⟨rest, hcells, hlength⟩ := hcells
      exact .ofEmbedded hcells hlength hrep.size
    · exact hcells'
    · intro b hb
      cases hb
    · exact fun b hb => (hothers _ Block.noConfusion Block.noConfusion).trans (hfresh b hb)
  · rw [if_neg (UInt64.not_le.2 hlt)]
    refine ⟨_, rfl, ?_⟩
    apply h.handOver hne ho hxs
    · rfl
    · rfl
    · exact fun block hv _ => addStorage_mem_of_ne N s fun heq => hv (.inl heq)
    · apply hrep.takeHeap hheap ⟨_, hstorage, length_replicate ..⟩
      rw [hheap]
      exact addStorage_mem_of_ne N s Block.noConfusion
    · obtain ⟨cells, hcells, hN⟩ := hrep.storage
      exact ⟨cells, (addStorage_mem_of_ne N s hblock).trans hcells, hN⟩
    · exact fun b hb => hb
    · exact hfresh

theorem moveAssign_rep (h : Rep N s a) (hne : v ≠ other) (hvec : s.vectors v = some vec)
    (ho : s.vectors other = some o) (hxs : a other = some xs)
    (hgood : vec.capacity = N ∨ o.capacity ≠ N) :
    ∃ s', moveAssign N s v other = some s' ∧
      Rep N s' (update (update a v (a other)) other (some [])) := by
  obtain ⟨ys, -, hrepV⟩ := h.vecRep hvec
  obtain ⟨xs', hxs', hrep⟩ := h.vecRep ho
  cases hxs.symm.trans hxs'
  obtain ⟨cells, hdestroy, hlength⟩ := destroy_eq h hvec
  obtain ⟨s₁, hfree, hvectors, hallocated, hkept, hembedded⟩ :=
    freeHeap_eq hrepV (State.setBlock_mem_self s vec.start (some cells))
  -- nothing of the other vector was destroyed or freed
  have hothers : ∀ block, block ≠ vec.start → s₁.mem block = s.mem block := by
    intro block hstart
    exact (hkept block hstart).trans (State.setBlock_mem_of_ne _ _ hstart)
  have hstart : ∀ block, block = .embedded other ∨ block = o.start → block ≠ vec.start :=
    fun block hblock heq => h.not_owned ho hne.symm hblock (.inr ⟨vec, hvec, heq⟩)
  have hrep₁ : VecRep N s₁.mem other o xs :=
    hrep.congr (hothers _ (hstart _ (.inl rfl))) (hothers _ (hstart _ (.inr rfl)))
  have hstorage : ∃ cells, s₁.mem (.embedded v) = some cells ∧ cells.length = N.toNat := by
    rcases hrepV.place with ⟨hsmall, hcapacity⟩ | ⟨⟨b, hheap⟩, -⟩
    · refine ⟨cells, ?_, hcapacity ▸ hlength⟩
      rw [← hsmall, hembedded hsmall, State.setBlock_mem_self]
    · obtain ⟨cells', hcells', hN⟩ := hrepV.storage
      refine ⟨cells', (hothers _ ?_).trans hcells', hN⟩
      rw [hheap]
      exact Block.noConfusion
  have hfresh : ∀ b, s.allocated ≤ b → s₁.mem (.heap b) = none :=
    fun b hb => (hothers _ (h.ne_fresh hvec hb)).trans (h.fresh b hb)
  simp only [moveAssign, if_neg hne, hvec, ho, hdestroy, hfree, bind_eq_bind, bind_some]
  rcases hrep.place with ⟨hsmall, hcapacity⟩ | ⟨⟨b, hheap⟩, hlt⟩
  · have hcapacityV : vec.capacity = N := hgood.resolve_right fun hne => hne hcapacity
    have hsmallV := hrepV.start_eq hcapacityV
    obtain ⟨cells₁, hcells₁, hN⟩ := hstorage
    obtain ⟨s₂, s₃, hmove, hdestroy', hvectors', hallocated', hcells', hcells'', hothers'⟩ :=
      moveElements_eq hne hrep₁ hsmall hcells₁ hN
    rw [if_pos (by rw [hcapacity]; exact UInt64.le_refl N),
      if_neg (by rw [hcapacityV]; exact UInt64.lt_irrefl N), hsmallV, hmove, bind_some,
      hdestroy', hcapacity, hcapacityV]
    refine ⟨_, rfl, ?_⟩
    apply h.handOver hne ho hxs
    · rw [State.setVec, State.setVec, hvectors', hvectors]
      rfl
    · exact hallocated'.trans hallocated
    · intro block hv hother
      refine (hothers' block (fun heq => hv (.inl heq)) fun heq => hother (.inl heq)).trans ?_
      exact hothers block fun heq => hv (.inr ⟨vec, hvec, heq⟩)
    · obtain ⟨rest, hcells', hlength'⟩ := hcells'
      exact .ofEmbedded hcells' hlength' hrep.size
    · exact hcells''
    · intro b hb
      cases hb
    · exact fun b hb => (hothers' _ Block.noConfusion Block.noConfusion).trans (hfresh b hb)
  · rw [if_neg (UInt64.not_le.2 hlt)]
    refine ⟨_, rfl, ?_⟩
    apply h.handOver hne ho hxs
    · rw [State.setVec, State.setVec, hvectors]
      rfl
    · exact hallocated
    · exact fun block hv _ => hothers block fun heq => hv (.inr ⟨vec, hvec, heq⟩)
    · exact hrep₁.takeHeap hheap hstorage rfl
    · exact hrep₁.storage
    · exact fun b hb => hb
    · exact hfresh

/-! ### Swaps -/

theorem State.swapRanges_eq {left right : Block} (n : Nat)
    (hne : left ≠ right) (hleft : s.mem left = some cells) (hright : s.mem right = some cells')
    (hn : n ≤ cells.length) (hn' : n ≤ cells'.length) :
    s.swapRanges left n right = some ((s.setBlock left (some (cells'.take n ++ cells.drop n))).setBlock
      right (some (cells.take n ++ cells'.drop n))) := by
  have hload : s.mem.load left 0 n = some (cells.take n) :=
    Blocks.load_eq_some hleft (by rw [Nat.zero_add]; exact hn)
  have hload' : s.mem.load right 0 n = some (cells'.take n) :=
    Blocks.load_eq_some hright (by rw [Nat.zero_add]; exact hn')
  have hlength : (cells'.take n).length = (cells.take n).length := by
    rw [length_take_of_le hn, length_take_of_le hn']
  have hstore := State.store_middle (State.mem_split n hleft) (show 0 = _ from rfl) hlength
  simp only [State.swapRanges, hload, hload', hstore, bind_eq_bind, bind_some]
  exact State.store_middle (State.mem_split n ((State.setBlock_mem_of_ne _ _ hne.symm).trans hright))
    rfl hlength.symm

theorem State.swapRanges_self {n : Nat}
    (hcells : s.mem block = some cells) (hn : n ≤ cells.length) :
    s.swapRanges block n block = some s := by
  have hload : s.mem.load block 0 n = some (cells.take n) :=
    Blocks.load_eq_some hcells (by rw [Nat.zero_add]; exact hn)
  have hcells' := State.mem_split n hcells
  have hstore := State.store_middle hcells' (show 0 = _ from rfl) rfl
  rw [State.setBlock, Blocks.set_eq_self hcells'] at hstore
  simp only [State.swapRanges, hload, hstore, bind_eq_bind, bind_some]

theorem swapRanges_out (size n : Nat)
    (hlocal : block ≠ .localArray) (hcells : s.mem block = some cells) (hn : n ≤ size)
    (hn' : n ≤ cells.length) :
    ∃ s₁, (s.setBlock .localArray (some (.replicate size none))).swapRanges block n .localArray =
        some s₁ ∧ s₁.vectors = s.vectors ∧ s₁.allocated = s.allocated ∧
      (∃ rest, s₁.mem .localArray = some (cells.take n ++ rest)) ∧
      (∃ cells₁, s₁.mem block = some cells₁ ∧ cells₁.length = cells.length) ∧
      ∀ other, other ≠ block → other ≠ .localArray → s₁.mem other = s.mem other := by
  refine ⟨_, State.swapRanges_eq n hlocal
    ((State.setBlock_mem_of_ne s (some (.replicate size none)) hlocal).trans hcells)
    (State.setBlock_mem_self s .localArray (some (.replicate size none))) hn'
    (by rw [length_replicate]; exact hn), rfl, rfl, ⟨_, State.setBlock_mem_self ..⟩, ?_, ?_⟩
  · refine ⟨_, (State.setBlock_mem_of_ne _ _ hlocal).trans (State.setBlock_mem_self ..), ?_⟩
    simp only [length_append, length_take, length_replicate, length_drop]
    omega
  · intro other hother hother'
    rw [State.setBlock_mem_of_ne _ _ hother', State.setBlock_mem_of_ne _ _ hother,
      State.setBlock_mem_of_ne _ _ hother']

theorem swapRanges_back {xs : List (Option T)} (n : Nat)
    (hlocal : block ≠ .localArray) (harray : s.mem .localArray = some (xs ++ rest))
    (hcells : s.mem block = some cells) (hn : n = xs.length) (hn' : n ≤ cells.length) :
    ∃ s₁, s.swapRanges .localArray n block = some s₁ ∧ s₁.vectors = s.vectors ∧
      s₁.allocated = s.allocated ∧ s₁.mem block = some (xs ++ cells.drop n) ∧
      ∀ other, other ≠ block → other ≠ .localArray → s₁.mem other = s.mem other := by
  have htake : (xs ++ rest).take n = xs := take_left' hn.symm
  refine ⟨_, State.swapRanges_eq n hlocal.symm harray hcells
    (by rw [hn, length_append]; exact Nat.le_add_right _ _) hn', rfl, rfl, ?_, ?_⟩
  · rw [State.setBlock_mem_self, htake]
  · intro other hother hother'
    rw [State.setBlock_mem_of_ne _ _ hother, State.setBlock_mem_of_ne _ _ hother']

/-- Three swaps with a local array exchange the first elements of two blocks. -/
theorem swapRanges_three {left right : Block} (size m n : Nat)
    (hne : right ≠ left) (hlocal : left ≠ .localArray) (hlocal' : right ≠ .localArray)
    (hleft : s.mem left = some cells) (hright : s.mem right = some cells')
    (hm : m ≤ size) (hm' : m ≤ cells.length) (hm'' : m ≤ cells'.length) (hn : n ≤ cells.length)
    (hn' : n ≤ cells'.length) :
    ∃ s₁ s₂ s₃, (s.setBlock .localArray (some (.replicate size none))).swapRanges left m .localArray =
        some s₁ ∧ s₁.swapRanges right n left = some s₂ ∧
      s₂.swapRanges .localArray m right = some s₃ ∧
      s₃.vectors = s.vectors ∧ s₃.allocated = s.allocated ∧
      (∃ rest, s₃.mem left = some (cells'.take n ++ rest) ∧ n + rest.length = cells.length) ∧
      (∃ rest, s₃.mem right = some (cells.take m ++ rest) ∧ m + rest.length = cells'.length) ∧
      ∀ block, block ≠ left → block ≠ right → block ≠ .localArray → s₃.mem block = s.mem block := by
  obtain ⟨s₁, hfirst, hvectors₁, hallocated₁, ⟨rest, harray⟩, ⟨cells₁, hleft₁, hlength₁⟩, hothers₁⟩ :=
    swapRanges_out size m hlocal hleft hm hm'
  have hright₁ : s₁.mem right = some cells' := (hothers₁ right hne hlocal').trans hright
  have hsecond := State.swapRanges_eq n hne hright₁ hleft₁ hn' (by rw [hlength₁]; exact hn)
  have hlength₂ : (cells₁.take n ++ cells'.drop n).length = cells'.length := by
    simp only [length_append, length_take, length_drop]
    omega
  obtain ⟨s₃, hthird, hvectors₃, hallocated₃, hright₃, hothers₃⟩ :=
    swapRanges_back (s := (s₁.setBlock right (some (cells₁.take n ++ cells'.drop n))).setBlock left
        (some (cells'.take n ++ cells₁.drop n))) m hlocal'
      (by rw [State.setBlock_mem_of_ne _ _ hlocal.symm, State.setBlock_mem_of_ne _ _ hlocal'.symm,
        harray])
      (by rw [State.setBlock_mem_of_ne _ _ hne, State.setBlock_mem_self])
      (length_take_of_le hm').symm (by rw [hlength₂]; exact hm'')
  refine ⟨s₁, _, s₃, hfirst, hsecond, hthird, hvectors₃.trans hvectors₁,
    hallocated₃.trans hallocated₁, ⟨cells₁.drop n, ?_, ?_⟩, ⟨_, hright₃, ?_⟩, ?_⟩
  · rw [hothers₃ left hne.symm hlocal, State.setBlock_mem_self]
  · rw [length_drop]
    omega
  · rw [length_drop]
    omega
  · intro block hblock hblock' hblockLocal
    rw [hothers₃ block hblock' hblockLocal, State.setBlock_mem_of_ne _ _ hblock,
      State.setBlock_mem_of_ne _ _ hblock', hothers₁ block hblock hblockLocal]

theorem VecRep.elements (h : VecRep N mem v vec xs) :
    ∃ cells, mem vec.start = some cells ∧ cells.take vec.size = xs.map some ∧
      vec.size ≤ cells.length ∧ cells.length = vec.capacity.toNat := by
  obtain ⟨rest, hcells, hlength⟩ := h.cells
  refine ⟨_, hcells, take_left' (by rw [length_map, h.size]), ?_, ?_⟩
  all_goals
    rw [length_append, length_map, hlength]
  rw [← hlength, h.size]
  exact Nat.le_add_right ..

theorem swap_embedded_rep (h : Rep N s a) (hne : v ≠ other) (hvec : s.vectors v = some vec)
    (ho : s.vectors other = some o) (hcapacity : vec.capacity = N) (hsize : o.size ≤ N.toNat) :
    ∃ s', swap N s v other = some s' ∧
      Rep N s' (update (update a v (a other)) other (a v)) := by
  obtain ⟨xs, hxs, hrep⟩ := h.vecRep hvec
  obtain ⟨ys, hys, hrep'⟩ := h.vecRep ho
  obtain ⟨cells, hcells, hxs', hroom, hlength⟩ := hrep.elements
  obtain ⟨cells', hcells', hys', hroom', hlength'⟩ := hrep'.elements
  have hsmall := hrep.start_eq hcapacity
  have hblocks : o.start ≠ vec.start := fun heq =>
    h.not_owned ho hne.symm (.inr rfl) (.inr ⟨vec, hvec, heq⟩)
  have hlocal : vec.start ≠ .localArray := (h.owned_old hvec (.inr rfl)).1
  have hlocal' : o.start ≠ .localArray := (h.owned_old ho (.inr rfl)).1
  have hN := hrep'.le_capacity
  rw [hcapacity] at hlength
  have hsizeV := hrep.size
  have hsizeO := hrep'.size
  obtain ⟨s₁, s₂, s₃, hfirst, hsecond, hthird, hvectors, hallocated, ⟨left, hleft, hleftLength⟩,
    ⟨right, hright, hrightLength⟩, hothers⟩ :=
    swapRanges_three N.toNat vec.size o.size hblocks hlocal hlocal' hcells hcells' (by omega)
      (by omega) (by omega) (by omega) (by omega)
  rw [hys'] at hleft
  rw [hxs'] at hright
  have hothers' : ∀ block, block ≠ vec.start → block ≠ o.start → block ≠ .localArray →
      (s₃.setBlock .localArray none).mem block = s.mem block := by
    intro block hv ho hlocal
    exact (State.setBlock_mem_of_ne _ _ hlocal).trans (hothers block hv ho hlocal)
  have hleft' : (s₃.setBlock .localArray none).mem vec.start = some (ys.map some ++ left) :=
    (State.setBlock_mem_of_ne _ _ hlocal).trans hleft
  have hright' : (s₃.setBlock .localArray none).mem o.start = some (xs.map some ++ right) :=
    (State.setBlock_mem_of_ne _ _ hlocal').trans hright
  refine ⟨((s₃.setBlock .localArray none).setVec v (some { vec with size := o.size })).setVec other
    (some { o with size := vec.size }), ?_, ?_⟩
  · simp only [swap, hvec, ho, hcapacity, hfirst, hsecond, hthird, bind_eq_bind,
      bind_some]
    rfl
  rw [hxs, hys]
  apply h.changeTwo hne
  · exact congrArg (fun vectors => update (update vectors v _) other _) hvectors
  · exact hallocated
  · intro block hv hother hlocal
    apply hothers' block _ _ hlocal
    · exact fun heq => hv (.inr ⟨vec, hvec, heq⟩)
    · exact fun heq => hother (.inr ⟨o, ho, heq⟩)
  · rw [hsmall] at hleft'
    rw [hcapacity, hsmall]
    exact .ofEmbedded hleft' (by omega) hrep'.size
  · have htotal : xs.length + right.length = o.capacity.toNat := by omega
    refine ⟨?_, hrep'.place, ⟨right, hright', htotal⟩, hrep.size⟩
    rcases hrep'.place with ⟨hembedded, hcapacity'⟩ | ⟨⟨b, hheap⟩, -⟩
    · rw [hembedded] at hright'
      refine ⟨_, hright', ?_⟩
      rw [length_append, length_map, htotal, hcapacity']
    · obtain ⟨cells, hstorage, hlength⟩ := hrep'.storage
      refine ⟨cells, (hothers' _ ?_ ?_ Block.noConfusion).trans hstorage, hlength⟩
      · exact fun heq => h.not_owned ho hne.symm (.inl rfl) (.inr ⟨vec, hvec, heq⟩)
      · rw [hheap]
        exact Block.noConfusion
  · rintro b (hb | hb)
    · exact .inl (.inr ⟨vec, hvec, hb.symm⟩)
    · exact .inr (.inr ⟨o, ho, hb.symm⟩)
  · exact fun b hb hb' => hne (h.separate hvec ho hb hb')
  · exact fun b hb => (hothers' _ (h.ne_fresh hvec hb) (h.ne_fresh ho hb) Block.noConfusion).trans
      (h.fresh b hb)

theorem swap_self_rep (h : Rep N s a) (hvec : s.vectors v = some vec) :
    ∃ s', swap N s v v = some s' ∧ Rep N s' a := by
  obtain ⟨xs, hxs, hrep⟩ := h.vecRep hvec
  have hself : update s.vectors v (some vec) = s.vectors := by
    rw [← hvec, update_eq_self]
  by_cases hcapacity : N = vec.capacity
  · obtain ⟨cells, hcells, hxs', hroom, hlength⟩ := hrep.elements
    have hlocal : vec.start ≠ .localArray := (h.owned_old hvec (.inr rfl)).1
    have hsize := hrep.size
    rw [← hcapacity] at hlength
    -- the elements go to the local array and come back
    obtain ⟨s₁, hfirst, hvectors₁, hallocated₁, ⟨rest₁, harray⟩, ⟨cells₁, hcells₁, hlength₁⟩,
      hothers₁⟩ := swapRanges_out N.toNat vec.size hlocal hcells (by omega) (by omega)
    rw [hxs'] at harray
    have hsecond : s₁.swapRanges vec.start vec.size vec.start = some s₁ :=
      State.swapRanges_self hcells₁ (by omega)
    obtain ⟨s₂, hthird, hvectors₂, hallocated₂, hcells₂, hothers₂⟩ :=
      swapRanges_back vec.size hlocal harray hcells₁ (by rw [length_map, hsize]) (by omega)
    refine ⟨((s₂.setBlock .localArray none).setVec v (some vec)).setVec v (some vec), ?_, ?_⟩
    · simp only [swap, hvec, if_pos hcapacity, hfirst, hsecond, hthird, bind_eq_bind,
        bind_some]
      rfl
    have hothers : ∀ block, block ≠ vec.start → block ≠ .localArray →
        (s₂.setBlock .localArray none).mem block = s.mem block := by
      intro block hblock hblockLocal
      rw [State.setBlock_mem_of_ne _ _ hblockLocal, hothers₂ block hblock hblockLocal,
        hothers₁ block hblock hblockLocal]
    rw [← update_some_eq_self hxs]
    apply h.changeOne hvec
    · change update (update s₂.vectors v (some vec)) v (some vec) = _
      rw [hvectors₂, hvectors₁, hself, hself]
    · intro block howned hblockLocal _
      exact hothers block (fun heq => howned (.inr ⟨vec, hvec, heq⟩)) hblockLocal
    · have hsmall := hrep.start_eq hcapacity.symm
      have hcells' : (s₂.setBlock .localArray none).mem (.embedded v) =
          some (xs.map some ++ cells₁.drop vec.size) := by
        rw [← hsmall, State.setBlock_mem_of_ne _ _ hlocal, hcells₂]
      have hvec' : vec = ⟨N, .embedded v, vec.size⟩ := by rw [hcapacity, ← hsmall]
      rw [hvec']
      refine .ofEmbedded hcells' ?_ hsize
      rw [length_drop]
      omega
    · exact fun b hb => .inr hb
    · intro b hb
      have hb' : s.allocated ≤ b :=
        Nat.le_trans (Nat.le_of_eq (hallocated₂.trans hallocated₁).symm) hb
      exact (hothers _ (h.ne_fresh hvec hb') Block.noConfusion).trans (h.fresh b hb')
  · simp only [swap, hvec, bind_eq_bind, bind_some, if_neg hcapacity]
    refine ⟨s, ?_, h⟩
    simp only [State.setVec, hself]
    rfl

theorem swap_heap_rep (h : Rep N s a) (hne : v ≠ other) (hvec : s.vectors v = some vec)
    (ho : s.vectors other = some o) (hcapacity : vec.capacity ≠ N) (hcapacity' : o.capacity ≠ N) :
    ∃ s', swap N s v other = some s' ∧
      Rep N s' (update (update a v (a other)) other (a v)) := by
  obtain ⟨xs, hxs, hrep⟩ := h.vecRep hvec
  obtain ⟨ys, hys, hrep'⟩ := h.vecRep ho
  obtain ⟨⟨b, hb⟩, -⟩ := hrep.heap_of_ne hcapacity
  obtain ⟨⟨b', hb'⟩, -⟩ := hrep'.heap_of_ne hcapacity'
  simp only [swap, hvec, ho, bind_eq_bind, bind_some, if_neg (Ne.symm hcapacity)]
  refine ⟨_, rfl, ?_⟩
  rw [hxs, hys]
  apply h.changeTwo hne
  · rfl
  · rfl
  · exact fun _ _ _ _ => rfl
  · exact hrep'.takeHeap hb' hrep.storage rfl
  · exact hrep.takeHeap hb hrep'.storage rfl
  · rintro c (hc | hc)
    · exact .inr (.inr ⟨o, ho, hc.symm⟩)
    · exact .inl (.inr ⟨vec, hvec, hc.symm⟩)
  · exact fun c hc hc' => hne (h.separate hvec ho hc' hc)
  · exact h.fresh

/-! ### Clones -/

theorem clone_rep (h : Rep N s a) (hxs : a v = some xs) (hother : a other = none) :
    ∃ s', clone N s v other = some s' ∧ Rep N s' (update a other (a v)) := by
  have hne : v ≠ other := by
    rintro rfl
    cases hxs.symm.trans hother
  obtain ⟨vec, hvec, hrep⟩ := h.live v xs hxs
  have h₁ := construct_rep h hother
  have hnew : (construct N s other).vectors other = some ⟨N, .embedded other, 0⟩ :=
    update_self ..
  have hxs₁ : update a other (some []) v = some xs := by
    rw [update_of_ne hne, hxs]
  have hvec₁ : (construct N s other).vectors v = some vec := by
    rw [← hvec]
    exact update_of_ne hne ..
  -- the clone has the capacity of the original
  obtain ⟨s₂, o, hreserve, h₂, ho, hcapacity, hvec₂⟩ : ∃ s₂ o,
      (if N < vec.capacity then reserve N (construct N s other) other vec.capacity
        else some (construct N s other)) = some s₂ ∧
      Rep N s₂ (update a other (some [])) ∧ s₂.vectors other = some o ∧
      o.capacity = vec.capacity ∧ s₂.vectors v = some vec := by
    by_cases hlt : N < vec.capacity
    · obtain ⟨s₂, o, hreserve, h₂, ho, hcapacity, hothers⟩ := reserve_rep h₁ hnew vec.capacity
      rw [if_pos hlt]
      refine ⟨s₂, o, hreserve, h₂, ho, ?_, (hothers v hne).trans hvec₁⟩
      rw [hcapacity, if_neg (UInt64.not_le.2 hlt)]
    · rw [if_neg hlt]
      refine ⟨_, _, rfl, h₁, hnew, ?_, hvec₁⟩
      by_contra hne
      exact hlt (hrep.heap_of_ne (Ne.symm hne)).2
  obtain ⟨hsize, rest, hcells, hlength⟩ := h₂.cells hvec₂ hxs₁
  obtain ⟨-, room, hroom, hroomLength⟩ := h₂.cells ho (update_self ..)
  rw [length_nil, hcapacity] at hroomLength
  have hload : s₂.mem.load vec.start 0 vec.size = some (xs.map some) :=
    Blocks.load_middle (show _ = some ([] ++ _ ++ _) from hcells) rfl
      (by rw [length_map, hsize])
  have hstore := State.store_middle (State.mem_split xs.length hroom) (show 0 = _ from rfl)
    (show (xs.map some).length = _ by
      rw [length_map, map_nil, nil_append, length_take_of_le (by omega)])
  refine ⟨s₂.put other o (xs.map some ++ room.drop xs.length) vec.size, ?_, ?_⟩
  · simp only [clone, hvec, hreserve, ho, State.copy, State.transfer, hload, hstore, if_true,
      bind_eq_bind, bind_some]
    rfl
  · have hput : Rep N (s₂.put other o (xs.map some ++ room.drop xs.length) vec.size)
        (update (update a other (some [])) other (some xs)) := by
      apply h₂.put ho (prefix_append _ _) _ hsize
      rw [length_append, length_map, length_drop, hcapacity]
      omega
    rw [update_idem, ← hxs] at hput
    exact hput

end ConstructionKit.Cargo
