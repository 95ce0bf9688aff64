import ConstructionKit.ProofKit.Runs
import ConstructionKit.Hal.Cells

/-! Histories of allocations and frees. -/

namespace ConstructionKit.Hal

open ProofKit List

variable {s t : Session} {x : Allocation} {op : Op}

/-- The memory of a session. -/
def Session.cells (s : Session) : List Cell := Hal.cells s.allocator.addrHi s.allocator.blocks

/-! ### The invariant -/

/-- The taken cells are the live allocations. -/
structure Session.Inv (s : Session) : Prop where
  pos : 0 < s.allocator.addrLo.toNat
  lt : s.allocator.addrLo.toNat < s.allocator.addrHi.toNat
  tiles : Tiles s.allocator.addrLo.toNat s.allocator.addrHi.toNat s.cells
  separated : Separated s.cells
  live : (s.live.map (·.ptr.toNat)).Perm ((taken s.cells).map (·.start))
  fits : ∀ x ∈ s.live, ∀ c ∈ taken s.cells, c.start = x.ptr.toNat →
    x.ptr.toNat + effectiveSize x.size ≤ c.stop
  aligned : ∀ x ∈ s.live, x.alignment.toNat ∣ x.ptr.toNat

theorem Session.inv_create {base size : UInt64} (hbase : 0 < base.toNat) (hsize : 0 < size.toNat)
    (hfits : base.toNat + size.toNat < 2 ^ 64) : (Session.create base size).Inv := by
  have hhi : (base + size).toNat = base.toNat + size.toNat := by
    rw [UInt64.toNat_add]
    omega
  refine ⟨hbase, ?_, ⟨rfl, ?_, rfl⟩, isChain_singleton _, .refl _, ?_, ?_⟩
  iterate 2
    · show base.toNat < (base + size).toNat
      omega
  all_goals
    intro x hx
    cases hx

section

variable (h : s.Inv)
include h

theorem Session.Inv.exists_cell (hx : x ∈ s.live) :
    ∃ c ∈ taken s.cells, c.start = x.ptr.toNat := by
  have hmem : x.ptr.toNat ∈ (taken s.cells).map (·.start) :=
    h.live.mem_iff.1 (mem_map_of_mem hx)
  exact mem_map.1 hmem

theorem Session.Inv.bounds (hx : x ∈ s.live) : s.allocator.addrLo.toNat ≤ x.ptr.toNat ∧
      x.ptr.toNat + effectiveSize x.size ≤ s.allocator.addrHi.toNat := by
  obtain ⟨c, hc, hstart⟩ := h.exists_cell hx
  have hbounds := h.tiles.bounds (mem_taken.1 hc).1
  have hfits := h.fits x hx c hc hstart
  omega

theorem Session.Inv.nodup : (s.live.map (·.ptr.toNat)).Nodup :=
  h.live.nodup_iff.2 (nodup_taken h.tiles)

/-! ### Allocation -/

theorem Session.Inv.alloc {size alignment : UInt64} (hpow : IsPowerOfTwo alignment)
    (ht : s.step (.alloc size alignment) = some t) : t.Inv := by
  cases hfind : Allocator.findSpace s.allocator.addrHi (if size = 0 then 1 else size) alignment
      s.allocator.blocks with
  | none =>
    have hsame : s.allocator.alloc size alignment = (0, s.allocator) := by
      rw [Allocator.alloc, hfind]
    rw [step, hsame] at ht
    cases ht
    exact h
  | some found =>
    obtain ⟨start, block⟩ := found
    obtain ⟨hptr, front, stop, back, hbefore, hafter, hle, hstop, hdvd⟩ :=
      alloc_cells hpow h.tiles hfind
    have hbase : s.allocator.addrLo.toNat ≤ block.addr.toNat :=
      (h.tiles.bounds (c := ⟨block.addr.toNat, stop, true⟩)
        (by rw [Session.cells, hbefore]; simp)).1
    have hpositive := h.pos
    have hne : start ≠ 0 := by
      intro hzero
      rw [hzero, show (0 : UInt64).toNat = 0 from rfl] at hle
      omega
    have hlt : start.toNat < stop := by
      have : 0 < effectiveSize size := Nat.lt_of_lt_of_le Nat.one_pos (Nat.le_max_right ..)
      omega
    have ht' : t = ⟨(s.allocator.alloc size alignment).2, ⟨start, size, alignment⟩ :: s.live⟩ := by
      rw [step] at ht
      simp only [hptr, if_neg hne] at ht
      exact (Option.some.inj ht).symm
    have hcells : t.cells = front ++ (cut block.addr.toNat start.toNat stop ++ back) := by
      rw [ht', Session.cells]
      simpa using hafter
    have htiles : Tiles t.allocator.addrLo.toNat t.allocator.addrHi.toNat t.cells := by
      rw [hcells, ht']
      simpa using tiles_cut (hbefore ▸ h.tiles) hle hlt
    have hold : taken s.cells = taken front ++ taken back := by
      rw [Session.cells, hbefore, taken_append]
      rfl
    have hnew : taken t.cells = taken front ++ ⟨start.toNat, stop, false⟩ :: taken back := by
      rw [hcells, taken_append, taken_append, taken_cut]
      rfl
    have hsub : ∀ c ∈ taken s.cells, c ∈ taken t.cells := by
      intro c hc
      rw [hold, mem_append] at hc
      rw [hnew, mem_append]
      tauto
    refine ⟨by simpa [ht'] using h.pos, by simpa [ht'] using h.lt, htiles, ?_, ?_, ?_, ?_⟩
    · rw [hcells]
      exact separated_cut (hbefore ▸ h.separated)
    · rw [hnew, ht', map_append]
      have hlive := h.live
      rw [hold, map_append] at hlive
      exact (hlive.cons _).trans perm_middle.symm
    · intro x hx c hc hstart
      -- There is only one cell with this start.
      have hunique : ∀ d ∈ taken t.cells, d.start = x.ptr.toNat → c = d := fun d hd heq =>
        htiles.eq_of_start (mem_taken.1 hc).1 (mem_taken.1 hd).1 (hstart.trans heq.symm)
      rw [ht', mem_cons] at hx
      obtain rfl | hx := hx
      · rw [hunique ⟨start.toNat, stop, false⟩ (by simp [hnew]) rfl]
        exact hstop
      · obtain ⟨d, hd, heq⟩ := h.exists_cell hx
        rw [hunique d (hsub d hd) heq]
        exact h.fits x hx d hd heq
    · intro x hx
      rw [ht', mem_cons] at hx
      obtain rfl | hx := hx
      · exact hdvd
      · exact h.aligned x hx

theorem Session.Inv.refuses {size alignment : UInt64} (hpow : IsPowerOfTwo alignment)
    (hzero : (s.allocator.alloc size alignment).1 = 0) :
    ∀ c ∈ s.cells, c.free = true → ¬ ∃ p, alignment.toNat ∣ p ∧ c.start ≤ p ∧
      p + effectiveSize size ≤ c.stop := by
  have hnone : Allocator.findSpace s.allocator.addrHi (if size = 0 then 1 else size) alignment
      s.allocator.blocks = none := by
    cases hfind : Allocator.findSpace s.allocator.addrHi (if size = 0 then 1 else size) alignment
        s.allocator.blocks with
    | none => rfl
    | some found =>
      obtain ⟨start, block⟩ := found
      obtain ⟨hptr, front, stop, back, hbefore, -, hle, -⟩ := alloc_cells hpow h.tiles hfind
      have hbase := (h.tiles.bounds (c := ⟨block.addr.toNat, stop, true⟩)
        (by rw [Session.cells, hbefore]; simp)).1
      rw [← hptr, hzero, show (0 : UInt64).toNat = 0 from rfl] at hle
      have hpositive := h.pos
      simp only at hbase
      omega
  rintro c hc hfree ⟨p, ⟨n, rfl⟩, hlow, hhigh⟩
  obtain ⟨front, block, back, hblocks, rfl⟩ := exists_block hc
  simp only at hfree hlow hhigh
  rw [hblocks] at hnone
  obtain hsmall | hsmall := findSpace_none hnone hfree
  · -- The greatest multiple that leaves the size is not below another one.
    have hsize : (if size = 0 then 1 else size) ≤ blockEnd s.allocator.addrHi back := by
      rw [UInt64.le_iff_toNat_le, toNat_effectiveSize]
      omega
    rw [UInt64.lt_iff_toNat_lt, toNat_alignDown hpow, UInt64.toNat_sub_of_le _ _ hsize,
      toNat_effectiveSize] at hsmall
    have hpos : 0 < alignment.toNat := by
      obtain ⟨k, -, heq⟩ := hpow
      rw [heq]
      exact Nat.two_pow_pos k
    have hdiv : n ≤ ((blockEnd s.allocator.addrHi back).toNat - effectiveSize size) /
        alignment.toNat := by
      rw [Nat.le_div_iff_mul_le hpos, Nat.mul_comm]
      omega
    have := Nat.mul_le_mul_left alignment.toNat hdiv
    omega
  · rw [UInt64.lt_iff_toNat_lt, toNat_effectiveSize] at hsmall
    omega

/-! ### Freeing -/

theorem Session.Inv.free {ptr : UInt64} (hptr : ptr ∈ s.live.map (·.ptr))
    (ht : s.step (.free ptr) = some t) : t.Inv := by
  obtain ⟨x, hx, rfl⟩ := mem_map.1 hptr
  have hne : x.ptr ≠ 0 := by
    intro hzero
    have hlow := (h.bounds hx).1
    rw [hzero, show (0 : UInt64).toNat = 0 from rfl] at hlow
    have := h.pos
    omega
  obtain ⟨front, stop, back, hbefore, hafter⟩ := free_cells hne h.tiles (h.exists_cell hx)
  obtain rfl : ⟨s.allocator.free x.ptr, s.live.filter (·.ptr ≠ x.ptr)⟩ = t := Option.some.inj ht
  have hcells : Session.cells ⟨s.allocator.free x.ptr, s.live.filter (·.ptr ≠ x.ptr)⟩ =
      mergeAll (front ++ ⟨x.ptr.toNat, stop, true⟩ :: back) := by
    rw [Session.cells]
    simpa using hafter
  have hold : taken s.cells = taken front ++ ⟨x.ptr.toNat, stop, false⟩ :: taken back := by
    rw [Session.cells, hbefore, taken_append]
    rfl
  have hnew : taken (mergeAll (front ++ ⟨x.ptr.toNat, stop, true⟩ :: back)) =
      taken front ++ taken back := by
    rw [taken_mergeAll, taken_append]
    rfl
  have hsub : ∀ c ∈ taken front ++ taken back, c ∈ taken s.cells := by
    intro c hc
    rw [mem_append] at hc
    rw [hold, mem_append]
    tauto
  refine ⟨by simpa using h.pos, by simpa using h.lt, ?_, ?_, ?_, ?_, ?_⟩
  · rw [hcells]
    have htiles := h.tiles
    rw [Session.cells, hbefore, tiles_append] at htiles
    have hfreed : Tiles s.allocator.addrLo.toNat s.allocator.addrHi.toNat
        (front ++ ⟨x.ptr.toNat, stop, true⟩ :: back) := tiles_append.2 htiles
    simpa using tiles_mergeAll hfreed
  · rw [hcells]
    exact separated_mergeAll _
  · rw [hcells, hnew]
    have hlive := h.live
    have hnodup := nodup_taken h.tiles
    rw [hold, map_append, map_cons] at hlive hnodup
    -- Exactly one allocation is freed, and exactly one cell.
    have hfilter : ((s.live.filter (·.ptr ≠ x.ptr)).map (·.ptr.toNat)) =
        (s.live.map (·.ptr.toNat)).filter (· ≠ x.ptr.toNat) := by
      rw [filter_map]
      congr 1
      apply filter_congr
      intro y _
      simp [UInt64.toNat_inj]
    rw [hfilter]
    refine (hlive.filter _).trans ?_
    rw [nodup_append, nodup_cons] at hnodup
    obtain ⟨-, ⟨hback, -⟩, hcross⟩ := hnodup
    rw [filter_append, filter_cons_of_neg (by simp), map_append,
      filter_eq_self.2, filter_eq_self.2]
    · intro y hy
      have hne' : y ≠ x.ptr.toNat := fun heq => hback (heq ▸ hy)
      simpa using hne'
    · intro y hy
      simpa using hcross y hy _ (mem_cons_self ..)
  · intro y hy c hc hstart
    rw [hcells, hnew] at hc
    exact h.fits y (mem_filter.1 hy).1 c (hsub c hc) hstart
  · intro y hy
    exact h.aligned y (mem_filter.1 hy).1

/-- If everything is freed, one block is left. -/
theorem Session.Inv.reset (hlive : s.live = []) : s.allocator = s.allocator.reset := by
  have hfree : ∀ c ∈ s.cells, c.free = true := by
    intro c hc
    by_contra hne
    have hmem : c.start ∈ (taken s.cells).map (·.start) :=
      mem_map_of_mem (mem_taken.2 ⟨hc, by simpa using hne⟩)
    rw [← h.live.mem_iff, hlive] at hmem
    cases hmem
  have hone := eq_singleton_of_separated h.tiles h.lt h.separated hfree
  rw [Session.cells] at hone
  rcases hblocks : s.allocator.blocks with _ | ⟨block, rest⟩
  · rw [hblocks] at hone
    cases hone
  · rw [hblocks, Hal.cells, List.cons.injEq, Cell.mk.injEq] at hone
    obtain ⟨⟨haddr, -, hisFree⟩, hrest⟩ := hone
    have hnil : rest = [] := by
      cases rest with
      | nil => rfl
      | cons => cases hrest
    have hblock : block = ⟨s.allocator.addrLo, true⟩ := by
      cases block
      simp_all [UInt64.toNat_inj]
    rw [Allocator.reset, ← hblock, ← hnil, ← hblocks]

theorem Session.Inv.freeAll (ptrs : List UInt64)
    (hptrs : ptrs.Perm (s.live.map (·.ptr))) :
    ptrs.foldl Allocator.free s.allocator = s.allocator.reset := by
  induction ptrs generalizing s with
  | nil => exact h.reset (map_eq_nil_iff.1 (nil_perm.1 hptrs))
  | cons ptr ptrs ih =>
    have hmem : ptr ∈ s.live.map (·.ptr) := hptrs.mem_iff.1 (mem_cons_self ..)
    have hnodup : (ptr :: ptrs).Nodup := by
      rw [hptrs.nodup_iff]
      have hnat : ((s.live.map (·.ptr)).map UInt64.toNat).Nodup := by
        rw [map_map]
        exact h.nodup
      exact List.Nodup.of_map _ hnat
    have hrest : ptrs.Perm ((s.live.filter (·.ptr ≠ ptr)).map (·.ptr)) := by
      have hfilter := hptrs.filter (· ≠ ptr)
      rw [filter_cons_of_neg (by simp), filter_eq_self.2, filter_map] at hfilter
      · exact hfilter
      · intro other hother
        have hne : other ≠ ptr := fun heq => (nodup_cons.1 hnodup).1 (heq ▸ hother)
        simpa using hne
    have hnext := ih (h.free hmem rfl) hrest
    rw [foldl_cons, hnext, Allocator.reset, Allocator.reset, Allocator.addrLo_free,
      Allocator.addrHi_free]

end

/-! ### Runs -/

/-- What holds in a session with some memory. -/
structure Session.Sound (base size : UInt64) (s : Session) : Prop where
  disjoint : s.live.Pairwise fun x y =>
    x.ptr.toNat + effectiveSize x.size ≤ y.ptr.toNat ∨
      y.ptr.toNat + effectiveSize y.size ≤ x.ptr.toNat
  inside : ∀ x ∈ s.live, base.toNat ≤ x.ptr.toNat ∧
    x.ptr.toNat + effectiveSize x.size ≤ base.toNat + size.toNat
  aligned : ∀ x ∈ s.live, x.alignment.toNat ∣ x.ptr.toNat
  separated : s.allocator.blocks.IsChain fun b c => ¬ (b.isFree ∧ c.isFree)
  available : s.allocator.available.toNat =
    (uncovered base.toNat (base.toNat + size.toNat) s.cells).card
  refuses : ∀ size alignment, IsPowerOfTwo alignment → (s.allocator.alloc size alignment).1 = 0 →
    ∀ c ∈ s.cells, c.free = true → ¬ ∃ p, alignment.toNat ∣ p ∧ c.start ≤ p ∧
      p + effectiveSize size ≤ c.stop
  restores : ∀ ptrs : List UInt64, ptrs.Perm (s.live.map (·.ptr)) →
    ptrs.foldl Allocator.free s.allocator = Allocator.create base size

theorem separated_blocks {addrHi : UInt64} {blocks : List Block}
    (h : Separated (cells addrHi blocks)) :
    blocks.IsChain fun b c => ¬ (b.isFree ∧ c.isFree) := by
  induction blocks with
  | nil => exact isChain_nil
  | cons block blocks ih =>
    cases blocks with
    | nil => exact isChain_singleton _
    | cons =>
      obtain ⟨hboth, htail⟩ := isChain_cons_cons.1 h
      exact isChain_cons_cons.2 ⟨hboth, ih htail⟩

theorem Session.Inv.disjoint (h : s.Inv) : s.live.Pairwise fun x y =>
    x.ptr.toNat + effectiveSize x.size ≤ y.ptr.toNat ∨
      y.ptr.toNat + effectiveSize y.size ≤ x.ptr.toNat := by
  have hne : s.live.Pairwise fun x y => x.ptr.toNat ≠ y.ptr.toNat := by
    exact pairwise_map.1 h.nodup
  refine hne.imp_of_mem fun {x y} hx hy hne => ?_
  obtain ⟨c, hc, hcx⟩ := h.exists_cell hx
  obtain ⟨d, hd, hdy⟩ := h.exists_cell hy
  have hfitsx := h.fits x hx c hc hcx
  have hfitsy := h.fits y hy d hd hdy
  have hcd : c ≠ d := by
    rintro rfl
    exact hne (hcx.symm.trans hdy)
  have hapart := h.tiles.apart (mem_taken.1 hc).1 (mem_taken.1 hd).1 hcd
  omega

theorem Session.Inv.sound (h : s.Inv) {base size : UInt64} (hlo : s.allocator.addrLo = base)
    (hhi : s.allocator.addrHi = base + size) (hfits : base.toNat + size.toNat < 2 ^ 64) :
    s.Sound base size := by
  have hnat : s.allocator.addrHi.toNat = base.toNat + size.toNat := by
    rw [hhi, UInt64.toNat_add]
    omega
  refine ⟨h.disjoint, fun x hx => ?_, h.aligned, separated_blocks h.separated, ?_,
    fun size alignment hpow => h.refuses hpow, fun ptrs hptrs => ?_⟩
  · have hbounds := h.bounds hx
    rwa [hlo, hnat] at hbounds
  · have htiles := h.tiles
    rw [hlo, hnat] at htiles
    rw [card_uncovered htiles, Allocator.available, toNat_availableFrom htiles.le htiles]
    · exact Nat.zero_add _
    · have hzero : (0 : UInt64).toNat = 0 := rfl
      omega
  · rw [h.freeAll ptrs hptrs, Allocator.create, Allocator.reset, Allocator.reset, hlo, hhi]

theorem Session.addr_step (h : s.step op = some t) :
    t.allocator.addrLo = s.allocator.addrLo ∧ t.allocator.addrHi = s.allocator.addrHi := by
  cases op with
  | alloc =>
    cases h
    exact ⟨Allocator.addrLo_alloc .., Allocator.addrHi_alloc ..⟩
  | free =>
    cases h
    exact ⟨Allocator.addrLo_free .., Allocator.addrHi_free ..⟩

theorem Session.Inv.step (h : s.Inv) (hallowed : s.Allowed op)
    (ht : s.step op = some t) : t.Inv := by
  cases op with
  | alloc => exact h.alloc hallowed ht
  | free => exact h.free hallowed ht

/-- Every history of allocations, with powers of two as alignments, and of frees of what is live leaves
a sound session. -/
theorem sound_of_runs {base size : UInt64} (hbase : 0 < base.toNat) (hsize : 0 < size.toNat)
    (hfits : base.toNat + size.toNat < 2 ^ 64) {s : Session}
    (h : Runs Session.step Session.Allowed (Session.create base size) s) : s.Sound base size := by
  have hinv : s.Inv ∧ s.allocator.addrLo = base ∧ s.allocator.addrHi = base + size := by
    apply h.invariant
    · intro s t op hallowed ht hs
      obtain ⟨hinv, hlo, hhi⟩ := hs
      obtain ⟨hlo', hhi'⟩ := Session.addr_step ht
      exact ⟨hinv.step hallowed ht, hlo'.trans hlo, hhi'.trans hhi⟩
    · exact ⟨Session.inv_create hbase hsize hfits, rfl, rfl⟩
  exact hinv.1.sound hinv.2.1 hinv.2.2 hfits

/-- Two allocations, the first of which is freed. -/
theorem sound_of_runs_example :
    ∃ s : Session, s.allocator.blocks = [⟨0x1000, true⟩, ⟨0x10c0, false⟩, ⟨0x10ff, true⟩] ∧
      s.Sound 0x1000 0x100 := by
  have hrun := Runs.follow_getD Session.step Session.Allowed (Session.create 0x1000 0x100)
    [.alloc 1 1, .alloc 48 64, .free 0x10ff] (Session.create 0x1000 0x100) (by decide +kernel)
  exact ⟨_, by decide +kernel, sound_of_runs (by decide) (by decide) (by decide) hrun⟩

end ConstructionKit.Hal
