import ConstructionKit.Host.CommandBuffer

/-! A command buffer of the host target and its clone have nothing in common that an update
changes: each ND-range has a block of packed arguments of its own. -/

namespace ConstructionKit.Host.CommandBuffer

open ProofKit Mux List Option

variable {h h' : Heap} {n : NDRange} {imageSupport : Bool} {descriptors : List Descriptor}

/-- An ND-range has a block of the size of its descriptors, and the addresses of its arguments are
in the block. -/
structure NDRange.Valid (h : Heap) (n : NDRange) : Prop where
  addresses : ∀ address ∈ n.argAddresses, address.block = n.packedArgs
  block : (h.map List.length)[n.packedArgs]? =
    some (calcPackedArgsAllocSize 0 n.descriptors).2.toNat

theorem NDRange.Valid.lt (hvalid : n.Valid h) : n.packedArgs < h.length := by
  have hlt := (List.getElem?_eq_some_iff.1 hvalid.block).1
  rwa [length_map] at hlt

theorem NDRange.Valid.of_lengths (hvalid : n.Valid h)
    (hlengths : h'.map List.length = h.map List.length) : n.Valid h' :=
  ⟨hvalid.addresses, hlengths ▸ hvalid.block⟩

theorem NDRange.Valid.length_packed (hvalid : n.Valid h) :
    (packed h n).length = (calcPackedArgsAllocSize 0 n.descriptors).2.toNat := by
  have hblock := hvalid.block
  rw [getElem?_map, map_eq_some_iff] at hblock
  obtain ⟨bytes, hbytes, hlength⟩ := hblock
  rw [packed, hbytes]
  exact hlength

theorem keeps_append (h : Heap) (bytes : List UInt8) :
    Keeps packed (fun h n => NDRange.Valid h n) h (h ++ [bytes]) := by
  intro n hvalid
  refine ⟨⟨hvalid.addresses, ?_⟩, ?_⟩
  · rw [map_append, getElem?_append_left (by rw [length_map]; exact hvalid.lt)]
    exact hvalid.block
  · rw [packed, packed, getElem?_append_left hvalid.lt]

theorem valid_append {kernel : Nat} {bytes : List UInt8}
    {sizes : Sizes} (hbytes : bytes.length = (calcPackedArgsAllocSize 0 descriptors).2.toNat) :
    NDRange.Valid (h ++ [bytes])
      ⟨kernel, h.length, storeArgAddresses h.length descriptors, descriptors, sizes⟩ := by
  constructor
  · intro address haddress
    obtain ⟨offset, -, rfl⟩ := mem_map.1 haddress
    rfl
  · rw [getElem?_map, getElem?_append_right (Nat.le_refl _), Nat.sub_self, ← hbytes]
    rfl

theorem length_of_populatePackedArgs {packedArgs packedArgs' : List UInt8} {offset : UInt64}
    (hpopulate : populatePackedArgs imageSupport packedArgs offset descriptors = some packedArgs') :
    packedArgs'.length = packedArgs.length := by
  induction descriptors generalizing packedArgs offset with
  | nil =>
    cases hpopulate
    rfl
  | cons descriptor descriptors ih =>
    obtain ⟨⟨bytes, size⟩, -, hpopulate⟩ := bind_eq_some_iff.1 hpopulate
    obtain ⟨packedArgs₁, hcopy, hpopulate⟩ := bind_eq_some_iff.1 hpopulate
    exact (ih hpopulate).trans (length_of_memcpy hcopy)

/-- The clone of an ND-range has a new block of the same packed arguments. -/
theorem clone_sound (hvalid : n.Valid h) :
    (n.clone h).2.Valid (n.clone h).1 ∧ packed (n.clone h).1 (n.clone h).2 = packed h n := by
  have htake : (packed h n).take (calcPackedArgsAllocSize 0 n.descriptors).2.toNat = packed h n :=
    take_of_length_le hvalid.length_packed.le
  rw [NDRange.clone, htake]
  refine ⟨valid_append hvalid.length_packed, ?_⟩
  simp only [packed, getElem?_append_right (Nat.le_refl _), Nat.sub_self,
    getElem?_cons_zero, getD_some]

theorem updateArgs_frame {args : List (Nat × Descriptor)} {result : Result}
    (haddresses : ∀ address ∈ n.argAddresses, address.block = n.packedArgs)
    (hupdate : updateArgs h n args = some (h', result)) :
    h'.map List.length = h.map List.length ∧
      ∀ block, block ≠ n.packedArgs → h'[block]? = h[block]? := by
  induction args generalizing h with
  | nil =>
    cases hupdate
    exact ⟨rfl, fun _ _ => rfl⟩
  | cons indexed args ih =>
    obtain ⟨address, haddress, hupdate⟩ := bind_eq_some_iff.1 hupdate
    obtain ⟨bytes, -, hupdate⟩ := bind_eq_some_iff.1 hupdate
    have hblock := haddresses address (mem_of_getElem? haddress)
    cases bytes with
    | none =>
      cases hupdate
      exact ⟨rfl, fun _ _ => rfl⟩
    | some =>
      obtain ⟨h₁, hstore, hupdate⟩ := bind_eq_some_iff.1 hupdate
      obtain ⟨hlengths, hothers⟩ := ih hupdate
      refine ⟨hlengths.trans (map_length_of_storeAt hstore), fun block hne => ?_⟩
      rw [hothers block hne, getElem?_of_storeAt hstore (hblock ▸ hne)]

/-- The packed arguments of an ND-range depend on its block only, so all of them are quiet. -/
theorem ownsBlocks (imageSupport : Bool) :
    (target imageSupport).OwnsBlocks packed (fun _ => True) (fun h n => NDRange.Valid h n)
      NDRange.packedArgs (fun _ => True) where
  empty := trivial
  commandNDRange := by
    intro h h' n kernel options _ hnew
    obtain ⟨packedArgs, hpopulate, hnew⟩ := bind_eq_some_iff.1 hnew
    cases hnew
    refine ⟨trivial, keeps_append h packedArgs, valid_append ?_⟩
    rw [length_of_populatePackedArgs hpopulate, length_replicate]
  cloneNDRange := by
    rintro h h' n n' - hvalid ⟨⟩
    obtain ⟨hvalid', hpacked⟩ := clone_sound hvalid
    refine ⟨trivial, keeps_append h _, hvalid', hpacked, fun m hm => ?_⟩
    exact Nat.ne_of_lt hm.lt
  updateArgs := by
    intro h h' n args result _ hvalid hupdate
    obtain ⟨hlengths, hothers⟩ := updateArgs_frame hvalid.addresses hupdate
    refine ⟨trivial, fun m hm => ⟨hm.of_lengths hlengths, fun hne _ => ?_⟩⟩
    rw [packed, packed, hothers _ hne]

end ConstructionKit.Host.CommandBuffer
