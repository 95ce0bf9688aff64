import ConstructionKit.Loader.Relocations

/-! What a new stub changes: the mapping of its section and the words of the stub. -/

namespace ConstructionKit.Loader

open ProofKit List

/-! ### Mappings -/

/-- The address on the target that the next stub of a section will have. -/
def Mapping.stubTarget (m : Mapping) : UInt64 := m.targetAddress + (m.stubAddress - m.writableAddress)

namespace ElfMap

variable {map : ElfMap} {sectionIndex : UInt32} {bytes : UInt64} {m : Mapping}

theorem sectionMappings_shrink (bytes : UInt64) (hm : map.mapping sectionIndex = some m) :
    ∃ front back, map.sectionMappings = front ++ m :: back ∧
      (∀ other ∈ front, other.sectionIndex ≠ sectionIndex) ∧ m.sectionIndex = sectionIndex ∧
      (map.shrinkRemainingStubSpace sectionIndex bytes).sectionMappings =
        front ++ { m with stubAddress := m.stubAddress + bytes } :: back := by
  obtain ⟨hindex, front, back, heq, hfront⟩ := find?_eq_some_iff_append.1 hm
  have hothers : ∀ other ∈ front, other.sectionIndex ≠ sectionIndex := by
    simpa using hfront
  have hnone : front.findIdx? (fun m => decide (m.sectionIndex = sectionIndex)) = none := by
    simpa using hothers
  have hfind : (front ++ m :: back).findIdx? (fun m => decide (m.sectionIndex = sectionIndex)) =
      some front.length := by
    rw [findIdx?_append, hnone, Option.none_or, findIdx?_cons, if_pos hindex,
      Option.map_some, Nat.zero_add]
  refine ⟨front, back, heq, hothers, of_decide_eq_true hindex, ?_⟩
  simp only [shrinkRemainingStubSpace, heq, hfind]
  rw [modify_eq_take_cons_drop (by simp)]
  simp

theorem mapping_shrink (bytes : UInt64) (hm : map.mapping sectionIndex = some m) :
    (map.shrinkRemainingStubSpace sectionIndex bytes).mapping sectionIndex =
      some { m with stubAddress := m.stubAddress + bytes } := by
  obtain ⟨front, back, -, hothers, hindex, heq⟩ := sectionMappings_shrink bytes hm
  rw [mapping, heq, find?_append, find?_eq_none.2 (by simpa using hothers),
    Option.none_or, find?_cons_of_pos (by simpa using hindex)]

theorem stubSpace_eq (hm : map.mapping sectionIndex = some m) :
    map.stubSpace sectionIndex =
      if m.writableEnd - m.stubAddress < 4 then none else some m.stubAddress := by
  rw [stubSpace, getRemainingStubSpace, hm]
  rfl

theorem getStubTargetAddress_eq (hm : map.mapping sectionIndex = some m) :
    map.getStubTargetAddress sectionIndex = some m.stubTarget := by
  rw [getStubTargetAddress, hm]
  rfl

end ElfMap

/-! ### Places -/

variable {r : Relocation} {s : State} {m : Mapping} {words : List UInt32} {i : Nat} (a : UInt64)

theorem Relocation.exists_mapping {offset : UInt64} {site : Site UInt64}
    (h : r.site s.map offset = some site) :
    ∃ m, s.map.mapping r.sectionIndex = some m ∧
      site.relocationAddress = m.writableAddress + offset ∧
      site.relocationTargetAddress = m.targetAddress + offset := by
  rw [Relocation.site, ElfMap.getSectionTargetAddress, ElfMap.getSectionWritableAddress] at h
  cases hm : s.map.mapping r.sectionIndex with
  | none => simp [hm] at h
  | some m =>
    simp only [hm] at h
    split at h
    · cases h
    · refine ⟨m, rfl, ?_⟩
      rw [← Option.some.inj h]
      exact ⟨rfl, rfl⟩

theorem Relocation.exists_mapping32 {site : Site UInt32} (h : r.site32 s.map = some site) :
    ∃ m, s.map.mapping r.sectionIndex = some m := by
  rw [site32, ElfMap.getSectionTargetAddress] at h
  cases hm : s.map.mapping r.sectionIndex with
  | none => simp [hm] at h
  | some m => exact ⟨m, rfl⟩

/-! ### Words that were written -/

@[simp] theorem State.readWord_writeWord_self (value : UInt32) :
    (s.writeWord a value).readWord a = value :=
  Memory.readWord_writeWord_self ..

/-- Words are apart if their addresses differ and leave the same remainder, also around the end of the
address space. -/
theorem State.readWord_writeWord_of_ne {a b : UInt64} (value : UInt32) (hne : a ≠ b)
    (hmod : a.toNat % 4 = b.toNat % 4) : (s.writeWord b value).readWord a = s.readWord a := by
  have hnat : a.toNat ≠ b.toNat := fun h => hne (UInt64.toNat_inj.1 h)
  apply Memory.readWord_write_disjoint
  rw [length_wordBytes]
  omega

theorem toNat_add_mul_four_mod (i : Nat) :
    (a + UInt64.ofNat (4 * i)).toNat % 4 = a.toNat % 4 := by
  rw [UInt64.toNat_add, UInt64.toNat_ofNat']
  omega

theorem add_ofNat_succ (i : Nat) :
    a + UInt64.ofNat (4 * (i + 1)) = a + 4 + UInt64.ofNat (4 * i) := by
  rw [Nat.mul_succ, Nat.add_comm, UInt64.ofNat_add, ← UInt64.add_assoc]
  rfl

theorem add_ofNat_ne (hpos : 0 < i) (hi : i < 2 ^ 62) :
    a ≠ a + UInt64.ofNat (4 * i) := by
  intro h
  have hnat := congrArg UInt64.toNat h
  rw [UInt64.toNat_add, UInt64.toNat_ofNat'] at hnat
  omega

theorem State.readWord_writeWords_of_ne {a b : UInt64} (hmod : a.toNat % 4 = b.toNat % 4)
    (hne : ∀ i < words.length, a ≠ b + UInt64.ofNat (4 * i)) :
    (s.writeWords b words).readWord a = s.readWord a := by
  induction words generalizing b s with
  | nil => rfl
  | cons word words ih =>
    have hfirst := hne 0 (Nat.succ_pos _)
    rw [show UInt64.ofNat 0 = 0 from rfl, UInt64.add_zero] at hfirst
    have hnext : a.toNat % 4 = (b + 4).toNat % 4 := hmod.trans (toNat_add_mul_four_mod b 1).symm
    rw [writeWords, ih hnext, readWord_writeWord_of_ne word hfirst hmod]
    intro i hi
    rw [← add_ofNat_succ]
    exact hne (i + 1) (by simpa using hi)

theorem State.readWord_writeWords {a : UInt64}
    (hi : i < words.length) (hlength : words.length < 2 ^ 62) :
    (s.writeWords a words).readWord (a + UInt64.ofNat (4 * i)) = words.getD i 0 := by
  induction words generalizing a i s with
  | nil => cases hi
  | cons word words ih =>
    rw [length_cons] at hi hlength
    cases i with
    | zero =>
      have hmod : a.toNat % 4 = (a + 4).toNat % 4 := (toNat_add_mul_four_mod a 1).symm
      rw [show UInt64.ofNat 0 = 0 from rfl, UInt64.add_zero, writeWords,
        readWord_writeWords_of_ne hmod]
      · exact readWord_writeWord_self ..
      · intro j hj
        rw [← add_ofNat_succ]
        exact add_ofNat_ne a (Nat.succ_pos j) (by omega)
    | succ => rw [add_ofNat_succ, writeWords, ih (by omega) (by omega), getD_cons_succ]

/-! ### New stubs -/

/-- The state after a stub of some words. -/
def State.addStub (s : State) (sectionIndex : UInt32) (m : Mapping) (words : List UInt32) : State :=
  { s.writeWords m.stubAddress words with
    map := s.map.shrinkRemainingStubSpace sectionIndex (UInt64.ofNat (4 * words.length)) }

/-- No stub is found, since none is ever recorded. -/
theorem getOrCreateStub_nil (hm : s.map.mapping r.sectionIndex = some m) (target entry : UInt64)
    (words : List UInt32) :
    getOrCreateStub r [] target words entry s =
      if m.writableEnd - m.stubAddress < 4 then (none, s)
      else (some (m.stubTarget + entry), s.addStub r.sectionIndex m words) := by
  rw [getOrCreateStub, show StubMap.getTarget [] target = none from rfl, ElfMap.stubSpace_eq hm,
    ElfMap.getStubTargetAddress_eq hm]
  by_cases hspace : m.writableEnd - m.stubAddress < 4
  · rw [if_pos hspace, if_pos hspace]
  · rw [if_neg hspace, if_neg hspace]
    rfl

theorem State.mapping_addStub (hm : s.map.mapping r.sectionIndex = some m) (words : List UInt32) :
    (s.addStub r.sectionIndex m words).map.mapping r.sectionIndex =
      some { m with stubAddress := m.stubAddress + UInt64.ofNat (4 * words.length) } := by
  rw [addStub, ElfMap.mapping_shrink _ hm]

end ConstructionKit.Loader
