import ConstructionKit.Loader.Stubs
import ConstructionKit.ProofKit.Runs

/-! The space for stubs behind a section. -/

namespace ConstructionKit.Loader

open ProofKit List

variable {r : Relocation} {s t : State} {m : Mapping} {machine : Machine} {words : List UInt32}
  {sec : Section} {stubs : Nat}

/-! ### What a relocation writes -/

/-- One place of the memory is written, or nothing. -/
def Patches (s t : State) : Prop :=
  ∃ (address : UInt64) (bytes : List UInt8),
    t = { s with memory := s.memory.write address.toNat bytes }

theorem Patches.refl (s : State) : Patches s s := by
  refine ⟨0, [], ?_⟩
  have hnone : s.memory.write (0 : UInt64).toNat [] = s.memory := by
    funext a
    rw [Memory.write, if_neg (by simp)]
  rw [hnone]

theorem Patches.write (s : State) (address : UInt64) (width value : Nat) :
    Patches s (s.write address width value) := ⟨address, _, rfl⟩

theorem Patches.writeWord (s : State) (address : UInt64) (value : UInt32) :
    Patches s (s.writeWord address value) := ⟨address, _, rfl⟩

theorem Patches.writeIf (s : State) (fits : Bool) (address : UInt64) (width value : Nat) :
    Patches s (writeIf s fits address width value).2 := by
  cases fits
  · exact .refl s
  · exact .write s address width value

theorem Patches.map_eq (h : Patches s t) : t.map = s.map := by
  obtain ⟨address, bytes, rfl⟩ := h
  rfl

/-- The words of the stub that a relocation needs. -/
def Relocation.stubWords (r : Relocation) (machine : Machine) (s : State) : Option (List UInt32) :=
  match machine with
  | .arm =>
    match r.site32 s.map, ArmType.ofCode r.type with
    | some site, some .pc24 | some site, some .call | some site, some .jump24 =>
      some (armStub site.symbolTargetAddress)
    | _, _ => none
  | .aarch64 =>
    match r.site s.map r.offset, AArch64Type.ofCode r.type with
    | some site, some .call26 | some site, some .jump26 =>
      if inReach (site.symbolTargetAddress - site.relocationTargetAddress) then none
      else some (aarch64Stub site.symbolTargetAddress)
    | _, _ => none
  | _ => none

/-- The stub that a relocation makes: where, and its words. -/
def Relocation.newStub (r : Relocation) (machine : Machine) (s : State) :
    Option (UInt64 × List UInt32) :=
  match r.stubWords machine s, s.map.stubSpace r.sectionIndex with
  | some words, some start => some (start, words)
  | _, _ => none

/-- An Arm branch is only accepted with the addend that compilers generate. -/
def Relocation.hasAddend (r : Relocation) (s : State) : Bool :=
  match r.site32 s.map with
  | none => false
  | some site => s.readWord site.relocationAddress &&& 0xffffff = 0xfffffe

/-- All that a relocation can do to the mappings and to the space for stubs. -/
inductive Outcome (r : Relocation) (machine : Machine) (s : State) : Resolved → Prop
  | plain {resolved : Bool} {t : State} (needs : r.stubWords machine s = none)
      (patches : Patches s t) : Outcome r machine s (resolved, t)
  | full {resolved : Bool} {t : State} {words : List UInt32} {m : Mapping}
      (needs : r.stubWords machine s = some words)
      (mapped : s.map.mapping r.sectionIndex = some m)
      (space : m.writableEnd - m.stubAddress < 4) (patches : Patches s t)
      (accepts : resolved = true ↔ machine = .arm ∧ r.hasAddend s) : Outcome r machine s (resolved, t)
  | stub {resolved : Bool} {t : State} {words : List UInt32} {m : Mapping}
      (needs : r.stubWords machine s = some words)
      (mapped : s.map.mapping r.sectionIndex = some m)
      (space : ¬ m.writableEnd - m.stubAddress < 4)
      (patches : Patches (s.addStub r.sectionIndex m words) t) : Outcome r machine s (resolved, t)

theorem resolveX86_32_patches (r : Relocation) (s : State) : Patches s (resolveX86_32 r s).2 := by
  rw [resolveX86_32]
  cases r.site32 s.map with
  | none => exact .refl s
  | some =>
    cases X86_32Type.ofCode r.type with
    | none => exact .refl s
    | some type =>
      cases type with
      | none => exact .refl s
      | abs32 | pc32 => exact .writeWord ..
      | pc16 | pc8 => exact .writeIf ..

theorem resolveX86_64_patches (r : Relocation) (s : State) : Patches s (resolveX86_64 r s).2 := by
  rw [resolveX86_64]
  cases r.site s.map (r.offset &&& 0xffffffff) with
  | none => exact .refl s
  | some =>
    cases X86_64Type.ofCode r.type with
    | none => exact .refl s
    | some type =>
      cases type with
      | none => exact .refl s
      | abs64 | pc64 => exact .write ..
      | _ => exact .writeIf ..

theorem resolveArm_outcome (r : Relocation) (s : State) :
    Outcome r .arm s (resolveArm r [] s) := by
  have hneeds := Relocation.stubWords.eq_def r .arm s
  cases hsite : r.site32 s.map with
  | none =>
    rw [hsite] at hneeds
    rw [resolveArm, hsite]
    exact .plain hneeds (.refl s)
  | some site =>
    have hbranch (needs : r.stubWords .arm s = some (armStub site.symbolTargetAddress)) :
        Outcome r .arm s
          (resolveArmBranch r [] site (s.readWord site.relocationAddress) s) := by
      obtain ⟨m, hm⟩ := r.exists_mapping32 hsite
      rw [resolveArmBranch, getOrCreateStub_nil hm]
      by_cases hspace : m.writableEnd - m.stubAddress < 4
      · have haddend : r.hasAddend s =
            decide (s.readWord site.relocationAddress &&& 0xffffff = 0xfffffe) := by
          rw [Relocation.hasAddend, hsite]
        simp only [hspace]
        split
        · exact .full needs hm hspace (.refl s) (by simp_all)
        · exact .full needs hm hspace (.writeWord ..) (by simp_all)
      · simp only [hspace]
        split
        · exact .stub needs hm hspace (.refl _)
        · exact .stub needs hm hspace (.writeWord ..)
    rw [hsite] at hneeds
    rw [resolveArm, hsite]
    cases htype : ArmType.ofCode r.type with
    | none =>
      rw [htype] at hneeds
      exact .plain hneeds (.refl s)
    | some type =>
      rw [htype] at hneeds
      cases type with
      | none => exact .plain hneeds (.refl s)
      | pc24 | call | jump24 => exact hbranch hneeds
      | _ => exact .plain hneeds (.writeWord ..)

theorem resolveAArch64_outcome (r : Relocation) (s : State) :
    Outcome r .aarch64 s (resolveAArch64 r [] s) := by
  have hneeds := Relocation.stubWords.eq_def r .aarch64 s
  cases hsite : r.site s.map r.offset with
  | none =>
    rw [hsite] at hneeds
    rw [resolveAArch64, hsite]
    exact .plain hneeds (.refl s)
  | some site =>
    have hbranch (needs : r.stubWords .aarch64 s =
        if inReach (site.symbolTargetAddress - site.relocationTargetAddress) then none
        else some (aarch64Stub site.symbolTargetAddress)) :
        Outcome r .aarch64 s
          (resolveBranch26 r [] site (s.readWord site.relocationAddress) s) := by
      obtain ⟨m, hm, -⟩ := r.exists_mapping hsite
      rw [resolveBranch26]
      by_cases hreach : inReach (site.symbolTargetAddress - site.relocationTargetAddress) = true
      · rw [if_pos hreach] at needs
        simp only [hreach]
        exact .plain needs (.writeWord ..)
      · rw [if_neg hreach] at needs
        simp only [hreach, getOrCreateStub_nil hm]
        by_cases hspace : m.writableEnd - m.stubAddress < 4
        · simp only [hspace]
          exact .full needs hm hspace (.refl s) (by simp)
        · simp only [hspace, if_false, Bool.false_eq_true]
          split
          · exact .stub needs hm hspace (.refl _)
          · split
            · exact .stub needs hm hspace (.refl _)
            · exact .stub needs hm hspace (.writeWord ..)
    rw [hsite] at hneeds
    rw [resolveAArch64, hsite]
    cases htype : AArch64Type.ofCode r.type with
    | none =>
      rw [htype] at hneeds
      exact .plain hneeds (.refl s)
    | some type =>
      rw [htype] at hneeds
      cases type with
      | call26 | jump26 => exact hbranch hneeds
      | none => exact .plain hneeds (.refl s)
      | abs64 | prel64 => exact .plain hneeds (.write ..)
      | abs16 | abs32 | prel16 | prel32 => exact .plain hneeds (.writeIf ..)
      | adrPrelPgHi21 =>
        simp only [resolveAdrp]
        split
        · exact .plain hneeds (.refl s)
        · exact .plain hneeds (.writeWord ..)
      | _ => exact .plain hneeds (.writeWord ..)

theorem resolve_outcome (r : Relocation) (machine : Machine) (s : State) :
    Outcome r machine s (r.resolve machine [] s) := by
  cases machine with
  | x86 => exact .plain rfl (resolveX86_32_patches r s)
  | x86_64 => exact .plain rfl (resolveX86_64_patches r s)
  | arm => exact resolveArm_outcome r s
  | aarch64 => exact resolveAArch64_outcome r s
  | other => exact .plain rfl (.refl s)

/-! ### Safety -/

/-- Nothing lies behind the end of a section. -/
structure Mapping.Valid (m : Mapping) : Prop where
  le_stub : m.writableAddress.toNat ≤ m.stubAddress.toNat
  le_end : m.stubAddress.toNat ≤ m.writableEnd.toNat

def ElfMap.Valid (map : ElfMap) : Prop := ∀ m ∈ map.sectionMappings, m.Valid

/-- The bytes that are left for stubs. -/
def Mapping.room (m : Mapping) : Nat := m.writableEnd.toNat - m.stubAddress.toNat

/-- A relocation keeps the mappings valid, writes its stub to the space for stubs of the section, and
fails if a stub is needed for which there is no space. -/
structure StubSafe (machine : Machine) (s : State) (r : Relocation) : Prop where
  valid : (r.resolve machine [] s).2.map.Valid
  inside : ∀ start words m, r.newStub machine s = some (start, words) →
    s.map.mapping r.sectionIndex = some m → ∀ i < words.length, ∀ j < 4,
      m.stubAddress.toNat ≤ (start + UInt64.ofNat (4 * i)).toNat + j ∧
        (start + UInt64.ofNat (4 * i)).toNat + j < m.writableEnd.toNat
  fails : ∀ words m, r.stubWords machine s = some words →
    s.map.mapping r.sectionIndex = some m → m.room < 4 * words.length →
      (r.resolve machine [] s).1 = false

/-- There is space for the whole stub that a relocation needs, or for nothing at all and it is no Arm
branch that is accepted. -/
def RoomForStub (machine : Machine) (s : State) (r : Relocation) : Prop :=
  ∀ words m, r.stubWords machine s = some words → s.map.mapping r.sectionIndex = some m →
    4 * words.length ≤ m.room ∨ m.room < 4 ∧ ¬ (machine = .arm ∧ r.hasAddend s)

/-- The state after a relocation, whether it succeeds or not. -/
def resolveStep (machine : Machine) (s : State) (r : Relocation) : State :=
  (r.resolve machine [] s).2

/-- The state after some relocations. -/
def resolveAll (machine : Machine) (s : State) (relocations : List Relocation) : State :=
  relocations.foldl (resolveStep machine) s

theorem ElfMap.mem_of_mapping {map : ElfMap} {sectionIndex : UInt32}
    (h : map.mapping sectionIndex = some m) : m ∈ map.sectionMappings :=
  mem_of_find?_eq_some h

theorem Mapping.sub_toNat (hvalid : m.Valid) :
    (m.writableEnd - m.stubAddress).toNat = m.room := by
  have hle := hvalid.le_end
  rw [room, UInt64.toNat_sub]
  have hlt := m.writableEnd.toNat_lt
  omega

theorem Mapping.sub_lt_four_iff (hvalid : m.Valid) :
    m.writableEnd - m.stubAddress < 4 ↔ m.room < 4 := by
  rw [UInt64.lt_iff_toNat_lt, Mapping.sub_toNat hvalid]
  rfl

/-- Inside the space for stubs addresses do not wrap. -/
theorem Mapping.toNat_stub_add {n : Nat} (hn : n ≤ m.room) :
    (m.stubAddress + UInt64.ofNat n).toNat = m.stubAddress.toNat + n := by
  rw [room] at hn
  have hlt := m.writableEnd.toNat_lt
  have hstub := m.stubAddress.toNat_lt
  rw [UInt64.toNat_add, UInt64.toNat_ofNat']
  omega

theorem valid_addStub (hvalid : s.map.Valid) (hm : s.map.mapping r.sectionIndex = some m)
    (hroom : 4 * words.length ≤ m.room) : (s.addStub r.sectionIndex m words).map.Valid := by
  obtain ⟨front, back, heq, -, -, hafter⟩ :=
    ElfMap.sectionMappings_shrink (UInt64.ofNat (4 * words.length)) hm
  have hold : ∀ m' ∈ front ++ m :: back, m'.Valid := heq ▸ hvalid
  have hm' : m.Valid := hold m (by simp)
  intro m' hmem
  rw [State.addStub, hafter, mem_append, mem_cons] at hmem
  obtain h | rfl | h := hmem
  · exact hold m' (by simp [h])
  · have hend := Mapping.toNat_stub_add hroom
    have hle := hm'.le_stub
    have hle' := hm'.le_end
    rw [Mapping.room] at hroom
    constructor <;> simp only [hend] <;> omega
  · exact hold m' (by simp [h])

theorem newStub_eq (hwords : r.stubWords machine s = some words)
    (hm : s.map.mapping r.sectionIndex = some m) :
    r.newStub machine s =
      if m.writableEnd - m.stubAddress < 4 then none else some (m.stubAddress, words) := by
  rw [Relocation.newStub, hwords, ElfMap.stubSpace_eq hm]
  by_cases hspace : m.writableEnd - m.stubAddress < 4
  · rw [if_pos hspace, if_pos hspace]
  · rw [if_neg hspace, if_neg hspace]

theorem newStub_eq_none (hwords : r.stubWords machine s = none) : r.newStub machine s = none := by
  rw [Relocation.newStub, hwords]

theorem ElfMap.Valid.mapping (hvalid : s.map.Valid) (hm : s.map.mapping r.sectionIndex = some m) :
    m.Valid := hvalid m (ElfMap.mem_of_mapping hm)

theorem RoomForStub.safe (hroom : RoomForStub machine s r) (hvalid : s.map.Valid) :
    StubSafe machine s r := by
  have houtcome := resolve_outcome r machine s
  rcases hresolve : r.resolve machine [] s with ⟨resolved, t⟩
  rw [hresolve] at houtcome
  cases houtcome with
  | plain needs patches =>
    refine ⟨?_, ?_, ?_⟩
    · rw [hresolve, patches.map_eq]
      exact hvalid
    · intro start words m hnew
      rw [newStub_eq_none needs] at hnew
      cases hnew
    · intro words m hwords
      rw [needs] at hwords
      cases hwords
  | @full _ _ words m needs mapped space patches accepts =>
    refine ⟨?_, ?_, ?_⟩
    · rw [hresolve, patches.map_eq]
      exact hvalid
    · intro start words' m' hnew
      rw [newStub_eq needs mapped, if_pos space] at hnew
      cases hnew
    · intro words' m' hwords hm hsmall
      rw [hresolve]
      obtain hfits | ⟨-, hrefused⟩ := hroom words' m' hwords hm
      · omega
      · simpa using fun h => hrefused (accepts.mp h)
  | @stub _ _ words m needs mapped space patches =>
    have hm := hvalid.mapping mapped
    rw [Mapping.sub_lt_four_iff hm] at space
    have hfits : 4 * words.length ≤ m.room := by
      obtain hfits | ⟨hsmall, -⟩ := hroom words m needs mapped
      · exact hfits
      · exact absurd hsmall space
    refine ⟨?_, ?_, ?_⟩
    · rw [hresolve, patches.map_eq]
      exact valid_addStub hvalid mapped hfits
    · intro start words' m' hnew hm' i hi j hj
      rw [newStub_eq needs mapped, if_neg (by rwa [Mapping.sub_lt_four_iff hm])] at hnew
      cases hnew
      cases mapped.symm.trans hm'
      rw [Mapping.toNat_stub_add (by omega)]
      rw [Mapping.room] at hfits
      omega
    · intro words' m' hwords hm' hsmall
      cases needs.symm.trans hwords
      cases mapped.symm.trans hm'
      omega

theorem StubSafe.room (hsafe : StubSafe machine s r) (hvalid : s.map.Valid) :
    RoomForStub machine s r := by
  intro words m hwords hm
  have hm' := hvalid.mapping hm
  by_cases hfits : 4 * words.length ≤ m.room
  · exact .inl hfits
  have hsmall : m.room < 4 := by
    by_contra hspace
    have hnew : r.newStub machine s = some (m.stubAddress, words) := by
      rw [newStub_eq hwords hm, if_neg (by rwa [Mapping.sub_lt_four_iff hm'])]
    -- The byte at the end of the section is a byte of the stub.
    have hend := (hsafe.inside _ _ m hnew hm (m.room / 4) (by omega) (m.room % 4)
      (Nat.mod_lt _ (by decide))).2
    rw [Mapping.toNat_stub_add (Nat.mul_div_le ..), Mapping.room] at hend
    omega
  have hfails := hsafe.fails words m hwords hm (by omega)
  have houtcome := resolve_outcome r machine s
  rcases hresolve : r.resolve machine [] s with ⟨resolved, t⟩
  rw [hresolve] at houtcome hfails
  cases houtcome with
  | plain needs =>
    rw [needs] at hwords
    cases hwords
  | full needs mapped space patches accepts =>
    refine .inr ⟨hsmall, fun h => ?_⟩
    have htrue : resolved = true := accepts.mpr h
    rw [htrue] at hfails
    cases hfails
  | stub needs mapped space =>
    cases mapped.symm.trans hm
    rw [Mapping.sub_lt_four_iff hm'] at space
    exact absurd hsmall space

/-! ### How much room there is -/

theorem length_stubWords (hwords : r.stubWords machine s = some words) : words.length ≤ 5 := by
  have harm (target : UInt32) : (armStub target).length ≤ 5 := (by decide : 2 ≤ 5)
  have haarch64 (target : UInt64) : (aarch64Stub target).length ≤ 5 := (by decide : 5 ≤ 5)
  unfold Relocation.stubWords at hwords
  grind

/-- Every mapping has room for some stubs. -/
def ElfMap.HasRoom (map : ElfMap) (stubs : Nat) : Prop :=
  ∀ m ∈ map.sectionMappings, 20 * stubs ≤ m.room

theorem hasRoom_addStub (hroom : s.map.HasRoom (stubs + 1))
    (hm : s.map.mapping r.sectionIndex = some m) (hwords : words.length ≤ 5) :
    (s.addStub r.sectionIndex m words).map.HasRoom stubs := by
  obtain ⟨front, back, heq, -, -, hafter⟩ :=
    ElfMap.sectionMappings_shrink (UInt64.ofNat (4 * words.length)) hm
  have hold : ∀ m' ∈ front ++ m :: back, 20 * (stubs + 1) ≤ m'.room := heq ▸ hroom
  have hmroom := hold m (by simp)
  intro m' hmem
  rw [State.addStub, hafter, mem_append, mem_cons] at hmem
  obtain h | rfl | h := hmem
  · have := hold m' (by simp [h])
    omega
  · have hend : (m.stubAddress + UInt64.ofNat (4 * words.length)).toNat = _ :=
      Mapping.toNat_stub_add (m := m) (by omega)
    rw [Mapping.room] at hmroom
    rw [Mapping.room]
    simp only
    omega
  · have := hold m' (by simp [h])
    omega

/-- One relocation takes at most the room of one stub. -/
theorem hasRoom_resolveStep (hroom : s.map.HasRoom (stubs + 1)) :
    (resolveStep machine s r).map.HasRoom stubs := by
  have hless : s.map.HasRoom stubs := by
    intro m hm
    have := hroom m hm
    omega
  have houtcome := resolve_outcome r machine s
  rcases hresolve : r.resolve machine [] s with ⟨resolved, t⟩
  rw [hresolve] at houtcome
  rw [resolveStep, hresolve]
  cases houtcome with
  | plain _ patches | full _ _ _ patches => exact patches.map_eq ▸ hless
  | stub needs mapped space patches =>
    exact patches.map_eq ▸ hasRoom_addStub hroom mapped (length_stubWords needs)

theorem roomForStub_along (relocations : List Relocation)
    (hroom : s.map.HasRoom relocations.length) :
    Along (resolveStep machine) (RoomForStub machine) s relocations := by
  induction relocations generalizing s with
  | nil => trivial
  | cons r relocations ih =>
    refine ⟨fun words m hwords hm => .inl ?_, ih (hasRoom_resolveStep hroom)⟩
    have hm' := hroom m (ElfMap.mem_of_mapping hm)
    have hlength := length_stubWords hwords
    rw [length_cons] at hm'
    omega

/-! ### Runs -/

variable {file : ElfFile} {resolved : Bool} {kind : EntryType}

/-- The relocations of a file are a run. -/
theorem resolveEntries_steps {sectionId : UInt32} {fuel position : Nat}
    (h : resolveEntries file sec kind sectionId [] fuel position s = some (resolved, t)) :
    ∃ relocations, t = resolveAll file.machine s relocations := by
  induction fuel generalizing position s with
  | zero => cases h
  | succ fuel ih =>
    rw [resolveEntries] at h
    split at h
    · cases h
      exact ⟨[], rfl⟩
    · split at h
      · cases h
      · rename_i raw _
        let r := Relocation.fromElfEntry kind file sectionId raw
        rcases hresolve : r.resolve file.machine [] s with ⟨first, next⟩
        have hnext : resolveStep file.machine s r = next := congrArg Prod.snd hresolve
        simp only [r, hresolve] at h
        split at h
        · obtain ⟨relocations, rfl⟩ := ih h
          exact ⟨r :: relocations, by rw [← hnext]; rfl⟩
        · cases h
          exact ⟨[r], hnext.symm⟩

theorem resolveFor_steps {relSection : List UInt8}
    (h : resolveFor file sec relSection kind s = some (resolved, t)) :
    ∃ relocations, t = resolveAll file.machine s relocations := by
  rw [resolveFor] at h
  split at h
  · cases h
    exact ⟨[], rfl⟩
  · split at h
    · cases h
      exact ⟨[], rfl⟩
    · exact resolveEntries_steps h

theorem resolveSection_steps (h : resolveSection file sec s = some (resolved, t)) :
    ∃ relocations, t = resolveAll file.machine s relocations := by
  rw [resolveSection] at h
  split at h
  · cases h
    exact ⟨[], rfl⟩
  · split at h
    · exact resolveFor_steps h
    · split at h
      · exact resolveFor_steps h
      · cases h
        exact ⟨[], rfl⟩

theorem resolveSections_steps {sections : List Section}
    (h : resolveSections file sections s = some (resolved, t)) :
    ∃ relocations, t = resolveAll file.machine s relocations := by
  induction sections generalizing s with
  | nil =>
    cases h
    exact ⟨[], rfl⟩
  | cons sec sections ih =>
    rw [resolveSections] at h
    split at h
    · cases h
    · rename_i hfirst
      cases h
      exact resolveSection_steps hfirst
    · rename_i hfirst
      obtain ⟨first, rfl⟩ := resolveSection_steps hfirst
      obtain ⟨rest, rfl⟩ := ih h
      exact ⟨first ++ rest, by simp only [resolveAll, foldl_append]⟩

/-- The relocations of a file are resolved one after the other, up to the first that fails. -/
theorem resolveRelocations_steps (h : resolveRelocations file s = some (resolved, t)) :
    ∃ relocations, t = resolveAll file.machine s relocations := resolveSections_steps h

/-- In a run that starts with valid mappings every relocation is safe exactly if each one finds room
for its stub: the check asks for 4 bytes where a stub has 8 or 20, and a branch of Arm is patched
without a stub. -/
theorem stubSafe_along_iff (machine : Machine) {s : State} (hvalid : s.map.Valid)
    (relocations : List Relocation) :
    Along (resolveStep machine) (StubSafe machine) s relocations ↔
      Along (resolveStep machine) (RoomForStub machine) s relocations :=
  along_iff_along (fun s => s.map.Valid)
    (fun hs => ⟨fun h => h.room hs, fun h => h.safe hs⟩) (fun _ h => h.valid) hvalid

/-- A branch to a far symbol from a section of one instruction. -/
def callWithRoom (writableEnd : UInt64) : State where
  memory := fun a => if a = 0x10003 then 0x94 else 0
  map := {
    symbols := [⟨none, SymbolSpecialSection.absolute, 0x7f0000001000⟩]
    sectionMappings := [⟨1, 0x10000, 0x10004, writableEnd, 0x400000⟩]
    callbacks := [] }

def farCall : Relocation := ⟨0x11b, 0, 0, 0, 1⟩

theorem stubSafe_along_call :
    (callWithRoom 0x10018).map.Valid ∧
      Along (resolveStep .aarch64) (StubSafe .aarch64) (callWithRoom 0x10018) [farCall] := by
  have hvalid : (callWithRoom 0x10018).map.Valid := by
    intro m hm
    obtain rfl := mem_singleton.1 hm
    exact ⟨by decide, by decide⟩
  refine ⟨hvalid, (stubSafe_along_iff .aarch64 hvalid [farCall]).2 (roomForStub_along _ ?_)⟩
  intro m hm
  obtain rfl := mem_singleton.1 hm
  decide

/-- With room for one word left a branch succeeds, and its stub is written over the end. -/
theorem not_stubSafe_call :
    (callWithRoom 0x10008).map.Valid ∧
      (farCall.resolve .aarch64 [] (callWithRoom 0x10008)).1 = true ∧
      (farCall.resolve .aarch64 [] (callWithRoom 0x10008)).2.map.sectionMappings =
        [⟨1, 0x10000, 0x10018, 0x10008, 0x400000⟩] ∧
      ¬ Along (resolveStep .aarch64) (StubSafe .aarch64) (callWithRoom 0x10008) [farCall] := by
  have hafter : (farCall.resolve .aarch64 [] (callWithRoom 0x10008)).2.map.sectionMappings =
      [⟨1, 0x10000, 0x10018, 0x10008, 0x400000⟩] := by decide +kernel
  refine ⟨?_, by decide +kernel, hafter, fun hsafe => ?_⟩
  · intro m hm
    obtain rfl := mem_singleton.1 hm
    exact ⟨by decide, by decide⟩
  · have hvalid := hsafe.1.valid ⟨1, 0x10000, 0x10018, 0x10008, 0x400000⟩
      (by rw [hafter]; exact mem_singleton_self _)
    exact absurd hvalid.le_end (by decide)

/-- Sections that get the memory they ask for hold the stubs of 102 relocations. -/
theorem stubSafe_of_sizeToAlloc (hmachine : machine = .arm ∨ machine = .aarch64)
    (hmappings : ∀ m ∈ s.map.sectionMappings, ∃ sec : Section,
      m.stubAddress = m.writableAddress + sec.size ∧ sec.size.toNat + 2048 < 2 ^ 64 ∧
      m.writableAddress.toNat + (sec.sizeToAlloc machine).toNat ≤ m.writableEnd.toNat)
    (relocations : List Relocation) (hlength : relocations.length ≤ 102) :
    Along (resolveStep machine) (StubSafe machine) s relocations := by
  have hroom : ∀ m ∈ s.map.sectionMappings, m.Valid ∧ 2048 ≤ m.room := by
    intro m hm
    obtain ⟨sec, hstub, hfits, hend⟩ := hmappings m hm
    have halloc : sec.sizeToAlloc machine = sec.size + 2048 := by
      obtain rfl | rfl := hmachine <;> rfl
    have hlt := m.writableEnd.toNat_lt
    have hstub := congrArg UInt64.toNat hstub
    simp only [halloc, UInt64.toNat_add, UInt64.reduceToNat] at hstub hend
    unfold Mapping.room
    exact ⟨⟨by omega, by omega⟩, by omega⟩
  refine (along_iff_along (fun s => s.map.Valid)
    (fun hs => ⟨fun h => h.room hs, fun h => h.safe hs⟩) (fun _ h => h.valid)
    fun m hm => (hroom m hm).1).2 (roomForStub_along _ fun m hm => ?_)
  have := (hroom m hm).2
  omega

theorem stubSafe_of_sizeToAlloc_call :
    Along (resolveStep .aarch64) (StubSafe .aarch64) (callWithRoom 0x11000) [farCall] := by
  refine stubSafe_of_sizeToAlloc (.inr rfl) (fun m hm => ?_) _ (by decide)
  obtain rfl := mem_singleton.1 hm
  exact ⟨⟨[], 0, 0, 4, 0⟩, by decide⟩

end ConstructionKit.Loader
