import ConstructionKit.Compiler.StructBodies

/-! Where the members of structs are after `AlignModuleStructsPass`. -/

namespace ConstructionKit.AlignStructs

open ProofKit List

variable {ι : Type} (ls : Layouts ι) (map : StructMap ι)

/-! ### The property -/

/-- Where the target puts the members of a struct, in its replacement or in the struct itself. -/
def memberOffsets (replaced : Bool) (members : List (Ty ι)) : List (Option Nat) :=
  if replaced then
    let paddings := ls.paddingOf members
    let offsets := ls.target.offsets 0
      (interleave (fun padding => .array padding (.leaf ls.i8)) paddings (newTypes ls map members))
    (memberIndices 0 paddings).map fun index => offsets[index]?
  else (ls.target.offsets 0 members).map some

mutual

/-- The members of a struct, and of the structs in it, are where SPIR puts them.  `live` is whether the
type is one that the pass looks at: what is in a struct without a replacement stays as it is. -/
def Reproduced (live : Bool) : Ty ι → Prop
  | .leaf _ => True
  | .array _ element => Reproduced live element
  | .struct name members =>
    memberOffsets ls map (live && (map.lookup name).isSome) members =
        (ls.spir.offsets 0 members).map some ∧
      ReproducedAll (live && (map.lookup name).isSome) members

def ReproducedAll (live : Bool) : List (Ty ι) → Prop
  | [] => True
  | member :: members => Reproduced live member ∧ ReproducedAll live members

end

/-! ### The condition -/

/-- From the end of each member, with the padding before the next one, the target's alignment takes it to
its SPIR offset. -/
def FitsFrom (dl : DataLayout ι) : Nat → List Nat → List (Ty ι) → List Nat → Prop
  | cur, padding :: paddings, member :: members, offset :: offsets =>
    cur + padding ≤ offset ∧ offset < cur + padding + dl.alignOf member ∧
      FitsFrom dl (offset + dl.sizeOf member) paddings members offsets
  | _, _, _, _ => True

mutual

/-- The paddings of a struct, and of the structs in it, fit. -/
def Fits (live : Bool) : Ty ι → Prop
  | .leaf _ => True
  | .array _ element => Fits live element
  | .struct name members =>
    (if live && (map.lookup name).isSome then
        FitsFrom ls.target 0 (ls.paddingOf members) (newTypes ls map members) (ls.spir.offsets 0 members)
      else FitsFrom ls.target 0 (members.map fun _ => 0) members (ls.spir.offsets 0 members)) ∧
      FitsAll (live && (map.lookup name).isSome) members

def FitsAll (live : Bool) : List (Ty ι) → Prop
  | [] => True
  | member :: members => Fits live member ∧ FitsAll live members

end

/-! ### Alignments -/

variable {ls map} {dl : DataLayout ι} {members : List (Ty ι)} {offsets : List Nat} {cap : Nat}
  {live : Bool} (type : Ty ι)

theorem max_pow {a b : Nat} (ha : ∃ k, a = 2 ^ k) (hb : ∃ k, b = 2 ^ k) : ∃ k, max a b = 2 ^ k := by
  rcases Nat.le_total a b with hle | hle
  · rwa [Nat.max_eq_right hle]
  · rwa [Nat.max_eq_left hle]

theorem dvd_of_pow_le {a b : Nat} (ha : ∃ k, a = 2 ^ k) (hb : ∃ k, b = 2 ^ k) (hle : a ≤ b) : a ∣ b := by
  obtain ⟨j, rfl⟩ := ha
  obtain ⟨k, rfl⟩ := hb
  exact Nat.pow_dvd_pow 2 ((Nat.pow_le_pow_iff_right (by decide)).1 hle)

mutual

theorem DataLayout.alignOf_pow (h : ∀ l, ∃ k, dl.align l = 2 ^ k) :
    ∀ type : Ty ι, ∃ k, dl.alignOf type = 2 ^ k
  | .leaf l => h l
  | .array _ element => by
    exact alignOf_pow h element
  | .struct _ members => by
    exact maxAlign_pow h members

theorem DataLayout.maxAlign_pow (h : ∀ l, ∃ k, dl.align l = 2 ^ k) :
    ∀ members : List (Ty ι), ∃ k, dl.maxAlign members = 2 ^ k
  | [] => ⟨0, by rw [maxAlign]; rfl⟩
  | member :: members => by
    exact max_pow (alignOf_pow h member) (maxAlign_pow h members)

end

theorem Layouts.target_alignOf_pow (ls : Layouts ι) (type : Ty ι) : ∃ k, ls.target.alignOf type = 2 ^ k :=
  DataLayout.alignOf_pow ls.targetAlign_pow type

theorem Layouts.spir_alignOf_pow (ls : Layouts ι) (type : Ty ι) : ∃ k, ls.spir.alignOf type = 2 ^ k :=
  DataLayout.alignOf_pow ls.spirAlign_pow type

theorem Layouts.targetAlign_i8 (ls : Layouts ι) : ls.targetAlign ls.i8 = 1 := by
  have hle := ls.align_le ls.i8
  obtain ⟨k, hk⟩ := ls.targetAlign_pow ls.i8
  have hpos := Nat.two_pow_pos k
  rw [ls.spirAlign_i8] at hle
  omega

theorem DataLayout.one_le_maxAlign (dl : DataLayout ι) (members : List (Ty ι)) :
    1 ≤ dl.maxAlign members := by
  induction members with
  | nil => rw [maxAlign]
  | cons member members ih =>
    exact Nat.le_trans ih (Nat.le_max_right ..)

theorem DataLayout.maxAlign_le {n : Nat} (hn : 1 ≤ n)
    (h : ∀ member ∈ members, dl.alignOf member ≤ n) : dl.maxAlign members ≤ n := by
  induction members with
  | nil => rwa [maxAlign]
  | cons member members ih =>
    exact Nat.max_le.2 ⟨h member mem_cons_self, ih fun m hm => h m (mem_cons_of_mem _ hm)⟩

theorem mem_interleave {α : Type} {bytes : Nat → α} {paddings : List Nat} {members : List α} {x : α}
    (h : x ∈ interleave bytes paddings members) : (∃ padding, x = bytes padding) ∨ x ∈ members := by
  induction paddings generalizing members with
  | nil => simp [interleave] at h
  | cons padding paddings ih =>
    cases members with
    | nil => simp [interleave] at h
    | cons =>
      rw [interleave] at h
      split at h
      · rcases mem_cons.1 h with rfl | h
        · exact .inr mem_cons_self
        · exact (ih h).imp_right (mem_cons_of_mem _)
      · rcases mem_cons.1 h with rfl | h
        · exact .inl ⟨padding, rfl⟩
        · rcases mem_cons.1 h with rfl | h
          · exact .inr mem_cons_self
          · exact (ih h).imp_right (mem_cons_of_mem _)

theorem alignOf_bytes (padding : Nat) : ls.target.alignOf (.array padding (.leaf ls.i8)) = 1 := by
  exact ls.targetAlign_i8

mutual

theorem align_le : ∀ type : Ty ι, ls.target.alignOf type ≤ ls.spir.alignOf type
  | .leaf l => by
    exact ls.align_le l
  | .array _ element => by
    exact align_le element
  | .struct _ members => by
    exact DataLayout.maxAlign_le (DataLayout.one_le_maxAlign ..) (aligns_le members)

theorem aligns_le : ∀ members : List (Ty ι), ∀ member ∈ members,
    ls.target.alignOf member ≤ ls.spir.maxAlign members
  | [], _, hmem => by cases hmem
  | first :: members, member, hmem => by
    rcases mem_cons.1 hmem with hfirst | hmem
    · rw [hfirst]
      exact Nat.le_trans (align_le first) (Nat.le_max_left ..)
    · exact Nat.le_trans (aligns_le members member hmem) (Nat.le_max_right ..)

end

mutual

theorem align_newType_le : ∀ type : Ty ι, ls.target.alignOf (newType ls map type) ≤ ls.spir.alignOf type
  | .leaf l => by
    exact align_le (.leaf l)
  | .array _ element => by
    exact align_newType_le element
  | .struct name members => by
    rw [newType]
    split
    · refine DataLayout.maxAlign_le (DataLayout.one_le_maxAlign ..) fun member hmem => ?_
      rcases mem_interleave hmem with ⟨padding, rfl⟩ | hmem
      · rw [alignOf_bytes]
        exact DataLayout.one_le_maxAlign ..
      · exact aligns_newTypes_le members member hmem
    · exact align_le (.struct name members)

theorem aligns_newTypes_le : ∀ members : List (Ty ι), ∀ member ∈ newTypes ls map members,
    ls.target.alignOf member ≤ ls.spir.maxAlign members
  | [], _, hmem => by simp [newTypes] at hmem
  | first :: members, member, hmem => by
    rcases mem_cons.1 hmem with hfirst | hmem
    · rw [hfirst]
      exact Nat.le_trans (align_newType_le first) (Nat.le_max_left ..)
    · exact Nat.le_trans (aligns_newTypes_le members member hmem) (Nat.le_max_right ..)

end

theorem align_dvd : ls.target.alignOf type ∣ ls.spir.alignOf type :=
  dvd_of_pow_le (ls.target_alignOf_pow type) (ls.spir_alignOf_pow type) (align_le type)

theorem align_newType_dvd :
    ls.target.alignOf (newType ls map type) ∣ ls.spir.alignOf type :=
  dvd_of_pow_le (ls.target_alignOf_pow _) (ls.spir_alignOf_pow type) (align_newType_le type)

/-! ### Places -/

theorem Layouts.spir_offsets_dvd (ls : Layouts ι) (cur : Nat) (members : List (Ty ι)) :
    List.Forall₂ (fun member offset => ls.spir.alignOf member ∣ offset) members
      (ls.spir.offsets cur members) := by
  induction members generalizing cur with
  | nil => exact .nil
  | cons member members ih =>
    obtain ⟨k, hk⟩ := ls.spir_alignOf_pow member
    exact .cons (dvd_roundUp (hk ▸ Nat.two_pow_pos k) cur) (ih _)

/-- Where members with padding before them are. -/
def placePadded (dl : DataLayout ι) : Nat → List Nat → List (Ty ι) → List Nat
  | cur, padding :: paddings, member :: members =>
    let offset := roundUp (dl.alignOf member) (cur + padding)
    offset :: placePadded dl (offset + dl.sizeOf member) paddings members
  | _, _, _ => []

/-- The members are where they should be if the paddings fit. -/
theorem placePadded_eq_iff (dl : DataLayout ι) (cur : Nat) {paddings : List Nat}
    (hlength : paddings.length = members.length)
    (hdvd : List.Forall₂ (fun member offset => dl.alignOf member ∣ offset) members offsets)
    (hpos : ∀ member ∈ members, 0 < dl.alignOf member) :
    placePadded dl cur paddings members = offsets ↔ FitsFrom dl cur paddings members offsets := by
  induction hdvd generalizing cur paddings with
  | nil =>
    cases paddings with
    | nil => simp [placePadded, FitsFrom]
    | cons => cases hlength
  | @cons member offset members offsets hfirst hrest ih =>
    cases paddings with
    | nil => cases hlength
    | cons =>
      have hpos' := hpos member mem_cons_self
      rw [placePadded, List.cons.injEq]
      constructor
      · rintro ⟨rfl, htail⟩
        refine ⟨le_roundUp .., roundUp_lt hpos' _, ?_⟩
        exact (ih _ (Nat.succ.inj hlength) fun m hm => hpos m (mem_cons_of_mem _ hm)).1 htail
      · rintro ⟨hle, hlt, htail⟩
        obtain rfl := eq_roundUp hfirst hle hlt
        exact ⟨rfl, (ih _ (Nat.succ.inj hlength) fun m hm => hpos m (mem_cons_of_mem _ hm)).2 htail⟩

theorem placePadded_zero (dl : DataLayout ι) (cur : Nat) (members : List (Ty ι)) :
    placePadded dl cur (members.map fun _ => 0) members = dl.offsets cur members := by
  induction members generalizing cur with
  | nil => rfl
  | cons member members ih =>
    rw [map_cons, placePadded, ih]
    rfl

theorem map_memberIndices (before : List Nat) (cur : Nat) (paddings : List Nat) (members : List (Ty ι))
    (hlength : paddings.length = members.length) :
    (memberIndices before.length paddings).map (fun index => (before ++ ls.target.offsets cur
        (interleave (fun padding => .array padding (.leaf ls.i8)) paddings members))[index]?) =
      (placePadded ls.target cur paddings members).map some := by
  induction paddings generalizing before cur members with
  | nil => rfl
  | cons padding paddings ih =>
    cases members with
    | nil => cases hlength
    | cons member members =>
      have hlength := Nat.succ.inj hlength
      rw [memberIndices, interleave, placePadded]
      by_cases hzero : padding = 0
      · have hnext := ih (before ++ [roundUp (ls.target.alignOf member) cur])
          (roundUp (ls.target.alignOf member) cur + ls.target.sizeOf member) members hlength
        rw [length_append] at hnext
        simp only [hzero, if_true, Nat.add_zero, DataLayout.offsets, map_cons]
        rw [← hnext]
        simp
      · have hbytes : roundUp (ls.target.alignOf (.array padding (.leaf ls.i8))) cur = cur := by
          rw [alignOf_bytes]
          exact roundUp_of_mod_eq_zero (Nat.mod_one cur)
        have hsize : ls.target.sizeOf (.array padding (.leaf ls.i8)) = padding := by
          exact (congrArg (padding * ·) ls.size_i8).trans (Nat.mul_one padding)
        have hnext := ih (before ++ [cur, roundUp (ls.target.alignOf member) (cur + padding)])
          (roundUp (ls.target.alignOf member) (cur + padding) + ls.target.sizeOf member) members hlength
        rw [length_append] at hnext
        simp only [hzero, if_false, DataLayout.offsets, hbytes, hsize, map_cons]
        rw [← hnext]
        simp

/-! ### Structs -/

theorem length_offsets (dl : DataLayout ι) (cur : Nat) (members : List (Ty ι)) :
    (dl.offsets cur members).length = members.length := by
  induction members generalizing cur with
  | nil => rfl
  | cons member members ih => simp [DataLayout.offsets, ih]

theorem length_paddings (cumulativePadding : Nat) {aligns : List Nat}
    (h : offsets.length = aligns.length) : (paddings cumulativePadding offsets aligns).length = aligns.length := by
  induction offsets generalizing cumulativePadding aligns with
  | nil => cases aligns with
    | nil => rfl
    | cons => cases h
  | cons offset offsets ih => cases aligns with
    | nil => cases h
    | cons => simp [paddings, ih _ (Nat.succ.inj h)]

theorem length_paddingOf (members : List (Ty ι)) : (ls.paddingOf members).length = members.length := by
  rw [Layouts.paddingOf, length_paddings, length_map]
  rw [length_offsets, length_map]

theorem alignOf_pos : 0 < ls.target.alignOf type := by
  obtain ⟨k, hk⟩ := ls.target_alignOf_pow type
  exact hk ▸ Nat.two_pow_pos k

theorem memberOffsets_true (members : List (Ty ι)) :
    memberOffsets ls map true members =
      (placePadded ls.target 0 (ls.paddingOf members) (newTypes ls map members)).map some := by
  have hlength : (ls.paddingOf members).length = (newTypes ls map members).length := by
    rw [length_paddingOf, newTypes_eq_map, length_map]
  exact map_memberIndices [] 0 _ _ hlength

theorem memberOffsets_false (members : List (Ty ι)) :
    memberOffsets ls map false members =
      (placePadded ls.target 0 (members.map fun _ => 0) members).map some := by
  rw [placePadded_zero]
  rfl

theorem map_some_inj {xs ys : List Nat} : xs.map some = ys.map some ↔ xs = ys :=
  List.map_inj_right (fun _ _ => Option.some.inj)

/-- The members of a struct are where SPIR puts them if the paddings fit. -/
theorem memberOffsets_eq_iff (replaced : Bool) (members : List (Ty ι)) :
    memberOffsets ls map replaced members = (ls.spir.offsets 0 members).map some ↔
      if replaced then
        FitsFrom ls.target 0 (ls.paddingOf members) (newTypes ls map members) (ls.spir.offsets 0 members)
      else FitsFrom ls.target 0 (members.map fun _ => 0) members (ls.spir.offsets 0 members) := by
  have hspir := ls.spir_offsets_dvd 0 members
  cases replaced with
  | true =>
    rw [memberOffsets_true, map_some_inj]
    refine placePadded_eq_iff _ _ ?_ ?_ fun member _ => alignOf_pos member
    · rw [length_paddingOf, newTypes_eq_map, length_map]
    · rw [newTypes_eq_map, forall₂_map_left_iff]
      exact hspir.imp fun member offset hdvd => (align_newType_dvd member).trans hdvd
  | false =>
    rw [memberOffsets_false, map_some_inj]
    refine placePadded_eq_iff _ _ ?_ ?_ fun member _ => alignOf_pos member
    · rw [length_map]
    · exact hspir.imp fun member offset hdvd => (align_dvd member).trans hdvd

mutual

theorem reproduced_iff : ∀ (live : Bool) (type : Ty ι), Reproduced ls map live type ↔ Fits ls map live type
  | _, .leaf _ => by rw [Reproduced, Fits]
  | live, .array _ element => by
    exact reproduced_iff live element
  | live, .struct name members => by
    rw [Reproduced, Fits, memberOffsets_eq_iff]
    exact and_congr_right fun _ => reproducedAll_iff _ members

theorem reproducedAll_iff : ∀ (live : Bool) (members : List (Ty ι)),
    ReproducedAll ls map live members ↔ FitsAll ls map live members
  | _, [] => by rw [ReproducedAll, FitsAll]
  | live, member :: members => by
    exact and_congr (reproduced_iff live member) (reproducedAll_iff live members)

end

/-- A type without structs. -/
def Ty.Flat : Ty ι → Prop
  | .leaf _ => True
  | .array _ element => element.Flat
  | .struct .. => False

/-- The target has the alignments of SPIR, up to a limit. -/
def Layouts.Capped (ls : Layouts ι) (cap : Nat) : Prop := ∀ l, ls.targetAlign l = min (ls.spirAlign l) (2 ^ cap)

theorem Layouts.Capped.alignOf (h : ls.Capped cap) (type : Ty ι) (hflat : type.Flat) :
    ls.target.alignOf type = min (ls.spir.alignOf type) (2 ^ cap) := by
  induction type using Ty.Flat.induct with
  | case1 l =>
    exact h l
  | case2 count element ih =>
    exact ih hflat
  | case3 => cases hflat

theorem Ty.Flat.sizeOf (hflat : type.Flat) :
    ls.target.sizeOf type = ls.spir.sizeOf type := by
  induction type using Ty.Flat.induct with
  | case1 =>
    rfl
  | case2 count element ih =>
    rw [DataLayout.sizeOf, DataLayout.sizeOf, ih hflat]
  | case3 => cases hflat

theorem Ty.Flat.newType (hflat : type.Flat) : newType ls map type = type := by
  induction type using Ty.Flat.induct with
  | case1 => rw [AlignStructs.newType]
  | case2 count element ih => rw [AlignStructs.newType, ih hflat]
  | case3 => cases hflat

/-- The target's offset `cur` and the padding so far make up the SPIR offset; the padding is a multiple of
the limit, so that the target's own padding stays as it was. -/
theorem Layouts.Capped.fitsFrom (h : ls.Capped cap) (members : List (Ty ι))
    (hflat : ∀ member ∈ members, member.Flat) (cur cumulative : Nat) (hdvd : 2 ^ cap ∣ cumulative) :
    FitsFrom ls.target (cur + cumulative)
      (paddings cumulative (ls.target.offsets cur members) (members.map ls.spir.alignOf)) members
      (ls.spir.offsets (cur + cumulative) members) := by
  induction members generalizing cur cumulative with
  | nil => trivial
  | cons member members ih =>
    have hmember := hflat member mem_cons_self
    have halign := h.alignOf member hmember
    have htarget : 0 < ls.target.alignOf member := alignOf_pos member
    have hdvdSpir : ls.target.alignOf member ∣ ls.spir.alignOf member := align_dvd member
    obtain ⟨k, hk⟩ := ls.spir_alignOf_pow member
    have hspir : 0 < ls.spir.alignOf member := hk ▸ Nat.two_pow_pos k
    have htargetCap : ls.target.alignOf member ∣ 2 ^ cap :=
      dvd_of_pow_le (ls.target_alignOf_pow member) ⟨cap, rfl⟩ (halign ▸ Nat.min_le_right ..)
    have hplace : roundUp (ls.spir.alignOf member)
        (roundUp (ls.target.alignOf member) cur + cumulative) =
          roundUp (ls.spir.alignOf member) (cur + cumulative) := by
      rw [← roundUp_add htarget (htargetCap.trans hdvd), roundUp_roundUp hspir hdvdSpir]
    have hle := le_roundUp (ls.spir.alignOf member)
      (roundUp (ls.target.alignOf member) cur + cumulative)
    have hcur := le_roundUp (ls.target.alignOf member) cur
    have hlt := roundUp_lt htarget cur
    rw [hplace] at hle
    -- Past the limit both offsets are multiples of it; below it there is nothing to pad.
    have hcumulative : 2 ^ cap ∣ roundUp (ls.spir.alignOf member) (cur + cumulative) -
        roundUp (ls.target.alignOf member) cur := by
      rcases Nat.le_total (ls.spir.alignOf member) (2 ^ cap) with hsmall | hlarge
      · rw [Nat.min_eq_left hsmall] at halign
        rw [halign] at htargetCap ⊢
        rw [roundUp_add hspir (htargetCap.trans hdvd), Nat.add_sub_cancel_left]
        exact hdvd
      · rw [Nat.min_eq_right hlarge] at halign
        have hspirCap := dvd_of_pow_le ⟨cap, rfl⟩ (ls.spir_alignOf_pow member) hlarge
        refine Nat.dvd_sub (hspirCap.trans (dvd_roundUp hspir _)) ?_
        rw [halign]
        exact dvd_roundUp (Nat.two_pow_pos cap) cur
    have hrest := ih (fun m hm => hflat m (mem_cons_of_mem _ hm))
      (roundUp (ls.target.alignOf member) cur + ls.target.sizeOf member) _ hcumulative
    rw [DataLayout.offsets, map_cons, paddings, hplace]
    refine ⟨by omega, by omega, ?_⟩
    rw [show cumulative + (roundUp (ls.spir.alignOf member) (cur + cumulative) -
        (roundUp (ls.target.alignOf member) cur + cumulative)) =
      roundUp (ls.spir.alignOf member) (cur + cumulative) - roundUp (ls.target.alignOf member) cur by omega,
      ← Ty.Flat.sizeOf member hmember]
    rwa [show roundUp (ls.target.alignOf member) cur + ls.target.sizeOf member +
        (roundUp (ls.spir.alignOf member) (cur + cumulative) - roundUp (ls.target.alignOf member) cur) =
      roundUp (ls.spir.alignOf member) (cur + cumulative) + ls.target.sizeOf member by omega] at hrest

theorem Ty.Flat.fits (hflat : type.Flat) : Fits ls map live type := by
  induction type using Ty.Flat.induct with
  | case1 => rw [Fits]; trivial
  | case2 count element ih =>
    exact ih hflat
  | case3 => cases hflat

theorem fitsAll_of_flat (members : List (Ty ι)) (hflat : ∀ member ∈ members, member.Flat) :
    FitsAll ls map live members := by
  induction members with
  | nil => rw [FitsAll]; trivial
  | cons member members ih =>
    exact ⟨Ty.Flat.fits member (hflat member mem_cons_self),
      ih fun m hm => hflat m (mem_cons_of_mem _ hm)⟩

theorem generateNewStructType_append (ls : Layouts ι) (map : StructMap ι) (unpadded : Nat × List (Ty ι)) :
    ∃ rest, generateNewStructType ls map unpadded = map ++ rest := by
  unfold generateNewStructType
  dsimp only
  split
  · exact ⟨_, rfl⟩
  · exact ⟨[], (append_nil map).symm⟩

theorem foldl_generate_append (ls : Layouts ι) (map : StructMap ι) (structTypes : List (Nat × List (Ty ι))) :
    ∃ rest, structTypes.foldl (generateNewStructType ls) map = map ++ rest := by
  induction structTypes generalizing map with
  | nil => exact ⟨[], (append_nil map).symm⟩
  | cons unpadded structTypes ih =>
    obtain ⟨first, hfirst⟩ := generateNewStructType_append ls map unpadded
    obtain ⟨rest, hrest⟩ := ih (map ++ first)
    rw [foldl_cons, hfirst, hrest, append_assoc]
    exact ⟨_, rfl⟩

/-- A struct without a replacement needs no padding. -/
theorem paddingOf_of_lookup_eq_none {structTypes : List (Nat × List (Ty ι))} {type : Nat × List (Ty ι)}
    (hmem : type ∈ structTypes) (hlookup : (structMap ls structTypes).lookup type.1 = none) :
    ls.paddingOf type.2 = type.2.map fun _ => 0 := by
  obtain ⟨before, after, rfl⟩ := append_of_mem hmem
  rw [structMap, foldl_append, foldl_cons] at hlookup
  obtain ⟨rest, hrest⟩ := foldl_generate_append ls
    (generateNewStructType ls (before.foldl (generateNewStructType ls) []) type) after
  rw [hrest, lookup_eq_none_iff] at hlookup
  unfold generateNewStructType at hlookup
  dsimp only at hlookup
  split at hlookup
  · exact absurd (hlookup _ (mem_append_left _ (mem_append_right _ mem_cons_self))) (by simp)
  · next hchanged =>
    rw [Bool.or_eq_true, not_or] at hchanged
    have hzero : ∀ padding ∈ ls.paddingOf type.2, padding = 0 := by
      intro padding hpadding
      by_contra hne
      exact hchanged.1 (any_eq_true.2 ⟨padding, hpadding, by simpa using hne⟩)
    rw [eq_replicate_of_mem hzero, length_paddingOf, map_const']

/-- On a target with the alignments of SPIR up to a limit, structs without structs in them are laid out
as SPIR does. -/
theorem flat_reproduced (ls : Layouts ι) (hcap : ls.Capped cap)
    (structTypes : List (Nat × List (Ty ι)))
    (hflat : ∀ type ∈ structTypes, ∀ member ∈ type.2, member.Flat) :
    ∀ type ∈ structTypes, Reproduced ls (structMap ls structTypes) true (.struct type.1 type.2) := by
  intro type hmem
  have hfits := hcap.fitsFrom type.2 (hflat type hmem) 0 0 (Nat.dvd_zero _)
  rw [reproduced_iff]
  refine ⟨?_, fitsAll_of_flat _ (hflat type hmem)⟩
  cases hlookup : (structMap ls structTypes).lookup type.1 with
  | none =>
    rw [← paddingOf_of_lookup_eq_none hmem hlookup]
    exact hfits
  | some =>
    rw [newTypes_eq_map,
      map_congr_left fun member h => Ty.Flat.newType member (hflat type hmem member h), map_id']
    exact hfits

/-! ### Structs that are laid out otherwise -/

inductive Scalar where
  | i8 | i32 | i64
deriving DecidableEq, Repr

def Scalar.size : Scalar → Nat
  | .i8 => 1
  | .i32 => 4
  | .i64 => 8

/-- A target that aligns 32-bit and 64-bit integers in its own way. -/
def integerTarget (i32 i64 : Nat) (h32 : i32 ≤ 2) (h64 : i64 ≤ 3) : Layouts Scalar where
  i8 := .i8
  size := Scalar.size
  targetAlign
    | .i8 => 1
    | .i32 => 2 ^ i32
    | .i64 => 2 ^ i64
  spirAlign := Scalar.size
  size_i8 := rfl
  spirAlign_i8 := rfl
  targetAlign_pow
    | .i8 => ⟨0, rfl⟩
    | .i32 => ⟨i32, rfl⟩
    | .i64 => ⟨i64, rfl⟩
  spirAlign_pow
    | .i8 => ⟨0, rfl⟩
    | .i32 => ⟨2, rfl⟩
    | .i64 => ⟨3, rfl⟩
  align_le
    | .i8 => Nat.le_refl 1
    | .i32 => Nat.pow_le_pow_right (n := 2) (by decide) h32
    | .i64 => Nat.pow_le_pow_right (n := 2) (by decide) h64

theorem flat_reproduced_integers :
    let ls := integerTarget 2 2 (by decide) (by decide)
    let body : List (Ty Scalar) := [.leaf .i32, .leaf .i64, .leaf .i8]
    Reproduced ls (structMap ls [(0, body)]) true (.struct 0 body) :=
  flat_reproduced _ (show Layouts.Capped _ 2 by rintro (_ | _ | _) <;> rfl) [(0, _)]
    (by simp [Ty.Flat]) _ mem_cons_self

end ConstructionKit.AlignStructs
