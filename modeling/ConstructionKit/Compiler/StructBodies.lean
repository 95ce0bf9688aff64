import ConstructionKit.Compiler.AlignStructs

/-! The bodies of the new structs of `AlignModuleStructsPass`: with the references in them followed, they
are those of `newType`. -/

namespace ConstructionKit.AlignStructs

open List

variable {ι : Type} {ls : Layouts ι} {map map' : StructMap ι} {members : Nat → List (Ty ι)}
  {structTypes : List (Nat × List (Ty ι))} {details : Details ι} {name : Nat} (type : Ty ι)

/-! ### The map -/

/-- The details of a struct are computed with the map as it is then. -/
theorem mem_foldl_generate
    (h : (name, details) ∈ structTypes.foldl (generateNewStructType ls) map) :
    (name, details) ∈ map ∨
      ∃ map' body, (name, body) ∈ structTypes ∧ details = ls.details map' body := by
  induction structTypes generalizing map with
  | nil => exact .inl h
  | cons unpadded structTypes ih =>
    rcases ih h with hmem | ⟨map', body, hbody, hdetails⟩
    · unfold generateNewStructType at hmem
      dsimp only at hmem
      split at hmem
      · rcases mem_append.1 hmem with hmem | hmem
        · exact .inl hmem
        · cases mem_singleton.1 hmem
          exact .inr ⟨map, unpadded.2, mem_cons_self, rfl⟩
      · exact .inl hmem
    · exact .inr ⟨map', body, mem_cons_of_mem _ hbody, hdetails⟩

/-! ### References -/

theorem newTypes_eq_map (members : List (Ty ι)) : newTypes ls map members = members.map (newType ls map) := by
  induction members with
  | nil => rw [newTypes, map_nil]
  | cons member members ih => rw [newTypes, ih, map_cons]

mutual

/-- Every struct in a type has the members that the module gives to its name. -/
def Consistent (members : Nat → List (Ty ι)) : Ty ι → Prop
  | .leaf _ => True
  | .array _ element => Consistent members element
  | .struct name body => body = members name ∧ ConsistentAll members body

def ConsistentAll (members : Nat → List (Ty ι)) : List (Ty ι) → Prop
  | [] => True
  | type :: types => Consistent members type ∧ ConsistentAll members types

end

/-- The type that an element refers to. -/
def Element.follow (ls : Layouts ι) (map : StructMap ι) (members : Nat → List (Ty ι)) : Element ι → Ty ι
  | .old type => type
  | .new counts name => counts.foldr .array (newType ls map (.struct name (members name)))

theorem newType_of_getNewType_eq_none : ∀ type : Ty ι, getNewType map type = none → newType ls map type = type
  | .leaf l, _ => by rw [newType]
  | .array count element, h => by
    rw [getNewType, Option.map_eq_none_iff] at h
    rw [newType, newType_of_getNewType_eq_none element h]
  | .struct name body, h => by
    rw [getNewType] at h
    split at h
    · cases h
    · next hlookup => rw [newType, if_neg hlookup]

theorem newType_of_getNewType_eq_some : ∀ (type : Ty ι) {counts : List Nat} {name : Nat},
    Consistent members type → getNewType map type = some (counts, name) →
      newType ls map' type = counts.foldr .array (newType ls map' (.struct name (members name)))
  | .leaf l, _, _, _, h => by
    cases h
  | .array count element, _, _, hconsistent, h => by
    rw [getNewType, Option.map_eq_some_iff] at h
    obtain ⟨⟨counts, name⟩, hnew, heq⟩ := h
    cases heq
    rw [newType, newType_of_getNewType_eq_some element hconsistent hnew, foldr_cons]
  | .struct name body, _, _, hconsistent, h => by
    rw [getNewType] at h
    split at h
    · cases h
      rw [← hconsistent.1]
      rfl
    · cases h

theorem updateMember_follow (hconsistent : Consistent members type) :
    (updateMember map type).follow ls map members = newType ls map type := by
  unfold updateMember
  split
  · next new hnew => exact (newType_of_getNewType_eq_some type hconsistent hnew).symm
  · next hnone =>
    rw [newType_of_getNewType_eq_none type hnone]
    rfl

/-- A member that had a new type when its struct was padded, or has one at the end. -/
theorem fixupElement_follow (hconsistent : Consistent members type) :
    (fixupElement map' (updateMember map type)).follow ls map' members = newType ls map' type := by
  unfold updateMember
  split
  · next new hnew => exact (newType_of_getNewType_eq_some type hconsistent hnew).symm
  · exact updateMember_follow type hconsistent

theorem interleave_map {α β : Type} (f : α → β) (bytes : Nat → α) (paddings : List Nat) (xs : List α) :
    (interleave bytes paddings xs).map f = interleave (fun padding => f (bytes padding)) paddings (xs.map f) := by
  induction paddings generalizing xs with
  | nil => simp [interleave]
  | cons padding paddings ih =>
    cases xs with
    | nil => simp [interleave]
    | cons =>
      rw [map_cons, interleave, interleave]
      split
      · rw [map_cons, ih]
      · rw [map_cons, map_cons, ih]

theorem ConsistentAll.mem {types : List (Ty ι)} (h : ConsistentAll members types) {type : Ty ι}
    (hmem : type ∈ types) : Consistent members type := by
  induction types with
  | nil => cases hmem
  | cons first types ih =>
    rcases mem_cons.1 hmem with rfl | hmem
    · exact h.1
    · exact ih h.2 hmem

/-- The body of a new struct at the end of the pass is that of `newType`, and `memberIndexMap` says where
the members are in it. -/
theorem body_follow (hconsistent : ∀ type ∈ structTypes, Consistent members (.struct type.1 type.2))
    (h : (name, details) ∈ structMap ls structTypes) :
    details.memberIndexMap = memberIndices 0 (ls.paddingOf (members name)) ∧
      (fixupStructReferences (structMap ls structTypes) details.bodyElements).map
          (Element.follow ls (structMap ls structTypes) members) =
        interleave (fun padding => .array padding (.leaf ls.i8)) (ls.paddingOf (members name))
          (newTypes ls (structMap ls structTypes) (members name)) := by
  rcases mem_foldl_generate h with hmem | ⟨map, body, hbody, rfl⟩
  · cases hmem
  · have hstruct : Consistent members (.struct name body) := hconsistent _ hbody
    obtain ⟨rfl, hall⟩ := hstruct
    refine ⟨rfl, ?_⟩
    rw [fixupStructReferences, Layouts.details, interleave_map, interleave_map, map_map, map_map,
      newTypes_eq_map, map_congr_left fun type hmem => ?_]
    · rfl
    · exact fixupElement_follow type (hall.mem hmem)

end ConstructionKit.AlignStructs
