import ConstructionKit.ProofKit.Alignment

/-! `AlignModuleStructsPass` (`compiler/utils/source/align_module_structs_pass.cpp`): the struct types of
a module get padding so that the target lays them out as SPIR does. -/

namespace ConstructionKit.AlignStructs

open ProofKit

variable {ι : Type}

/-! ### Data layouts -/

/-- Types: scalars and vectors, arrays, and identified structs that are not packed. -/
inductive Ty (ι : Type) where
  | leaf (l : ι)
  | array (count : Nat) (element : Ty ι)
  | struct (name : Nat) (members : List (Ty ι))

/-- `DataLayout`: the ABI alignments and the allocation sizes of scalars and vectors. -/
structure DataLayout (ι : Type) where
  align : ι → Nat
  size : ι → Nat

namespace DataLayout

mutual

/-- `getABITypeAlign` -/
def alignOf (dl : DataLayout ι) : Ty ι → Nat
  | .leaf l => dl.align l
  | .array _ element => dl.alignOf element
  | .struct _ members => dl.maxAlign members

def maxAlign (dl : DataLayout ι) : List (Ty ι) → Nat
  | [] => 1
  | member :: members => max (dl.alignOf member) (dl.maxAlign members)

end

mutual

/-- `getTypeAllocSize` -/
def sizeOf (dl : DataLayout ι) : Ty ι → Nat
  | .leaf l => dl.size l
  | .array count element => count * dl.sizeOf element
  | .struct _ members => roundUp (dl.maxAlign members) (dl.endOf 0 members)

/-- Where members end that follow `cur`. -/
def endOf (dl : DataLayout ι) (cur : Nat) : List (Ty ι) → Nat
  | [] => cur
  | member :: members => dl.endOf (roundUp (dl.alignOf member) cur + dl.sizeOf member) members

end

/-- `getElementOffset` of all members that follow `cur`. -/
def offsets (dl : DataLayout ι) (cur : Nat) : List (Ty ι) → List Nat
  | [] => []
  | member :: members =>
    let offset := roundUp (dl.alignOf member) cur
    offset :: dl.offsets (offset + dl.sizeOf member) members

end DataLayout

/-- The layout of the target and that of SPIR.  The alignments of the target are not above those of
SPIR, and the sizes are the same. -/
structure Layouts (ι : Type) where
  i8 : ι
  size : ι → Nat
  targetAlign : ι → Nat
  spirAlign : ι → Nat
  size_i8 : size i8 = 1
  spirAlign_i8 : spirAlign i8 = 1
  targetAlign_pow : ∀ l, ∃ k, targetAlign l = 2 ^ k
  spirAlign_pow : ∀ l, ∃ k, spirAlign l = 2 ^ k
  align_le : ∀ l, targetAlign l ≤ spirAlign l

variable (ls : Layouts ι)

def Layouts.target : DataLayout ι := ⟨ls.targetAlign, ls.size⟩

def Layouts.spir : DataLayout ι := ⟨ls.spirAlign, ls.size⟩

/-! ### The pass -/

/-- A type in the body of a new struct: one of the module, or arrays of a new struct. -/
inductive Element (ι : Type) where
  | old (type : Ty ι)
  | new (counts : List Nat) (name : Nat)

/-- `ReplacementStructDetails`; the new struct type is known by the name of the old one. -/
structure Details (ι : Type) where
  memberIndexMap : List Nat
  bodyElements : List (Element ι)

/-- `StructReplacementMap` -/
abbrev StructMap (ι : Type) := List (Nat × Details ι)

/-- `getNewType`; it finds nothing for a type that is new. -/
def getNewType (map : StructMap ι) : Ty ι → Option (List Nat × Nat)
  | .leaf _ => none
  | .array count element => (getNewType map element).map fun new => (count :: new.1, new.2)
  | .struct name _ => if (map.lookup name).isSome then some ([], name) else none

/-- The padding before each member, with `cumulativePadding`: `offsets` are those in the unpadded struct
and `aligns` the alignments of SPIR. -/
def paddings : Nat → List Nat → List Nat → List Nat
  | cumulativePadding, offset :: offsets, align :: aligns =>
    let padding := roundUp align (offset + cumulativePadding) - (offset + cumulativePadding)
    padding :: paddings (cumulativePadding + padding) offsets aligns
  | _, _, _ => []

/-- The padding of the members of a struct. -/
def Layouts.paddingOf (members : List (Ty ι)) : List Nat :=
  paddings 0 (ls.target.offsets 0 members) (members.map ls.spir.alignOf)

/-- `indexMap`, from an index on. -/
def memberIndices : Nat → List Nat → List Nat
  | _, [] => []
  | index, padding :: paddings =>
    let index := if padding = 0 then index else index + 1
    index :: memberIndices (index + 1) paddings

/-- `structElementTypes`: byte arrays for padding that is not zero, and the members. -/
def interleave {α : Type} (bytes : Nat → α) : List Nat → List α → List α
  | padding :: paddings, member :: members =>
    if padding = 0 then member :: interleave bytes paddings members
    else bytes padding :: member :: interleave bytes paddings members
  | _, _ => []

/-- A member in a body: its new type if there is one. -/
def updateMember (map : StructMap ι) (member : Ty ι) : Element ι :=
  match getNewType map member with
  | some new => .new new.1 new.2
  | none => .old member

/-- What `generateNewStructType` computes for a struct. -/
def Layouts.details (map : StructMap ι) (members : List (Ty ι)) : Details ι where
  memberIndexMap := memberIndices 0 (ls.paddingOf members)
  bodyElements := interleave (fun padding => .old (.array padding (.leaf ls.i8)))
    (ls.paddingOf members) (members.map (updateMember map))

/-- `generateNewStructType`; nothing is inserted if nothing changes. -/
def generateNewStructType (map : StructMap ι) (unpadded : Nat × List (Ty ι)) : StructMap ι :=
  let changed := (ls.paddingOf unpadded.2).any (· ≠ 0) ||
    unpadded.2.any fun member => (getNewType map member).isSome
  if changed then map ++ [(unpadded.1, ls.details map unpadded.2)] else map

/-- The loop of `run` over the struct types, in the order in which the module lists them. -/
def structMap (structTypes : List (Nat × List (Ty ι))) : StructMap ι :=
  structTypes.foldl (generateNewStructType ls) []

/-- The new type of an element in `fixupStructReferences`, if it has one. -/
def fixupElement (map : StructMap ι) : Element ι → Element ι
  | .old type => updateMember map type
  | .new counts name => .new counts name

/-- `fixupStructReferences` of a body. -/
def fixupStructReferences (map : StructMap ι) (bodyElements : List (Element ι)) : List (Element ι) :=
  bodyElements.map (fixupElement map)

/-! ### The types after the pass -/

mutual

/-- The type that the module has instead of one: a struct with a replacement has padding and the new
types of its members; all else is as before. -/
def newType (ls : Layouts ι) (map : StructMap ι) : Ty ι → Ty ι
  | .leaf l => .leaf l
  | .array count element => .array count (newType ls map element)
  | .struct name members =>
    if (map.lookup name).isSome then
      .struct name (interleave (fun padding => .array padding (.leaf ls.i8)) (ls.paddingOf members)
        (newTypes ls map members))
    else .struct name members

def newTypes (ls : Layouts ι) (map : StructMap ι) : List (Ty ι) → List (Ty ι)
  | [] => []
  | member :: members => newType ls map member :: newTypes ls map members

end

end ConstructionKit.AlignStructs
