import Mathlib.Algebra.Group.Nat.Defs

/-! `NameMangler::mangleName` (`modules/compiler/utils/source/mangling.cpp`).  A text is the list of
its characters, and a type is given together with its qualifiers, which say what the LLVM type does
not: whether an integer is signed, and how a pointer is qualified. -/

namespace ConstructionKit.Mangling

/-- The dimensions of a `spirv.Image` that have a mangled name. -/
inductive ImageDim where
  | dim1D | dim2D | dim3D | buffer
deriving DecidableEq, Repr

/-- The LLVM types that the mangler or the demangler handles. -/
inductive Ty where
  /-- A null `Type *`. -/
  | null
  | void | half | float | double
  | integer (width : Nat)
  | fixedVector (element : Ty) (numElements : UInt32)
  | scalableVector (element : Ty) (minElements : UInt32)
  | pointer (addressSpace : UInt32)
  /-- The target extension types `spirv.Event`, `spirv.Sampler` and `spirv.Image`. -/
  | event | sampler
  | image (dim : ImageDim) (depth arrayed multiSampled : Bool)
  /-- A named opaque struct. -/
  | struct (name : String)
deriving DecidableEq, Repr

/-! ### Qualifiers -/

/-- The bits of a `TypeQualifier`. -/
abbrev TypeQualifier := BitVec 10

namespace TypeQualifier

def none : TypeQualifier := 0
def signedInt : TypeQualifier := 1
def pointerConst : TypeQualifier := 2
def pointerVolatile : TypeQualifier := 4
def pointerRestrict : TypeQualifier := 8

/-- `Qual & flag`, as a condition. -/
def has (qual flag : TypeQualifier) : Bool := qual &&& flag != 0

end TypeQualifier

/-- The list that a `TypeQualifiers` packs into 64 bits: at most 6 fields of 10 bits. -/
abbrev TypeQualifiers := List TypeQualifier

namespace TypeQualifiers

def maxSize : Nat := 6

/-- The qualifier at the front, and the list without it. -/
def popFront : TypeQualifiers → TypeQualifier × TypeQualifiers
  | [] => (.none, [])
  | qual :: quals => (qual, quals)

/-- A full list is left as it is. -/
def pushBack (quals : TypeQualifiers) (qual : TypeQualifier) : TypeQualifiers :=
  if quals.length = maxSize then quals else quals ++ [qual]

def pushBackAll (quals others : TypeQualifiers) : TypeQualifiers := others.foldl pushBack quals

end TypeQualifiers

/-- A type with its qualifiers. -/
abbrev QualTy := Ty × TypeQualifiers

/-! ### The mangler -/

/-- The characters of an unsigned integer in decimal. -/
def decimal (n : Nat) : List Char := Nat.toDigits 10 n

def isTypeBuiltin : Ty → Bool
  | .void | .half | .float | .double | .integer _ => true
  | _ => false

/-- The loop of `emitSubstitution` over the previous types: the number of the first match among
those that are not builtin. -/
def findSubstitution (arg : QualTy) : Int → List QualTy → Option Int
  | _, [] => none
  | substitutionID, prev :: prevs =>
    if isTypeBuiltin prev.1 then findSubstitution arg substitutionID prevs
    else if prev = arg then some (substitutionID + 1)
    else findSubstitution arg (substitutionID + 1) prevs

def emitSubstitution (arg : QualTy) (prevs : List QualTy) : Option (List Char) :=
  if isTypeBuiltin arg.1 then none
  else match findSubstitution arg (-1) prevs with
    | none => none
    | some id => some ('S' :: (if id > 0 then decimal id.toNat else []) ++ ['_'])

def mangleSimpleType (ty : Ty) (qual : TypeQualifier) : Option (List Char) :=
  let isSigned := qual.has .signedInt
  match ty with
  | .void => some ['v']
  | .half => some ['D', 'h']
  | .float => some ['f']
  | .double => some ['d']
  | .integer 1 => some ['b']
  | .integer 8 => some (if isSigned then ['c'] else ['h'])
  | .integer 16 => some (if isSigned then ['s'] else ['t'])
  | .integer 32 => some (if isSigned then ['i'] else ['j'])
  | .integer 64 => some (if isSigned then ['l'] else ['m'])
  | _ => none

def manglePointerQuals (qual : TypeQualifier) (addressSpace : UInt32) : List Char :=
  (if qual.has .pointerRestrict then ['r'] else []) ++
  (if qual.has .pointerVolatile then ['V'] else []) ++
  (if qual.has .pointerConst then ['K'] else []) ++
  (if addressSpace > 0 then "U3AS".toList ++ decimal addressSpace.toNat else [])

def ImageDim.suffix : ImageDim → String
  | dim1D => "1d"
  | dim2D => "2d"
  | dim3D => "3d"
  | buffer => "1dbuffer"

def mangleBuiltinType : Ty → Option (List Char)
  | .event => some "9ocl_event".toList
  | .sampler => some "11ocl_sampler".toList
  | .image dim depth arrayed multiSampled =>
    let name := ("ocl_image" ++ dim.suffix ++ (if arrayed then "array" else "") ++
      (if multiSampled then "msaa" else "") ++ (if depth then "depth" else "")).toList
    some (decimal name.length ++ name)
  | _ => none

def mangleType (prevs : List QualTy) : Ty → TypeQualifiers → Option (List Char)
  | ty, quals =>
    match emitSubstitution (ty, quals) prevs with
    | some text => some text
    | none =>
      let (qual, rest) := quals.popFront
      match mangleSimpleType ty qual with
      | some text => some text
      | none =>
        match ty with
        | .scalableVector element minElements => do
          let text ← mangleType prevs element rest
          let text := "nxv".toList ++ decimal minElements.toNat ++ text
          return 'u' :: decimal text.length ++ text
        | .fixedVector element numElements => do
          let text ← mangleType prevs element rest
          return "Dv".toList ++ decimal numElements.toNat ++ '_' :: text
        | .pointer addressSpace => some ("u3ptr".toList ++ manglePointerQuals qual addressSpace)
        | ty => mangleBuiltinType ty

/-- The loop of `mangleName` over the arguments, with those before them. -/
def mangleArgs : List QualTy → List QualTy → Option (List Char)
  | _, [] => some []
  | prevs, arg :: args => do
    let text ← mangleType prevs arg.1 arg.2
    let texts ← mangleArgs (prevs ++ [arg]) args
    return text ++ texts

/-- The mangled name, which is empty when a type cannot be mangled. -/
def mangleName (name : List Char) (args : List QualTy) : List Char :=
  match mangleArgs [] args with
  | some texts => "_Z".toList ++ decimal name.length ++ name ++ texts
  | none => []

end ConstructionKit.Mangling
