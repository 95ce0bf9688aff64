import ConstructionKit.Mangling.Mangle

/-! `NameMangler::demangleName`.  The lexer is the text that is left, which is shorter than `2^32`
characters, so that `unsigned` positions do not wrap. -/

namespace ConstructionKit.Mangling

/-! ### The lexer -/

/-- `Consume(Pattern)`: the text behind the pattern, if it starts with it. -/
def consume (pattern : String) (text : List Char) : Option (List Char) :=
  pattern.toList.isPrefixOf? text

/-- `ConsumeInteger`: the leading digits as an `unsigned`. -/
def consumeInteger (text : List Char) : Option (Nat × List Char) :=
  let numText := text.takeWhile Char.isDigit
  if numText = [] then none
  else
    let result := Nat.ofDigitChars 10 numText 0
    if result < 2 ^ 32 then some (result, text.dropWhile Char.isDigit) else none

/-! ### Types -/

/-- The type in `ctx` for which a substitution stands: builtin types are not counted. -/
def resolveSubstitution : Nat → List QualTy → Option QualTy
  | _, [] => none
  | subID, ty :: ctx =>
    if isTypeBuiltin ty.1 then resolveSubstitution subID ctx
    else match subID with
      | 0 => some ty
      | subID + 1 => resolveSubstitution subID ctx

def demangleSimpleType : List Char → Option (Ty × TypeQualifier × List Char)
  | 'v' :: text => some (.void, .none, text)
  | 'D' :: 'h' :: text => some (.half, .none, text)
  | 'f' :: text => some (.float, .none, text)
  | 'd' :: text => some (.double, .none, text)
  | 'b' :: text => some (.integer 1, .none, text)
  | 'c' :: text => some (.integer 8, .signedInt, text)
  | 'h' :: text => some (.integer 8, .none, text)
  | 's' :: text => some (.integer 16, .signedInt, text)
  | 't' :: text => some (.integer 16, .none, text)
  | 'i' :: text => some (.integer 32, .signedInt, text)
  | 'j' :: text => some (.integer 32, .none, text)
  | 'l' :: text => some (.integer 64, .signedInt, text)
  | 'm' :: text => some (.integer 64, .none, text)
  | _ => none

/-- The names that `demangleOpenCLBuiltinType` tries, in its order, with LLVM 17 or later. -/
def builtinTypes : List (String × Ty) :=
  [("12memory_scope", .integer 32), ("12memory_order", .integer 32),
    ("11ocl_image1d", .image .dim1D false false false),
    ("16ocl_image1darray", .image .dim1D false true false),
    ("17ocl_image1dbuffer", .image .buffer false false false),
    ("11ocl_image2d", .image .dim2D false false false),
    ("16ocl_image2darray", .image .dim2D false true false),
    ("16ocl_image2ddepth", .image .dim2D true false false),
    ("21ocl_image2darraydepth", .image .dim2D false true false),
    ("15ocl_image2dmsaa", .image .dim2D false false true),
    ("20ocl_image2darraymsaa", .image .dim2D false true true),
    ("20ocl_image2dmsaadepth", .image .dim2D true false true),
    ("35ocl_image2darraymsaadepth", .image .dim2D true true true),
    ("11ocl_image3d", .image .dim3D false false false),
    ("11ocl_sampler", .sampler), ("9ocl_event", .event),
    ("12ocl_clkevent", .struct "opencl.clk_event_t"), ("9ocl_queue", .struct "opencl.queue_t"),
    ("11ocl_ndrange", .struct "opencl.ndrange_t"),
    ("13ocl_reserveid", .struct "opencl.reserve_id_t")]

def demangleOpenCLBuiltinType (text : List Char) : Option (Ty × List Char) :=
  builtinTypes.findSome? fun (name, ty) => (consume name text).map fun rest => (ty, rest)

/-- `U3AS` and the number behind it; the address space 0 if there is no `U3AS`. -/
def demangleAddressSpace (text : List Char) : Option (Option Nat × List Char) :=
  match consume "U3AS" text with
  | none => some (none, text)
  | some text => (consumeInteger text).map fun (addressSpace, rest) => (some addressSpace, rest)

def demanglePointerQuals (text : List Char) : Option (Nat × TypeQualifier × List Char) :=
  if text = [] then none
  else do
    let (addressSpace, text) ← demangleAddressSpace text
    let (qual, text) := match text with
      | 'K' :: text => (TypeQualifier.pointerConst, text)
      | 'r' :: text => (TypeQualifier.pointerRestrict, text)
      | 'V' :: text => (TypeQualifier.pointerVolatile, text)
      | text => (TypeQualifier.none, text)
    match addressSpace with
    | some addressSpace => return (addressSpace, qual, text)
    | none =>
      let (addressSpace, text) ← demangleAddressSpace text
      return (addressSpace.getD 0, qual, text)

/-- The type at the front of the text, with its qualifiers behind `quals`; `none` is `false`.  An
element type is shorter than the vector or pointer around it, so the length of the text is enough
fuel. -/
def demangleType (ctx : List QualTy) :
    Nat → List Char → TypeQualifiers → Option (QualTy × List Char)
  | 0, _, _ => none
  | fuel + 1, text, quals =>
    if text = [] then none
    else if let some text := consume "Dv" text then do
      let quals := quals.pushBack .none
      let (numElements, text) ← consumeInteger text
      let text ← consume "_" text
      let ((element, quals), text) ← demangleType ctx fuel text quals
      return ((.fixedVector element (UInt32.ofNat numElements), quals), text)
    else if let some text := consume "u3ptr" text then do
      let (_, qual, text) ← demanglePointerQuals text
      -- the pointer type is converted to the `bool` that is returned, and `Ty` stays null
      return ((.null, quals.pushBack qual), text)
    else if let some text := consume "u" text then do
      let (typeNameLength, text) ← consumeInteger text
      let text ← consume "nxv" text
      if typeNameLength > text.length then none
      else
        let quals := quals.pushBack .none
        let (minElements, text) ← consumeInteger text
        let ((element, quals), text) ← demangleType ctx fuel text quals
        return ((.scalableVector element (UInt32.ofNat minElements), quals), text)
    else if let some text := consume "P" text then do
      let (addressSpace, qual, text) ← demanglePointerQuals text
      let ((_, quals), text) ← demangleType ctx fuel text (quals.pushBack qual)
      return ((.pointer (UInt32.ofNat addressSpace), quals), text)
    else if let some (ty, qual, text) := demangleSimpleType text then
      some ((ty, quals.pushBack qual), text)
    else if let some text := consume "S" text then do
      let (subID, text) := match consumeInteger text with
        | some (subID, text) => (subID + 1, text)
        | none => (0, text)
      let text ← consume "_" text
      let entry ← resolveSubstitution subID ctx
      return ((entry.1, quals.pushBackAll entry.2), text)
    else (demangleOpenCLBuiltinType text).map fun (ty, text) => ((ty, quals), text)

/-! ### Names -/

/-- The name part; `none` is an empty `StringRef`. -/
def demangleNamePart (text : List Char) : Option (List Char × List Char) := do
  let text ← consume "_Z" text
  let (nameLength, text) ← consumeInteger text
  if nameLength > text.length then none
  else if nameLength = 0 then none
  else return (text.take nameLength, text.drop nameLength)

/-- `while (L.Left() > 0)`: the types read, and whether all of the text was. -/
def demangleArgs : Nat → List Char → List QualTy → Bool × List QualTy
  | 0, _, args => (false, args)
  | fuel + 1, text, args =>
    if text = [] then (true, args)
    else match demangleType args text.length text [] with
      | none => (false, args)
      | some (arg, text) => demangleArgs fuel text (args ++ [arg])

/-- The name, empty on failure, and the types with their qualifiers. -/
def demangleName (text : List Char) : List Char × List QualTy :=
  match demangleNamePart text with
  | none => ([], [])
  | some (name, text) =>
    match demangleArgs (text.length + 1) text [] with
    | (true, args) => (name, args)
    | (false, args) => ([], args)

end ConstructionKit.Mangling
