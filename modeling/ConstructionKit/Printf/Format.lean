import ConstructionKit.Printf.Record

/-! The format strings of printf: `scalarizeAndCheckFormatString`, which checks a format and expands
the conversions of vectors, the loop of `rewritePrintfCall` over the arguments, and
`FindNextSpecifier`, by which the host cuts the format into pieces.  Strings are lists of characters;
the C string of a `std::string` ends at its first NUL. -/

namespace ConstructionKit.Printf

/-! ### Formats -/

/-- A conversion as it is put into the new format. -/
structure Specifier where
  flags : List Char
  width : List Char
  precision : Option (List Char)
  length : List Char
  conversion : Char
deriving DecidableEq, Repr

/-- The characters of a conversion between its `%` and the conversion specifier. -/
def Specifier.body (s : Specifier) : List Char :=
  s.flags ++ s.width ++ (s.precision.elim [] fun digits => '.' :: digits) ++ s.length

def Specifier.text (s : Specifier) : List Char := '%' :: (s.body ++ [s.conversion])

/-- What one round of the loop over the format reads. -/
inductive Item where
  | literal (c : Char)
  | percent
  | conversion (specifier : Specifier) (vectorLength : Nat)
deriving DecidableEq, Repr

/-- The conversion of each element of a vector, with commas between them. -/
def vectorText (text : List Char) : Nat → List Char
  | 0 => []
  | 1 => text
  | n + 2 => text ++ ',' :: vectorText text (n + 1)

/-- What a round adds to `new_str`. -/
def Item.text : Item → List Char
  | literal c => [c]
  | percent => ['%', '%']
  | conversion specifier vectorLength => vectorText specifier.text vectorLength

/-- What a round adds to `num_specifiers`. -/
def Item.numSpecifiers : Item → Nat
  | literal _ | percent => 0
  | conversion _ vectorLength => vectorLength

/-! ### The scanner

`fmt` is the rest of the format, which is not empty where a character is looked at. -/

def ranOffEnd : String := "unexpected end of format string"

/-- `IncrementPtr` -/
def incrementPtr : List Char → Except String (List Char)
  | _ :: c :: fmt => .ok (c :: fmt)
  | _ => .error ranOffEnd

/-- The loops that append characters to the specifier as long as they are of a kind. -/
def takeChars (kind : Char → Bool) : List Char → Except String (List Char × List Char)
  | [] => .ok ([], [])
  | c :: fmt =>
    if kind c then
      match fmt with
      | [] => .error ranOffEnd
      | _ :: _ => do
        let (taken, fmt) ← takeChars kind fmt
        return (c :: taken, fmt)
    else .ok ([], c :: fmt)

def isFlag (c : Char) : Bool := ['-', '+', ' ', '#', '0'].contains c

def starUnsupported : String := "the '*' width sub-specifier is not supported"

/-- The width. -/
def parseWidth (fmt : List Char) : Except String (List Char × List Char) :=
  if fmt.head? = some '*' then .error starUnsupported else takeChars Char.isDigit fmt

/-- The precision. -/
def parsePrecision (fmt : List Char) : Except String (Option (List Char) × List Char) :=
  if fmt.head? = some '.' then do
    let fmt ← incrementPtr fmt
    let (digits, fmt) ← parseWidth fmt
    return (some digits, fmt)
  else .ok (none, fmt)

/-- The length of a vector. -/
def parseVectorLength (fmt : List Char) : Except String (Nat × List Char) :=
  match fmt with
  | '1' :: _ => do
    let fmt ← incrementPtr fmt
    match fmt with
    | '6' :: _ => return (16, fmt)
    | c :: _ => .error ("invalid vector length modifier '1" ++ String.singleton c ++ "'")
    | [] => .error ranOffEnd
  | '2' :: _ => .ok (2, fmt)
  | '3' :: _ => .ok (3, fmt)
  | '4' :: _ => .ok (4, fmt)
  | '8' :: _ => .ok (8, fmt)
  | c :: _ => .error ("invalid vector length modifier '" ++ String.singleton c ++ "'")
  | [] => .error ranOffEnd

/-- The vector specifier. -/
def parseVector (fmt : List Char) : Except String (Option Nat × List Char) :=
  if fmt.head? = some 'v' then do
    let fmt ← incrementPtr fmt
    let (vectorLength, fmt) ← parseVectorLength fmt
    let fmt ← incrementPtr fmt
    return (some vectorLength, fmt)
  else .ok (none, fmt)

/-- The length modifier, in the form that it has in the new format, and whether it is `l`.
`sizeofLong` is `sizeof(long)` of the host. -/
def parseLength (sizeofLong : Nat) (isVector : Bool) (fmt : List Char) :
    Except String (List Char × Bool × List Char) :=
  match fmt with
  | 'h' :: _ => do
    let fmt ← incrementPtr fmt
    match fmt with
    | 'h' :: _ => do
      let fmt ← incrementPtr fmt
      return (['h', 'h'], false, fmt)
    | 'l' :: _ =>
      -- `hl` is the default of the host's printf
      if isVector then do
        let fmt ← incrementPtr fmt
        return ([], false, fmt)
      else .error "the 'hl' length modifier may only be used with the vector specifier"
    | _ => return (['h'], false, fmt)
  | 'l' :: _ => do
    let fmt ← incrementPtr fmt
    if fmt.head? = some 'l' then .error "the 'll' length modifier is invalid"
    else return (if sizeofLong ≠ 8 then ['l', 'l'] else ['l'], true, fmt)
  | c :: _ =>
    if ['j', 'z', 't', 'L'].contains c then
      .error ("invalid length modifier '" ++ String.singleton c ++ "'")
    else if isVector then .error "vector specifiers must be supplied length modifiers"
    else .ok ([], false, fmt)
  | [] => .error ranOffEnd

/-- The conversion specifier. -/
def parseConversion (usedL : Bool) : List Char → Except String (Char × List Char)
  | c :: fmt =>
    if c = 'n' then
      .error "the 'n' conversion specifier is not supported by OpenCL C but is reserved"
    else if (c = 's' ∨ c = 'c') ∧ usedL then
      .error ("the 'l' length modifier followed by a 'c' conversion specifier or 's' conversion " ++
        "specifier is not supported by OpenCL C")
    else .ok (c, fmt)
  | [] => .error ranOffEnd

/-- The conversion behind a `%`. -/
def parseSpecifier (sizeofLong : Nat) (fmt : List Char) :
    Except String (Specifier × Nat × List Char) := do
  let (flags, fmt) ← takeChars isFlag fmt
  let (width, fmt) ← parseWidth fmt
  let (precision, fmt) ← parsePrecision fmt
  let (vector, fmt) ← parseVector fmt
  let (length, usedL, fmt) ← parseLength sizeofLong vector.isSome fmt
  let (conversion, fmt) ← parseConversion usedL fmt
  return (⟨flags, width, precision, length, conversion⟩, vector.getD 1, fmt)

/-- One round of the loop. -/
def scanItem (sizeofLong : Nat) : List Char → Except String (Item × List Char)
  | [] => .error ranOffEnd
  | c :: fmt =>
    if c ≠ '%' then .ok (.literal c, fmt)
    else do
      let fmt ← incrementPtr (c :: fmt)
      if fmt.head? = some '%' then return (.percent, fmt.tail)
      else
        let (specifier, vectorLength, fmt) ← parseSpecifier sizeofLong fmt
        return (.conversion specifier vectorLength, fmt)

/-- The loop of `scalarizeAndCheckFormatString`.  A round reads a character or more, so that as many
rounds are enough as there are characters. -/
def scanLoop (sizeofLong : Nat) : Nat → List Char → Except String (List Item)
  | _, [] => .ok []
  | 0, _ :: _ => .error ranOffEnd
  | rounds + 1, c :: fmt => do
    let (item, fmt) ← scanItem sizeofLong (c :: fmt)
    let items ← scanLoop sizeofLong rounds fmt
    return item :: items

def nul : Char := '\x00'

/-- `c_str` -/
def cStr (str : List Char) : List Char := str.takeWhile (· ≠ nul)

def scanFormat (sizeofLong : Nat) (str : List Char) : Except String (List Item) :=
  scanLoop sizeofLong (cStr str).length (cStr str)

/-- `new_str` -/
def newStr (items : List Item) : List Char := items.flatMap Item.text ++ [nul]

/-- `num_specifiers` -/
def numSpecifiers (items : List Item) : Nat := (items.map Item.numSpecifiers).sum

/-- The new format and the number of specifiers, or the error. -/
def scalarizeAndCheckFormatString (sizeofLong : Nat) (str : List Char) :
    Except String (List Char × Nat) := do
  let items ← scanFormat sizeofLong str
  return (newStr items, numSpecifiers items)

/-! ### The arguments -/

/-- An argument of the call behind the format; a vector has an element or more. -/
inductive Operand where
  | scalar (type : ArgType)
  | vector (first : ArgType) (others : List ArgType)
deriving DecidableEq, Repr

/-- `scalars` -/
def Operand.scalars : Operand → List ArgType
  | scalar type => [type]
  | vector first others => first :: others

/-- The loop over the scalars of argument `i`, from element `j` on. -/
def scalarLoop (numSpecifiers i : Nat) : Nat → List ArgType → List ArgType
  | _, [] => []
  | j, arg :: scalars =>
    if i + j > numSpecifiers then scalarLoop numSpecifiers i (j + 1) scalars
    else arg :: scalarLoop numSpecifiers i (j + 1) scalars

/-- The loop over the arguments, from argument `i` on: the scalars that are not dropped. -/
def operandLoop (numSpecifiers : Nat) : Nat → List Operand → List ArgType
  | _, [] => []
  | i, operand :: operands =>
    if i > numSpecifiers then operandLoop numSpecifiers (i + 1) operands
    else
      scalarLoop numSpecifiers i 0 operand.scalars ++ operandLoop numSpecifiers (i + 1) operands

/-- The types that the call records in its descriptor. -/
def descriptorTypes (doubleSupport : Bool) (numSpecifiers : Nat) (operands : List Operand) :
    List PrintfType :=
  (operandLoop numSpecifiers 1 operands).map (ArgType.printfType doubleSupport)

/-! ### Cutting -/

/-- `std::string::find_first_of` -/
def findFirstOf (str : List Char) (c : Char) (pos : Nat) : Option Nat :=
  ((str.drop pos).findIdx? (· == c)).map (pos + ·)

/-- The loop of `FindNextSpecifier`. -/
def findNextSpecifierLoop (str : List Char) : Nat → Nat → Nat
  | 0, _ => str.length
  | rounds + 1, pos =>
    match findFirstOf str '%' (if pos = 0 then pos else pos + 1) with
    | none => str.length
    | some pos =>
      if pos + 1 < str.length ∧ str[pos + 1]? = some '%' then
        findNextSpecifierLoop str rounds (pos + 1)
      else pos

/-- `FindNextSpecifier`; every round moves on by a character or more. -/
def findNextSpecifier (str : List Char) (pos : Nat) : Nat :=
  findNextSpecifierLoop str (str.length + 1) pos

/-- The positions at which `print` finds specifiers when it goes on behind each. -/
def stopsFrom (str : List Char) : Nat → Nat → List Nat
  | 0, _ => []
  | rounds + 1, pos =>
    let next := findNextSpecifier str pos
    if next < str.length then next :: stopsFrom str rounds (next + 1) else []

def stops (str : List Char) : List Nat := stopsFrom str (str.length + 1) 0

end ConstructionKit.Printf
