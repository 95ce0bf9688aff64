import ConstructionKit.Mangling.RoundTrip
import Mathlib.Data.Nat.Digits.Defs

/-! Which types `demangleType` reads back from the text that `mangleType` writes for one of them. -/

namespace ConstructionKit.Mangling

inductive Single where
  | pointer (addressSpace : UInt32) (qual : TypeQualifier)
  | scalable (element : Scalar) (minElements : UInt32)
  | image (dim : ImageDim) (depth arrayed multiSampled : Bool)
  | sampler | event
deriving DecidableEq, Repr

def Single.qualTy : Single → QualTy
  | pointer addressSpace qual => (.pointer addressSpace, [qual])
  | scalable element minElements => (.scalableVector element.ty minElements, [.none, element.qual])
  | image dim depth arrayed multiSampled => (.image dim depth arrayed multiSampled, [])
  | sampler => (.sampler, [])
  | event => (.event, [])

/-- The type comes back from its text, in front of the text of further arguments. -/
def Single.RoundTrips (type : Single) (rest : List Char) : Prop :=
  ∀ ctx, (mangleType [] type.qualTy.1 type.qualTy.2).bind (fun text =>
    demangleType ctx (text ++ rest).length (text ++ rest) []) = some (type.qualTy, rest)

/-- A pointer never comes back, and a scalable vector only in front of three more characters.  An image
array with depth is read without its depth, or not found under a wrong length of its name. -/
def Single.Readable (rest : List Char) : Single → Prop
  | pointer .. => False
  | scalable .. => 3 ≤ rest.length
  | image .dim1D depth _ multiSampled => ¬depth ∧ ¬multiSampled
  | image .dim2D depth arrayed _ => ¬(depth ∧ arrayed)
  | image _ depth arrayed multiSampled => ¬depth ∧ ¬arrayed ∧ ¬multiSampled
  | sampler | event => True

theorem demangleType_pointer (ctx : List QualTy) (text : List Char) :
    demangleType ctx ("u3ptr".toList ++ text).length ("u3ptr".toList ++ text) [] =
      (demanglePointerQuals text).bind fun (_, qual, rest) => some ((.null, [qual]), rest) := rfl

/-! ### Scalable vectors -/

theorem mangleType_scalable (element : Scalar) (minElements : UInt32) :
    mangleType [] (.scalableVector element.ty minElements) [.none, element.qual] =
      some ('u' :: decimal ((decimal minElements.toNat).length + element.chars.length + 3) ++
        "nxv".toList ++ decimal minElements.toNat ++ element.chars) := by
  rw [mangleType]
  simp [emitSubstitution, findSubstitution, TypeQualifiers.popFront, mangleSimpleType,
    mangleType_scalar]

/-- A length in front of `nxv` is not read as the one of `ptr`. -/
theorem consume_pointer (n : Nat) (text : List Char) :
    consume "u3ptr" ('u' :: (decimal n ++ 'n' :: text)) = none := by
  match hn : decimal n with
  | [] => rfl
  | [c] => by_cases hc : c = '3' <;> simp [consume, List.isPrefixOf?]
  | c :: c' :: cs =>
    have hp : 'p' ≠ c' := by
      rintro rfl
      exact absurd (isDigit_of_mem_decimal (n := n) (c := 'p') (by simp [hn])) (by decide)
    simp [consume, List.isPrefixOf?, hp]

theorem read_scalable (ctx : List QualTy) (element : Scalar) (minElements : UInt32) (rest : List Char) :
    (mangleType [] (.scalableVector element.ty minElements) [.none, element.qual]).bind (fun text =>
        demangleType ctx (text ++ rest).length (text ++ rest) []) =
      if rest.length < 3 then none else some ((Single.scalable element minElements).qualTy, rest) := by
  have hchars : element.chars.length ≤ 2 ∧ NoDigit (element.chars ++ rest) := by
    cases element with
    | int width signed => cases width <;> cases signed <;> exact ⟨by decide, fun c hc => by cases hc; rfl⟩
    | _ => exact ⟨by decide, fun c hc => by cases hc; rfl⟩
  have hdigits : (decimal minElements.toNat).length ≤ 10 :=
    Nat.toDigits_length 10 _ 10 (by decide) (Nat.lt_trans minElements.toNat_lt (by decide))
  rw [mangleType_scalable, Option.bind_some]
  generalize hfuel : List.length (_ ++ rest) = fuel
  obtain ⟨fuel, rfl⟩ : ∃ k, fuel = k + 2 := ⟨fuel - 2, by simp at hfuel; omega⟩
  generalize hn : (decimal minElements.toNat).length + element.chars.length + 3 = n
  have hname (text : List Char) : consumeInteger (decimal n ++ 'n' :: text) = some (n, 'n' :: text) :=
    consumeInteger_decimal (by omega) _ fun c hc => by cases hc; rfl
  have hcount := consumeInteger_decimal minElements.toNat_lt (element.chars ++ rest) hchars.2
  have hdv (text : List Char) : consume "Dv" ('u' :: text) = none := rfl
  have hu (text : List Char) : consume "u" ('u' :: text) = some text := rfl
  have hnxv (text : List Char) : consume "nxv" ('n' :: 'x' :: 'v' :: text) = some text := rfl
  rw [demangleType, if_neg (by simp), show "nxv".toList = ['n', 'x', 'v'] from rfl]
  simp only [List.cons_append, List.nil_append, List.append_assoc, consume_pointer, hu, hname,
    hnxv, hcount, demangleType_scalar, Option.bind_eq_bind, Option.bind_some, UInt32.ofNat_toNat]
  refine if_congr ?_ rfl rfl
  simp only [List.length_append]
  omega

/-! ### The round trip -/

end ConstructionKit.Mangling
