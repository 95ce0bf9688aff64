import ConstructionKit.Mangling.RoundTrip

/-! The names of vectorized functions (`vectorization_helpers.cpp`).  A name is any list of
characters. -/

namespace ConstructionKit.Vecz

open Mangling

structure ElementCount where
  knownMin : UInt32
  scalable : Bool

/-- What the name of a vectorized function tells. -/
structure Vectorized where
  scalarName : List Char
  vf : ElementCount
  vectorPredication : Bool

def getVectorizedFunctionName (f : Vectorized) (isBuiltin : Bool) : List Char :=
  (if isBuiltin then "__vecz_b_" else "__vecz_").toList ++
    ((if f.vf.scalable then "nxv" else "v").toList ++
      (decimal f.vf.knownMin.toNat ++
        ((if f.vectorPredication then "_vp_" else "_").toList ++ f.scalarName)))

/-- `consume_front` of a pattern, or else of a second one, and whether it was the first. -/
def consumeEither (pattern other : String) (name : List Char) : Option (Bool × List Char) :=
  match consume pattern name with
  | some name => some (true, name)
  | none => (consume other name).map (false, ·)

def decodeVectorizedFunctionName (name : List Char) : Option Vectorized := do
  let (_, name) ← consumeEither "__vecz_b_" "__vecz_" name
  let (scalable, name) ← consumeEither "nxv" "v" name
  let (knownMin, name) ← consumeInteger name
  let (vectorPredication, name) ← consumeEither "_vp_" "_" name
  return ⟨name, ⟨.ofNat knownMin, scalable⟩, vectorPredication⟩

/-- A function is decoded from its name. -/
def Decodes (f : Vectorized) (isBuiltin : Bool) : Prop :=
  decodeVectorizedFunctionName (getVectorizedFunctionName f isBuiltin) = some f

/-- No other function gets the name. -/
def Alone (f : Vectorized) (isBuiltin : Bool) : Prop :=
  ∀ g isBuiltin', getVectorizedFunctionName g isBuiltin' = getVectorizedFunctionName f isBuiltin →
    g = f

variable {f : Vectorized} (isBuiltin : Bool) {name : List Char} {vf : ElementCount}

/-- The name of a predicated function is also that of one that is not. -/
theorem getVectorizedFunctionName_vp : getVectorizedFunctionName ⟨name, vf, true⟩ isBuiltin =
    getVectorizedFunctionName ⟨"vp_".toList ++ name, vf, false⟩ isBuiltin := by
  simp [getVectorizedFunctionName]

theorem decodes_of_not (h : f.vectorPredication = false → ¬"vp_".toList <+: f.scalarName) :
    Decodes f isBuiltin := by
  obtain ⟨name, ⟨knownMin, scalable⟩, vp⟩ := f
  have hkind (text : List Char) : consumeEither "__vecz_b_" "__vecz_"
      ((if isBuiltin then "__vecz_b_" else "__vecz_").toList ++
        ((if scalable then "nxv" else "v").toList ++ text)) =
      some (isBuiltin, (if scalable then "nxv" else "v").toList ++ text) := by
    cases isBuiltin <;> cases scalable <;> rfl
  have hscalable (text : List Char) : consumeEither "nxv" "v"
      ((if scalable then "nxv" else "v").toList ++ text) = some (scalable, text) := by
    cases scalable <;> rfl
  have hdigit : NoDigit ((if vp then "_vp_" else "_").toList ++ name) := by
    cases vp <;> exact fun c hc => by cases hc; rfl
  have hvp : consumeEither "_vp_" "_" ((if vp then "_vp_" else "_").toList ++ name) =
      some (vp, name) := by
    cases vp with
    | true => rfl
    | false =>
      have hnone : consume "_vp_" ('_' :: name) = none :=
        Option.eq_none_iff_forall_ne_some.2 fun rest hrest =>
          h rfl ⟨rest, List.append_eq_of_isPrefixOf?_eq_some hrest⟩
      show consumeEither "_vp_" "_" ('_' :: name) = _
      rw [consumeEither, hnone]
      rfl
  simp only [Decodes, decodeVectorizedFunctionName, getVectorizedFunctionName, hkind, hscalable, hvp,
    consumeInteger_decimal knownMin.toNat_lt _ hdigit, Option.bind_eq_bind, Option.bind_some,
    UInt32.ofNat_toNat, Option.pure_def]

/-- A scalar name that starts with `vp_` is taken for that of a predicated function. -/
theorem decode_vp : decodeVectorizedFunctionName (getVectorizedFunctionName
    ⟨"vp_".toList ++ name, vf, false⟩ isBuiltin) = some ⟨name, vf, true⟩ :=
  getVectorizedFunctionName_vp isBuiltin ▸ decodes_of_not isBuiltin nofun

/-- A name tells everything, if the scalar name of a function that is not predicated does not start
with `vp_`. -/
theorem decodes_alone_iff (f : Vectorized) :
    (Decodes f isBuiltin ↔ (f.vectorPredication = false → ¬"vp_".toList <+: f.scalarName)) ∧
      (Alone f isBuiltin ↔ f.vectorPredication = false ∧ ¬"vp_".toList <+: f.scalarName) := by
  obtain ⟨name, vf, vp⟩ := f
  refine ⟨⟨fun h => ?_, decodes_of_not isBuiltin⟩, fun h => ?_, fun ⟨hplain, hname⟩ g b hg => ?_⟩
  · rintro rfl ⟨rest, rfl⟩
    cases congrArg Vectorized.vectorPredication (Option.some.inj (h.symm.trans (decode_vp _)))
  · cases vp with
    | true => cases congrArg Vectorized.vectorPredication (h _ _ (getVectorizedFunctionName_vp _).symm)
    | false =>
      refine ⟨rfl, ?_⟩
      rintro ⟨rest, rfl⟩
      cases congrArg Vectorized.vectorPredication (h _ _ (getVectorizedFunctionName_vp _))
  · have hread : decodeVectorizedFunctionName (getVectorizedFunctionName g b) = some ⟨name, vf, vp⟩ :=
      hg ▸ decodes_of_not isBuiltin fun _ => hname
    obtain ⟨name', vf', vp'⟩ := g
    by_cases hother : vp' = false → ¬"vp_".toList <+: name'
    · exact Option.some.inj ((decodes_of_not b hother).symm.trans hread)
    · obtain ⟨rfl, rest, rfl⟩ := by simpa only [Classical.not_imp, not_not] using hother
      cases hplain
      cases (decode_vp b).symm.trans hread

theorem not_decodes : ¬Decodes ⟨"vp_f".toList, ⟨4, false⟩, false⟩ false := by
  rw [(decodes_alone_iff ..).1]
  decide

end ConstructionKit.Vecz
