import ConstructionKit.ProofKit.Masks
import ConstructionKit.Vecz.Values

/-! `OffsetInfo` (`vecz/source/offset_info.cpp`): how a value depends on the lane, and which of its bits
can be set. -/

namespace ConstructionKit.Vecz

open ProofKit

variable {p : Nat} {localSize : BitVec 64}

/-- The conversion of a result to `int64_t`. -/
def int64 (x : Int) : Int := x.bmod (2 ^ 64)

inductive OffsetKind where
  | mayDiverge
  | constant
  | uniformVariable
  | linear
deriving DecidableEq, Repr

structure ConstantInt where
  bits : Nat
  value : BitVec bits

def ConstantInt.getZExtValue (c : ConstantInt) : BitVec 64 := c.value.setWidth 64

def ConstantInt.getSExtValue (c : ConstantInt) : Int := (c.value.signExtend 64).toInt

/-- `OffsetInfo`, as it is after the analysis; of `ActualValue` only constants are looked at. -/
structure OffsetInfo where
  kind : OffsetKind := .mayDiverge
  actualValue : Option ConstantInt := none
  strideInt : Int := 0
  bitMask : BitVec 64 := .allOnes 64

/-- `SizeOrZero` -/
def TypeSize.sizeOrZero : TypeSize → Nat
  | .fixed bytes => bytes
  | .scalable _ => 0

/-- `getTypeMask` and `getSizeTypeMask` -/
def getTypeMask (bits : Nat) : BitVec 64 :=
  if bits < 64 then (1#64 <<< bits) - 1#64 else ~~~0#64

def combineKinds (lhs rhs : OffsetKind) : OffsetKind :=
  if lhs = rhs then lhs
  else if lhs = .mayDiverge ∨ rhs = .mayDiverge then .mayDiverge
  else .uniformVariable

namespace OffsetInfo

def mayDiverge (info : OffsetInfo) : Bool := info.kind = .mayDiverge

def hasStride (info : OffsetInfo) : Bool := info.kind = .linear

def isUniform (info : OffsetInfo) : Bool := info.kind = .constant || info.kind = .uniformVariable

def isStrideConstantInt (info : OffsetInfo) : Bool := info.kind = .linear && info.strideInt ≠ 0

def getValueAsConstantInt (info : OffsetInfo) : Int := (info.actualValue.map (·.getSExtValue)).getD 0

def setKind (this : OffsetInfo) (kind : OffsetKind) : OffsetInfo := { this with kind }

def setMayDiverge (this : OffsetInfo) : OffsetInfo := this.setKind .mayDiverge

/-- `setStride(nullptr)` -/
def setVariableStride (this : OffsetInfo) : OffsetInfo := { this with strideInt := 0, kind := .linear }

/-- `setStride(int64_t)` -/
def setStride (this : OffsetInfo) (stride : Int) : OffsetInfo :=
  if stride = 0 then { this with kind := .uniformVariable }
  else { this with strideInt := stride, kind := .linear }

def copyStrideFrom (this other : OffsetInfo) : OffsetInfo :=
  { this with kind := other.kind, strideInt := other.strideInt }

/-! ### Binary operators -/

def combineAdd (this lhs rhs : OffsetInfo) : OffsetInfo :=
  let this := { this with
    bitMask := this.bitMask &&& (lhs.bitMask ||| rhs.bitMask ||| (lhs.bitMask + rhs.bitMask)) }
  if lhs.hasStride then
    if rhs.hasStride then
      if lhs.isStrideConstantInt && rhs.isStrideConstantInt then
        this.setStride (int64 (lhs.strideInt + rhs.strideInt))
      else this.setVariableStride
    else this.copyStrideFrom lhs
  else if rhs.hasStride then this.copyStrideFrom rhs
  else this.setKind (combineKinds lhs.kind rhs.kind)

def combineSub (this lhs rhs : OffsetInfo) : OffsetInfo :=
  if lhs.hasStride then
    if rhs.hasStride then
      if lhs.isStrideConstantInt && rhs.isStrideConstantInt then
        this.setStride (int64 (lhs.strideInt - rhs.strideInt))
      else this.setVariableStride
    else this.copyStrideFrom lhs
  else if rhs.hasStride then
    if rhs.isStrideConstantInt then this.setStride (int64 (-rhs.strideInt))
    else this.setVariableStride
  else this.setKind (combineKinds lhs.kind rhs.kind)

def combineAnd (this lhs rhs : OffsetInfo) : OffsetInfo :=
  let this := { this with bitMask := lhs.bitMask &&& rhs.bitMask }
  if lhs.hasStride then
    if rhs.hasStride then this.setMayDiverge
    else if this.bitMask = lhs.bitMask then this.copyStrideFrom lhs
    else this.setMayDiverge
  else if rhs.hasStride then
    if this.bitMask = rhs.bitMask then this.copyStrideFrom rhs
    else this.setMayDiverge
  else this.setKind (combineKinds lhs.kind rhs.kind)

def combineOr (this lhs rhs : OffsetInfo) : OffsetInfo :=
  if lhs.bitMask &&& rhs.bitMask = 0#64 then this.combineAdd lhs rhs
  else if lhs.hasStride || rhs.hasStride then this.setMayDiverge
  else { this with bitMask := lhs.bitMask ||| rhs.bitMask }.setKind (combineKinds lhs.kind rhs.kind)

def combineXor (this lhs rhs : OffsetInfo) : OffsetInfo := this.combineOr lhs rhs

def combineShl (this lhs rhs : OffsetInfo) : OffsetInfo :=
  if rhs.hasStride then this.setMayDiverge
  else if lhs.hasStride then
    if !rhs.isUniform then this.setMayDiverge
    else match rhs.actualValue with
      | some shift =>
        { this with bitMask := lhs.bitMask <<< shift.getZExtValue.toNat }.setStride
          (int64 (lhs.strideInt * 2 ^ shift.getZExtValue.toNat))
      | none => { this with bitMask := ~~~0#64 }.setVariableStride
  else this.setKind (combineKinds lhs.kind rhs.kind)

def combineAShr (this lhs rhs : OffsetInfo) : OffsetInfo :=
  if rhs.hasStride then this.setMayDiverge
  else if lhs.hasStride then
    if !rhs.isUniform then this.setMayDiverge
    else if rhs.kind = .constant then
      let shift := rhs.getValueAsConstantInt
      if shift < 0 ∨ 64 ≤ shift then this.setMayDiverge
      else
        let shift := shift.toNat
        let signMask := (this.bitMask >>> 1) + 1#64
        let this := { this with
          bitMask := this.bitMask &&&
            if lhs.bitMask &&& signMask ≠ 0#64 then lhs.bitMask >>> shift ||| ~~~(this.bitMask >>> shift)
            else lhs.bitMask >>> shift }
        let lostBits := (1#64 <<< shift) - 1#64
        if lhs.isStrideConstantInt then
          if .ofInt 64 lhs.strideInt &&& lostBits = 0#64 ∨ lhs.bitMask &&& lostBits = 0#64 then
            this.setStride (lhs.strideInt >>> shift)
          else this.setMayDiverge
        else if lhs.bitMask &&& lostBits = 0#64 then this.setVariableStride
        else this.setMayDiverge
    else this.setMayDiverge
  else this.setKind (combineKinds lhs.kind rhs.kind)

def combineMul (this lhs rhs : OffsetInfo) : OffsetInfo :=
  if lhs.hasStride && rhs.hasStride then this.setMayDiverge
  else if lhs.hasStride then
    if lhs.isStrideConstantInt && rhs.kind = .constant then
      this.setStride (int64 (lhs.strideInt * rhs.getValueAsConstantInt))
    else this.setVariableStride
  else if rhs.hasStride then
    if rhs.isStrideConstantInt && lhs.kind = .constant then
      this.setStride (int64 (rhs.strideInt * lhs.getValueAsConstantInt))
    else this.setVariableStride
  else this.setKind (combineKinds lhs.kind rhs.kind)

end OffsetInfo

/-- `isa<OverflowingBinaryOperator>` -/
def BinaryOp.isOverflowing : BinaryOp → Bool
  | .add | .sub | .mul | .shl => true
  | _ => false

open OffsetInfo

/-- `analyze` of a binary operator that is varying. -/
def analyzeBinary (w : Nat) (op : BinaryOp) (nuw : Bool) (lhs rhs : OffsetInfo) : OffsetInfo :=
  let this : OffsetInfo := { bitMask := getTypeMask w }
  if lhs.mayDiverge || rhs.mayDiverge then this.setMayDiverge
  else
    let this := if op.isOverflowing && !nuw then { this with bitMask := ~~~0#64 } else this
    match op with
    | .add => this.combineAdd lhs rhs
    | .sub => this.combineSub lhs rhs
    | .and => this.combineAnd lhs rhs
    | .or => this.combineOr lhs rhs
    | .xor => this.combineXor lhs rhs
    | .mul => this.combineMul lhs rhs
    | .shl => this.combineShl lhs rhs
    | .ashr => this.combineAShr lhs rhs
    | .lshr | .udiv | .sdiv | .urem | .srem => this.setMayDiverge

/-! ### Casts and selects -/

/-- `analyze` of a cast from `v` bits that is varying. -/
def analyzeZExt (p w v : Nat) (src : OffsetInfo) : OffsetInfo :=
  let this : OffsetInfo := { bitMask := getTypeMask w }
  if src.mayDiverge then this.setMayDiverge
  else
    let typeMask := getTypeMask v
    let bitMaskSized := src.bitMask &&& getTypeMask p
    if bitMaskSized &&& typeMask ≠ bitMaskSized then this.setMayDiverge
    else { this with bitMask := src.bitMask &&& typeMask }.copyStrideFrom src

@[inherit_doc analyzeZExt]
def analyzeSExt (w v : Nat) (src : OffsetInfo) : OffsetInfo :=
  let this : OffsetInfo := { bitMask := getTypeMask w }
  if src.mayDiverge then this.setMayDiverge
  else
    let widthMask := getTypeMask v
    let signMask := (widthMask >>> 1) + 1#64
    { this with
      bitMask := if src.bitMask &&& signMask ≠ 0#64 then src.bitMask ||| ~~~widthMask
        else src.bitMask &&& widthMask }.copyStrideFrom src

/-- `analyze` of any other cast that is varying. -/
def analyzeCast (w : Nat) (src : OffsetInfo) : OffsetInfo :=
  let this : OffsetInfo := { bitMask := getTypeMask w }
  if src.mayDiverge then this.setMayDiverge
  else { this with bitMask := src.bitMask }.copyStrideFrom src

/-- The start of `analyze` and of `analyzePtr`. -/
def startInfo : Class → Nat → OffsetInfo
  | .int, w => { bitMask := getTypeMask w }
  | .ptr, _ => {}

/-- `analyze` and `analyzePtr` of a select that is varying. -/
def analyzeSelect (k : Class) (w : Nat) (condVarying : Bool) (lhs rhs : OffsetInfo) : OffsetInfo :=
  let this := startInfo k w
  if condVarying then this.setMayDiverge
  else if lhs.hasStride && rhs.hasStride && lhs.strideInt = rhs.strideInt && lhs.isStrideConstantInt then
    this.copyStrideFrom lhs
  else this.setMayDiverge

/-- `analyzePtr` of a `GetElementPtrInst`, from what the loop over its indices finds. -/
def analyzeGep (ptrInfo : OffsetInfo) (indices : Int → Bool → Option (Int × Bool)) : OffsetInfo :=
  let this : OffsetInfo := {}
  if ptrInfo.mayDiverge then this.setMayDiverge
  else
    let this := this.copyStrideFrom ptrInfo
    match indices this.strideInt (this.hasStride && this.strideInt = 0) with
    | none => this.setMayDiverge
    | some (gepStrideInt, strideVariable) =>
      if strideVariable then this.setVariableStride else this.setStride gepStrideInt

/-! ### The analysis -/

/-- `StrideAnalysisResult`, with the bits that `computeKnownBits` finds to be zero. -/
structure StrideAnalysis (p : Nat) (localSize : BitVec 64) where
  knownZero : {w : Nat} → Expr p .int w → BitVec 64
  knownZero_sound : ∀ {w : Nat} (e : Expr p .int w) (run : Run p localSize), e.NoOverflow run →
    ∀ lane < run.lanes, ∀ i, (knownZero e).getLsbD i = true → (e.eval run lane).getLsbD i = false

variable (sar : StrideAnalysis p localSize)

/-- `analyze` of an instruction that is not varying. -/
def analyzeUniform {k : Class} {w : Nat} (e : Expr p k w) : OffsetInfo :=
  match k, e with
  | .int, e => { bitMask := getTypeMask w &&& ~~~sar.knownZero e, kind := .uniformVariable }
  | .ptr, _ => { kind := .uniformVariable }

mutual

/-- `StrideAnalysisResult::analyze` -/
def analyze {k : Class} {w : Nat} : Expr p k w → OffsetInfo
  | .const value =>
    { kind := .constant, actualValue := some ⟨_, value⟩, bitMask := value.setWidth 64 }
  | .argument w _ => { bitMask := getTypeMask w, kind := .uniformVariable }
  | .uniform w name => analyzeUniform sar (.uniform w name)
  | .pointer _ => { kind := .uniformVariable }
  | .globalId w => { bitMask := getTypeMask w : OffsetInfo }.setStride 1
  | .localId _ => { bitMask := smear 6 (localSize - 1#64) : OffsetInfo }.setStride 1
  | @Expr.binary _ w op nuw lhs rhs =>
    if (Expr.binary op nuw lhs rhs).isVarying then analyzeBinary w op nuw (analyze lhs) (analyze rhs)
    else analyzeUniform sar (.binary op nuw lhs rhs)
  | .trunc w h src =>
    if (Expr.trunc w h src).isVarying then analyzeCast w (analyze src)
    else analyzeUniform sar (.trunc w h src)
  | @Expr.zext _ v w h src =>
    if (Expr.zext w h src).isVarying then analyzeZExt p w v (analyze src)
    else analyzeUniform sar (.zext w h src)
  | @Expr.sext _ v w h src =>
    if (Expr.sext w h src).isVarying then analyzeSExt w v (analyze src)
    else analyzeUniform sar (.sext w h src)
  | .ptrToInt w src =>
    if (Expr.ptrToInt w src).isVarying then analyzeCast w (analyze src)
    else analyzeUniform sar (.ptrToInt w src)
  | .intToPtr src => ({} : OffsetInfo).copyStrideFrom (analyze src)
  | .ptrCast src => ({} : OffsetInfo).copyStrideFrom (analyze src)
  | @Expr.select _ k w cond lhs rhs =>
    if (Expr.select cond lhs rhs).isVarying then
      analyzeSelect k w cond.isVarying (analyze lhs) (analyze rhs)
    else analyzeUniform sar (.select cond lhs rhs)
  | .gep base indices =>
    if (Expr.gep base indices).isVarying then analyzeGep (analyze base) (analyzeIndices indices)
    else analyzeUniform sar (.gep base indices)

/-- The loop over the indices of a `GetElementPtrInst`, with `GEPStrideInt` and `StrideVariable`; there is
no result if an index may diverge. -/
def analyzeIndices : Indices p → Int → Bool → Option (Int × Bool)
  | .nil, gepStrideInt, strideVariable => some (gepStrideInt, strideVariable)
  | .element index size rest, gepStrideInt, strideVariable =>
    let idxOffset := analyze index
    if idxOffset.mayDiverge then none
    else if !idxOffset.hasStride then analyzeIndices rest gepStrideInt strideVariable
    else if idxOffset.isStrideConstantInt then
      analyzeIndices rest (int64 (gepStrideInt + idxOffset.strideInt * size.sizeOrZero)) strideVariable
    else analyzeIndices rest gepStrideInt true
  | .member _ rest, gepStrideInt, strideVariable => analyzeIndices rest gepStrideInt strideVariable

end

end ConstructionKit.Vecz
