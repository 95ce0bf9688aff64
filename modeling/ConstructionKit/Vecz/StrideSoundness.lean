import ConstructionKit.Vecz.CastRules

/-! When the stride analysis is right about all values of an expression. -/

namespace ConstructionKit.Vecz

open ProofKit OffsetInfo

variable {p w : Nat} {k : Class} {localSize : BitVec 64} (sar : StrideAnalysis p localSize)
  (run : Run p localSize)

/-! ### The property -/

/-- What the analysis says about a value holds in all lanes. -/
def SoundAt {k : Class} {w : Nat} (e : Expr p k w) : Prop :=
  Describes run.lanes k (analyze sar e) (fun lane => e.eval run lane)

/-! ### The condition -/

/-- The operands of a binary operator that is analyzed: strides have 64 bits, a constant shift to the left is
not one of a variable stride, and what is masked with a value that is not constant keeps its stride. -/
def BinaryHandled (n : Nat) (op : BinaryOp) (lhs rhs info : OffsetInfo) (z : Nat → BitVec w) : Prop :=
  match op with
  | .add => lhs.isStrideConstantInt = true → rhs.isStrideConstantInt = true →
      FitsInt64 n (lhs.strideInt + rhs.strideInt)
  | .sub => rhs.isStrideConstantInt = true →
      (lhs.isStrideConstantInt = true → FitsInt64 n (lhs.strideInt - rhs.strideInt)) ∧
        (lhs.hasStride = false → FitsInt64 n (-rhs.strideInt))
  | .mul => (lhs.isStrideConstantInt = true → rhs.kind = .constant →
        FitsInt64 n (lhs.strideInt * rhs.getValueAsConstantInt)) ∧
      (rhs.isStrideConstantInt = true → lhs.kind = .constant →
        FitsInt64 n (rhs.strideInt * lhs.getValueAsConstantInt))
  | .shl => lhs.hasStride = true → ∀ shift, rhs.actualValue = some shift →
      if lhs.strideInt = 0 then ∀ i < n, z i = z 0
      else FitsInt64 n (lhs.strideInt * 2 ^ shift.getZExtValue.toNat)
  | .and => lhs.hasStride = true ∧ rhs.kind ≠ .constant ∨ rhs.hasStride = true ∧ lhs.kind ≠ .constant →
      info.isStrideConstantInt = true → ∀ i < n, Shifted .int (z 0) (i * info.strideInt) (z i)
  | .or | .xor => lhs.bitMask &&& rhs.bitMask = 0#64 → lhs.isStrideConstantInt = true →
      rhs.isStrideConstantInt = true → FitsInt64 n (lhs.strideInt + rhs.strideInt)
  | .ashr | .lshr | .udiv | .sdiv | .urem | .srem => True

/-- The analysis knows the sizes that it multiplies strides with. -/
def SizesKnown : Indices p → Prop
  | .nil => True
  | .element index size rest =>
    ((analyze sar index).isStrideConstantInt = true → size.sizeOrZero = size.bytes run.vscale) ∧ SizesKnown rest
  | .member _ rest => SizesKnown rest

/-- The condition for a value of at most 64 bits that is varying. -/
def Handled {k : Class} {w : Nat} : Expr p k w → Prop
  | .binary op nuw lhs rhs =>
    (analyze sar lhs).mayDiverge = false → (analyze sar rhs).mayDiverge = false →
      BinaryHandled run.lanes op (analyze sar lhs) (analyze sar rhs) (analyze sar (.binary op nuw lhs rhs))
        fun lane => op.eval (lhs.eval run lane) (rhs.eval run lane)
  | .zext w h src => (analyze sar (.zext w h src)).isStrideConstantInt = true →
      SameSign run.lanes fun lane => src.eval run lane
  | .ptrToInt w src =>
    let info := analyze sar (.ptrToInt w src)
    info.isStrideConstantInt = true → ∀ lane < run.lanes,
      Shifted .int ((src.eval run 0).setWidth w) (lane * info.strideInt) ((src.eval run lane).setWidth w)
  | @Expr.intToPtr _ v src => (analyze sar src).isStrideConstantInt = true → v < p →
      SameSign run.lanes fun lane => src.eval run lane
  | .gep base indices =>
    let info := analyze sar (.gep base indices)
    let address (lane : Nat) := base.eval run lane + indices.offset run lane
    ¬(((analyze sar base).hasStride = false → (analyze sar base).strideInt = 0) ∧ SizesKnown sar run indices) →
      (info.isUniform = true → ∀ lane < run.lanes, address lane = address 0) ∧
      (info.isStrideConstantInt = true → ∀ lane < run.lanes,
        Shifted .ptr (address 0) (lane * info.strideInt) (address lane))
  | .const _ | .argument .. | .uniform .. | .pointer _ | .globalId _ | .localId _ | .trunc .. | .sext .. => True
  | .ptrCast _ | .select .. => True

/-- The condition for a value; nothing is known in general about those with more than 64 bits. -/
def HandledAt {k : Class} {w : Nat} (e : Expr p k w) : Prop :=
  (64 < w → SoundAt sar run e) ∧ (w ≤ 64 → e.isVarying = true → Handled sar run e)

/-! ### Constants -/

variable {sar run} {indices : Int → Bool → Option (Int × Bool)} {op : BinaryOp} {nuw : Bool}
  (e : Expr p k w)

section Kinds

variable {info this lhs rhs : OffsetInfo} (stride : Int)

/-- No constant is known, and the kind is constant only for two constants. -/
structure Combined (lhs rhs info : OffsetInfo) : Prop where
  actualValue : info.actualValue = none
  kind : info.kind = .constant → lhs.kind = .constant ∧ rhs.kind = .constant

theorem combineKinds_eq_constant {a b : OffsetKind} (h : combineKinds a b = .constant) :
    a = .constant ∧ b = .constant := by
  unfold combineKinds at h
  cases a <;> cases b <;> simp_all

theorem combined_of_kind_ne (hthis : info.actualValue = none) (h : info.kind ≠ .constant) :
    Combined lhs rhs info := ⟨hthis, fun hkind => absurd hkind h⟩

section Combined

variable (hthis : this.actualValue = none)

include hthis

@[grind .]
theorem combined_setKind : Combined lhs rhs (this.setKind (combineKinds lhs.kind rhs.kind)) :=
  ⟨hthis, combineKinds_eq_constant⟩

@[grind .]
theorem combined_setMayDiverge : Combined lhs rhs this.setMayDiverge :=
  combined_of_kind_ne hthis (by simp [setMayDiverge, setKind])

@[grind .]
theorem combined_setVariableStride : Combined lhs rhs this.setVariableStride :=
  combined_of_kind_ne hthis (by simp [setVariableStride])

@[grind .]
theorem combined_setStride : Combined lhs rhs (this.setStride stride) := by
  unfold setStride
  split <;> exact combined_of_kind_ne hthis (by simp)

@[grind .]
theorem combined_copyStrideFrom {other : OffsetInfo} (h : other.hasStride = true) :
    Combined lhs rhs (this.copyStrideFrom other) :=
  combined_of_kind_ne hthis (kind_ne_constant_of_hasStride h)

theorem combined_combineAdd : Combined lhs rhs (this.combineAdd lhs rhs) := by
  unfold combineAdd
  grind

theorem combined_combineSub : Combined lhs rhs (this.combineSub lhs rhs) := by
  unfold combineSub
  grind

theorem combined_combineAnd : Combined lhs rhs (this.combineAnd lhs rhs) := by
  unfold combineAnd
  grind

theorem combined_combineOr : Combined lhs rhs (this.combineOr lhs rhs) := by
  unfold combineOr
  grind [combined_combineAdd]

theorem combined_combineMul : Combined lhs rhs (this.combineMul lhs rhs) := by
  unfold combineMul
  grind

theorem combined_combineShl : Combined lhs rhs (this.combineShl lhs rhs) := by
  unfold combineShl
  grind

theorem combined_combineAShr : Combined lhs rhs (this.combineAShr lhs rhs) := by
  unfold combineAShr
  grind

end Combined

theorem combined_analyzeBinary (w : Nat) (op : BinaryOp) (nuw : Bool) :
    Combined lhs rhs (analyzeBinary w op nuw lhs rhs) := by
  unfold analyzeBinary
  dsimp only
  split
  · exact combined_setMayDiverge rfl
  · generalize hthis : (if (op.isOverflowing && !nuw) = true then
      ({ bitMask := ~~~0#64 } : OffsetInfo) else { bitMask := getTypeMask w }) = this
    have hnone : this.actualValue = none := by
      rw [← hthis]
      split <;> rfl
    cases op with
    | add => exact combined_combineAdd hnone
    | sub => exact combined_combineSub hnone
    | and => exact combined_combineAnd hnone
    | or | xor => exact combined_combineOr hnone
    | mul => exact combined_combineMul hnone
    | shl => exact combined_combineShl hnone
    | ashr => exact combined_combineAShr hnone
    | lshr | udiv | sdiv | urem | srem => exact combined_setMayDiverge hnone

theorem combined_copy (hthis : this.actualValue = none) : Combined info info (this.copyStrideFrom info) :=
  ⟨hthis, fun h => ⟨h, h⟩⟩

theorem combined_analyzeCast (w : Nat) : Combined info info (analyzeCast w info) := by
  unfold analyzeCast
  grind [combined_copy]

theorem combined_analyzeSExt (w v : Nat) : Combined info info (analyzeSExt w v info) := by
  unfold analyzeSExt
  grind [combined_copy]

theorem combined_analyzeZExt (p w v : Nat) : Combined info info (analyzeZExt p w v info) := by
  unfold analyzeZExt
  grind [combined_copy]

theorem combined_analyzeSelect (k : Class) (w : Nat) (condVarying : Bool) :
    Combined lhs rhs (analyzeSelect k w condVarying lhs rhs) := by
  have hstart : (startInfo k w).actualValue = none := by cases k <;> rfl
  unfold analyzeSelect
  grind

theorem kind_setStride_ne_constant : (this.setStride stride).kind ≠ .constant := by
  unfold setStride
  split <;> simp

theorem kind_analyzeSelect_ne_constant {k : Class} {w : Nat} {condVarying : Bool} :
    (analyzeSelect k w condVarying lhs rhs).kind ≠ .constant := by
  unfold analyzeSelect
  grind [setMayDiverge, setKind, copyStrideFrom, kind_ne_constant_of_hasStride]

theorem kind_analyzeGep_ne_constant : (analyzeGep info indices).kind ≠ .constant := by
  unfold analyzeGep
  grind [setMayDiverge, setKind, setVariableStride, kind_setStride_ne_constant]

end Kinds


/-- A value that depends on an id is not constant. -/
theorem kind_ne_constant {k : Class} {w : Nat} : ∀ e : Expr p k w, e.isVarying = true →
    (analyze sar e).kind ≠ .constant
  | .globalId _, _, h | .localId _, _, h => by
    cases h
  | .binary op nuw lhs rhs, hvarying, h => by
    rw [analyze, if_pos hvarying] at h
    have hkind := (combined_analyzeBinary _ op nuw).kind h
    rw [Expr.isVarying, Bool.or_eq_true] at hvarying
    rcases hvarying with hvarying | hvarying
    · exact kind_ne_constant lhs hvarying hkind.1
    · exact kind_ne_constant rhs hvarying hkind.2
  | .trunc w _ src, hvarying, h => by
    rw [analyze, if_pos hvarying] at h
    exact kind_ne_constant src hvarying ((combined_analyzeCast w).kind h).1
  | .zext w _ src, hvarying, h => by
    rw [analyze, if_pos hvarying] at h
    exact kind_ne_constant src hvarying ((combined_analyzeZExt p w _).kind h).1
  | .sext w _ src, hvarying, h => by
    rw [analyze, if_pos hvarying] at h
    exact kind_ne_constant src hvarying ((combined_analyzeSExt w _).kind h).1
  | .ptrToInt w src, hvarying, h => by
    rw [analyze, if_pos hvarying] at h
    exact kind_ne_constant src hvarying ((combined_analyzeCast w).kind h).1
  | .intToPtr src, hvarying, h | .ptrCast src, hvarying, h => kind_ne_constant src hvarying h
  | .select cond lhs rhs, hvarying, h => by
    rw [analyze, if_pos hvarying] at h
    exact kind_analyzeSelect_ne_constant h
  | .gep base indices, hvarying, h => by
    rw [analyze, if_pos hvarying] at h
    exact kind_analyzeGep_ne_constant h

/-- The analysis knows the constants, and no others. -/
theorem knowsConstant (sar : StrideAnalysis p localSize) (run : Run p localSize) (e : Expr p .int w) :
    KnowsConstant (analyze sar e) (fun lane => e.eval run lane) := by
  intro h
  by_cases hvarying : e.isVarying = true
  · refine absurd h (not_or.2 ⟨kind_ne_constant e hvarying, not_not.2 ?_⟩)
    cases e with
    | const | argument | uniform => cases hvarying
    | globalId | localId =>
      rw [analyze, setStride, if_neg (by decide)]
    | binary op nuw =>
      rw [analyze, if_pos hvarying]
      exact (combined_analyzeBinary _ op nuw).actualValue
    | trunc w | ptrToInt w =>
      rw [analyze, if_pos hvarying]
      exact (combined_analyzeCast w).actualValue
    | zext w =>
      rw [analyze, if_pos hvarying]
      exact (combined_analyzeZExt p w _).actualValue
    | sext w =>
      rw [analyze, if_pos hvarying]
      exact (combined_analyzeSExt w _).actualValue
    | select =>
      rw [analyze, if_pos hvarying]
      exact (combined_analyzeSelect .int w _).actualValue
  · cases e with
    | const value => exact ⟨value, rfl, fun _ => rfl⟩
    | globalId | localId => exact absurd rfl hvarying
    | argument | uniform => simp [analyze, analyzeUniform] at h
    | binary | trunc | zext | sext | ptrToInt | select =>
      rw [analyze, if_neg hvarying] at h
      simp [analyzeUniform] at h

/-! ### Values that are not varying -/

theorem describes_analyzeUniform (hw : w ≤ 64) (hvarying : e.isVarying = false)
    (hno : e.NoOverflow run) : Describes run.lanes k (analyzeUniform sar e) (fun lane => e.eval run lane) := by
  cases k with
  | int =>
    refine ⟨fun _ i _ => e.eval_eq run i 0 hvarying, fun h => (nomatch h), fun i hi => ?_⟩
    refine (covers_getTypeMask hw).inter fun j hj => ?_
    have hlt := BitVec.lt_of_getLsbD hj
    rw [BitVec.getLsbD_not, decide_eq_true (by omega), Bool.true_and, Bool.not_eq_true', ← Bool.not_eq_true]
    intro hzero
    rw [sar.knownZero_sound e run hno i hi j hzero] at hj
    cases hj
  | ptr =>
    exact ⟨fun _ i _ => e.eval_eq run i 0 hvarying, fun h => (nomatch h), fun i _ => covers_allOnes hw⟩

/-- The analysis is right about values that do not depend on an id. -/
theorem soundAt_of_not_varying (hw : w ≤ 64) (hvarying : e.isVarying = false)
    (hno : e.NoOverflow run) (hbelow : e.Below (SoundAt sar run)) : SoundAt sar run e := by
  have hif := Bool.eq_false_iff.1 hvarying
  cases e with
  | const => exact ⟨fun _ _ _ => rfl, fun h => (nomatch h), fun _ _ => covers_setWidth hw⟩
  | argument => exact ⟨fun _ _ _ => rfl, fun h => (nomatch h), fun _ _ => covers_getTypeMask hw⟩
  | pointer => exact ⟨fun _ _ _ => rfl, fun h => (nomatch h), fun _ _ => covers_allOnes hw⟩
  | uniform w name => exact describes_analyzeUniform (.uniform w name) hw hvarying hno
  | globalId | localId => cases hvarying
  | intToPtr src =>
    exact (describes_intToPtr hw (Expr.Everywhere.self hbelow)).2
      fun _ _ i _ => congrArg BitVec.msb (src.eval_eq run i 0 hvarying)
  | ptrCast => exact describes_ptrCast hw (Expr.Everywhere.self hbelow)
  | binary | trunc | zext | sext | ptrToInt | select | gep =>
    rw [SoundAt, analyze, if_neg hif]
    exact describes_analyzeUniform _ hw hvarying hno

/-! ### Ids -/

theorem describes_id {n : Nat} {mask : BitVec 64} {z : Nat → BitVec w}
    (hz : ∀ i < n, (z i).toInt = (z 0).toInt + i) (hmask : ∀ i < n, Covers mask (z i)) :
    Describes n .int (({ bitMask := mask } : OffsetInfo).setStride 1) z :=
  describes_setStride (fun i hi => by rw [Shifted, hz i hi, mul_one]) (fun h => absurd h (by decide)) hmask

theorem covers_localId (hw : w ≤ 64) {lane : Nat} (hlane : lane < run.lanes) :
    Covers (smear 6 (localSize - 1#64)) (BitVec.ofNat w (run.localId + lane)) := by
  refine covers_smear (by decide) ?_
  have hpow : 2 ^ w ≤ 2 ^ 64 := Nat.pow_le_pow_right (by decide) hw
  by_cases hsize : localSize = 0#64
  · have hmax : (localSize - 1#64).toNat = 2 ^ 64 - 1 := by
      rw [hsize]
      rfl
    omega
  · have hle := run.localId_le hsize
    have hone : (localSize - 1#64).toNat = localSize.toNat - 1 := by
      rw [BitVec.toNat_sub_of_le]
      · rfl
      · rw [BitVec.le_def]
        change 1 ≤ localSize.toNat
        omega
    exact (Nat.mod_le _ _).trans (by omega)

/-! ### Addresses -/

/-- The indices of an address add a stride, if the analysis finds one that is constant. -/
theorem indices_shifted : ∀ (indices : Indices p), indices.Everywhere (SoundAt sar run) →
    SizesKnown sar run indices → ∀ {s s' : Int} {strideVariable : Bool},
      analyzeIndices sar indices s strideVariable = some (s', false) →
      strideVariable = false ∧ ∃ d : Int, ((2 ^ 64 : Nat) : Int) ∣ s' - (s + d) ∧
        ∀ i < run.lanes, indices.offset run i = indices.offset run 0 + BitVec.ofInt p (i * d)
  | .nil, _, _, s, s', strideVariable, h => by
    cases h
    exact ⟨rfl, 0, by simp, fun i _ => by simp [Indices.offset]⟩
  | .member offset rest, hsound, hknown, s, s', strideVariable, h => by
    obtain ⟨hvariable, d, hdvd, hrest⟩ := indices_shifted rest hsound hknown h
    refine ⟨hvariable, d, hdvd, fun i hi => ?_⟩
    rw [Indices.offset, Indices.offset, hrest i hi, BitVec.add_assoc]
  | .element index size rest, hsound, hknown, s, s', strideVariable, h => by
    have hindex : SoundAt sar run index := hsound.1.self
    rw [analyzeIndices] at h
    split at h
    · cases h
    · next hdiverge =>
      rw [Bool.not_eq_true] at hdiverge
      split at h
      · next hstride =>
        -- an index that is the same in all lanes
        rw [Bool.not_eq_true'] at hstride
        obtain ⟨hvariable, d, hdvd, hrest⟩ := indices_shifted rest hsound.2 hknown.2 h
        have hx := hindex.uniform (isUniform_of_mayDiverge_eq_false hdiverge hstride)
        refine ⟨hvariable, d, hdvd, fun i hi => ?_⟩
        rw [Indices.offset, Indices.offset, hrest i hi, hx i hi, BitVec.add_assoc]
      · split at h
        · next hconst =>
          obtain ⟨hvariable, d, hdvd, hrest⟩ := indices_shifted rest hsound.2 hknown.2 h
          refine ⟨hvariable, (analyze sar index).strideInt * size.sizeOrZero + d, ?_, fun i hi => ?_⟩
          · have hwrap := Int.dvd_bmod_sub_self (x := s + (analyze sar index).strideInt * size.sizeOrZero)
              (m := 2 ^ 64)
            have hsum := Int.dvd_add hdvd hwrap
            convert hsum using 1
            rw [int64]
            ring
          · have hx : (index.eval run i).toInt = _ := hindex.linear hconst i hi
            rw [Indices.offset, Indices.offset, hrest i hi, hx, hknown.1 hconst, mul_add, BitVec.ofInt_add,
              ← mul_assoc, add_mul, BitVec.ofInt_add, add_add_add_comm]
        · obtain ⟨hvariable, -⟩ := indices_shifted rest hsound.2 hknown.2 h
          cases hvariable


/-! ### Binary operators -/

theorem covers_start {x : BitVec w} (hw : w ≤ 64) :
    Covers (if (op.isOverflowing && !nuw) = true then ({ bitMask := ~~~0#64 } : OffsetInfo)
      else { bitMask := getTypeMask w }).bitMask x := by
  split
  · exact covers_not_zero hw
  · exact covers_getTypeMask hw

theorem describes_analyzeBinary {n : Nat} {lhs rhs : OffsetInfo}
    {x y : Nat → BitVec w} (hw : w ≤ 64) (hexact : ∀ i < n, op.Exact nuw (x i) (y i))
    (hlhs : Describes n .int lhs x) (hrhs : Describes n .int rhs y) (hx : KnowsConstant lhs x)
    (hy : KnowsConstant rhs y) :
    Describes n .int (analyzeBinary w op nuw lhs rhs) (fun i => op.eval (x i) (y i)) ↔
      (lhs.mayDiverge = false → rhs.mayDiverge = false →
        BinaryHandled n op lhs rhs (analyzeBinary w op nuw lhs rhs) fun i => op.eval (x i) (y i)) := by
  unfold analyzeBinary
  split
  · next hdiverge =>
    refine iff_of_true (describes_setMayDiverge fun _ _ => covers_getTypeMask hw) fun hl hr => ?_
    rw [hl, hr] at hdiverge
    cases hdiverge
  · next hdiverge =>
    rw [Bool.or_eq_true, not_or, Bool.not_eq_true, Bool.not_eq_true] at hdiverge
    obtain ⟨hl, hr⟩ := hdiverge
    rw [forall_prop_of_true hl, forall_prop_of_true hr]
    cases op with
    | add =>
      exact describes_combineAdd hlhs hrhs hl hr (fun i hi => (hexact i hi).1)
        fun i hi => (covers_start hw).inter ((hlhs.mask i hi).add hw (hrhs.mask i hi))
    | sub =>
      exact describes_combineSub hlhs hrhs hl hr (fun i hi => (hexact i hi).1) fun _ _ => covers_start hw
    | mul =>
      exact describes_combineMul hw hlhs hrhs hl hr hx hy (fun i hi => (hexact i hi).1)
        fun _ _ => covers_start hw
    | shl =>
      exact describes_combineShl hw hlhs hrhs hl hr hy (fun i hi => (hexact i hi).2.1)
        fun _ _ => covers_start hw
    | ashr => exact iff_of_true (describes_combineAShr hw hlhs hrhs hl hr hy hexact rfl) trivial
    | and => exact describes_combineAnd hlhs hrhs hl hr hx hy
    | or =>
      exact describes_combineOr hlhs hrhs hl hr hw (fun a b h => (BitVec.add_eq_or_of_and_eq_zero a b h).symm)
        (fun i hi => (hlhs.mask i hi).or (hrhs.mask i hi)) rfl
    | xor =>
      exact describes_combineOr hlhs hrhs hl hr hw (fun a b h => xor_eq_add_of_and_eq_zero h)
        (fun i hi => (hlhs.mask i hi).xor (hrhs.mask i hi)) rfl
    | lshr | udiv | sdiv | urem | srem =>
      exact iff_of_true (describes_setMayDiverge fun _ _ => covers_getTypeMask hw) trivial

/-! ### All values -/

theorem bitMask_analyzeGep {info : OffsetInfo} :
    (analyzeGep info indices).bitMask = .allOnes 64 := by
  unfold analyzeGep setStride
  grind [setMayDiverge, setKind, setVariableStride, copyStrideFrom]

theorem soundAt_gep {base : Expr p .ptr p} {indices : Indices p} (hp : p ≤ 64)
    (hvarying : (Expr.gep base indices).isVarying = true) (hbase : SoundAt sar run base)
    (hindices : indices.Everywhere (SoundAt sar run)) :
    SoundAt sar run (.gep base indices) ↔ Handled sar run (.gep base indices) := by
  refine ⟨fun h _ => ⟨h.uniform, h.linear⟩, fun h => ?_⟩
  by_cases hknown : ((analyze sar base).hasStride = false → (analyze sar base).strideInt = 0) ∧
      SizesKnown sar run indices
  · rw [SoundAt, analyze, if_pos hvarying]
    exact describes_gep hp hbase hknown.1 (indices_shifted indices hindices hknown.2)
  · refine ⟨(h hknown).1, (h hknown).2, fun i _ => ?_⟩
    rw [analyze, if_pos hvarying, bitMask_analyzeGep]
    exact covers_allOnes hp

/-- Where the values below are sound, a value is sound if its condition holds. -/
theorem soundAt_iff (hno : e.NoOverflow run) (hbelow : e.Below (SoundAt sar run)) :
    SoundAt sar run e ↔ HandledAt sar run e := by
  rcases Nat.lt_or_ge 64 w with hwide | hw
  · exact ⟨fun h => ⟨fun _ => h, fun hw => absurd hw (by omega)⟩, fun h => h.1 hwide⟩
  · suffices hiff : e.isVarying = true → (SoundAt sar run e ↔ Handled sar run e) by
      refine ⟨fun h => ⟨fun hwide => absurd hwide (by omega), fun _ hvarying => (hiff hvarying).1 h⟩, fun h => ?_⟩
      cases hvarying : e.isVarying with
      | true => exact (hiff hvarying).2 (h.2 hw hvarying)
      | false => exact soundAt_of_not_varying e hw hvarying hno hbelow
    intro hvarying
    have hfits := hno.self
    cases e with
    | const | argument | uniform | pointer => cases hvarying
    | globalId => exact iff_of_true (describes_id hfits fun _ _ => covers_getTypeMask hw) trivial
    | localId => exact iff_of_true (describes_id hfits fun _ hlane => covers_localId hw hlane) trivial
    | binary op nuw lhs rhs =>
      have hiff := describes_analyzeBinary hw hfits hbelow.1.self hbelow.2.self (knowsConstant sar run lhs)
        (knowsConstant sar run rhs)
      rw [SoundAt, Handled, analyze, if_pos hvarying]
      exact hiff
    | trunc =>
      rw [SoundAt, analyze, if_pos hvarying]
      exact iff_of_true (describes_trunc hw hbelow.self hfits) trivial
    | zext w h =>
      rw [SoundAt, Handled, analyze, if_pos hvarying]
      exact describes_zext hw h hbelow.self
    | sext w h =>
      rw [SoundAt, analyze, if_pos hvarying]
      exact iff_of_true (describes_sext hw h hbelow.self) trivial
    | ptrToInt =>
      rw [SoundAt, Handled, analyze, if_pos hvarying]
      exact describes_ptrToInt hw hbelow.self
    | intToPtr => exact describes_intToPtr hw hbelow.self
    | ptrCast => exact iff_of_true (describes_ptrCast hw hbelow.self) trivial
    | select cond =>
      rw [SoundAt, analyze, if_pos hvarying]
      exact iff_of_true (describes_select hw (fun hcond i _ => cond.eval_eq run i 0 hcond) hbelow.2.1.self
        hbelow.2.2.self) trivial
    | gep => exact soundAt_gep hw hvarying hbelow.1.self hbelow.2

def noKnownBits : StrideAnalysis 64 0#64 where
  knownZero _ := 0#64
  knownZero_sound _ _ _ _ _ i h := by simp at h

/-- Two lanes with the ids 0 and 1; all arguments are the same. -/
def twoLanes (argument : Nat) : Run 64 0#64 where
  lanes := 2
  argument w _ := .ofNat w argument
  uniform w _ := 0#w
  pointer _ := 4096#64
  globalId := 0
  localId := 0
  vscale := 1
  localId_le h := absurd rfl h

end ConstructionKit.Vecz
