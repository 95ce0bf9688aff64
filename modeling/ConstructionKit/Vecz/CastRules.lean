import ConstructionKit.Vecz.LaneRules
import Mathlib.Data.BitVec

/-! What the stride analysis says about casts, selects and addresses. -/

namespace ConstructionKit.Vecz

open ProofKit OffsetInfo

variable {w v n p i : Nat} {k : Class} {info src lhs rhs : OffsetInfo} {x : Nat → BitVec v}

/-! ### Casts of integers -/

theorem describes_trunc (hw : w ≤ 64) (hsrc : Describes n .int src x)
    (hexact : ∀ i < n, ((x i).setWidth w).toInt = (x i).toInt) :
    Describes n .int (analyzeCast w src) (fun i => (x i).setWidth w) := by
  unfold analyzeCast
  split
  · exact describes_setMayDiverge fun _ _ => covers_getTypeMask hw
  · rw [describes_copyStrideFrom]
    · refine ⟨fun h i hi => ?_, fun h i hi => ?_⟩
      · rw [hsrc.uniform h i hi]
      · rw [Shifted, hexact i hi, hexact 0 (by omega)]
        exact hsrc.linear h i hi
    · exact fun i hi => (hsrc.mask i hi).of_setWidth

theorem covers_sext (hw : w ≤ 64) (hv : v ≤ 64) (hsrc : Describes n .int src x) (hi : i < n) :
    Covers (if src.bitMask &&& ((getTypeMask v >>> 1) + 1#64) ≠ 0#64 then src.bitMask ||| ~~~getTypeMask v
      else src.bitMask &&& getTypeMask v) ((x i).signExtend w) := by
  rw [getTypeMask_eq]
  split
  · exact (hsrc.mask i hi).signExtend hw
  · next hsign =>
    refine (hsrc.mask i hi).signExtend_of_msb_eq_false hv ?_
    rcases Nat.eq_zero_or_pos v with rfl | hpos
    · exact BitVec.msb_of_zero_length rfl _
    · rw [twoPow_eq_widthMask hv hpos, not_not] at hsign
      exact (hsrc.mask i hi).msb_eq_false hv hsign

theorem describes_sext (hw : w ≤ 64) (h : v < w) (hsrc : Describes n .int src x) :
    Describes n .int (analyzeSExt w v src) (fun i => (x i).signExtend w) := by
  unfold analyzeSExt
  split
  · exact describes_setMayDiverge fun _ _ => covers_getTypeMask hw
  · rw [describes_copyStrideFrom]
    · refine ⟨fun hu i hi => ?_, fun hconst i hi => ?_⟩
      · rw [hsrc.uniform hu i hi]
      · rw [Shifted, BitVec.toInt_signExtend_of_le (by omega), BitVec.toInt_signExtend_of_le (by omega)]
        exact hsrc.linear hconst i hi
    · exact fun i hi => covers_sext hw (by omega) hsrc hi

theorem toInt_zext {x : BitVec v} (h : v < w) :
    (x.setWidth w).toInt = x.toInt + if x.msb = true then ((2 ^ v : Nat) : Int) else 0 := by
  have hpow : 2 * 2 ^ v ≤ 2 ^ w := by
    rw [← Nat.pow_succ']
    exact Nat.pow_le_pow_right (by decide) h
  rw [BitVec.toInt_eq_toNat_cond, BitVec.toNat_setWidth_of_le (by omega), if_pos (by omega),
    BitVec.toInt_eq_msb_cond]
  split <;> omega

/-- Where the sign changes, zero extension adds another distance. -/
theorem zext_shifted_iff {x y : BitVec v} (h : v < w) {d : Int} (hd : y.toInt = x.toInt + d) :
    (y.setWidth w).toInt = (x.setWidth w).toInt + d ↔ y.msb = x.msb := by
  rw [toInt_zext h, toInt_zext h, hd]
  cases x.msb <;> cases y.msb <;> simp
  all_goals omega

/-- A sign that is the same in all lanes. -/
def SameSign (n : Nat) (x : Nat → BitVec v) : Prop := ∀ i < n, (x i).msb = (x 0).msb

theorem describes_zext (hw : w ≤ 64) (h : v < w) (hsrc : Describes n .int src x) :
    Describes n .int (analyzeZExt p w v src) (fun i => (x i).setWidth w) ↔
      ((analyzeZExt p w v src).isStrideConstantInt = true → SameSign n x) := by
  unfold analyzeZExt
  dsimp only
  split
  · exact iff_of_true (describes_setMayDiverge fun _ _ => covers_getTypeMask hw)
      fun hconst => absurd hconst not_isStrideConstantInt_setMayDiverge
  · split
    · exact iff_of_true (describes_setMayDiverge fun _ _ => covers_getTypeMask hw)
        fun hconst => absurd hconst not_isStrideConstantInt_setMayDiverge
    · have hmask : ∀ i < n, Covers (src.bitMask &&& getTypeMask v) ((x i).setWidth w) :=
        fun i hi => ((hsrc.mask i hi).inter (covers_getTypeMask (by omega))).of_setWidth
      rw [describes_copyStrideFrom hmask]
      refine ⟨fun hd hconst i hi => ?_, fun hsign => ⟨fun hu i hi => ?_, fun hconst i hi => ?_⟩⟩
      · exact (zext_shifted_iff h (hsrc.linear hconst i hi)).1 (hd.2 hconst i hi)
      · rw [hsrc.uniform hu i hi]
      · exact (zext_shifted_iff h (hsrc.linear hconst i hi)).2 (hsign hconst i hi)

/-! ### Casts of addresses -/

theorem describes_ptrToInt {x : Nat → BitVec p} (hw : w ≤ 64) (hsrc : Describes n .ptr src x) :
    Describes n .int (analyzeCast w src) (fun i => (x i).setWidth w) ↔
      ((analyzeCast w src).isStrideConstantInt = true → ∀ i < n,
        Shifted .int ((x 0).setWidth w) (i * (analyzeCast w src).strideInt) ((x i).setWidth w)) := by
  refine ⟨fun h => h.linear, fun hlinear => ⟨fun hu i hi => ?_, hlinear, fun i hi => ?_⟩⟩
  · unfold analyzeCast at hu
    split at hu
    · cases hu
    · rw [hsrc.uniform hu i hi]
  · unfold analyzeCast
    split
    · exact covers_getTypeMask hw
    · exact (hsrc.mask i hi).of_setWidth

theorem ofInt_eq_of_dvd_sub {a b : Int} (h : ((2 ^ p : Nat) : Int) ∣ a - b) :
    BitVec.ofInt p a = BitVec.ofInt p b := by
  obtain ⟨q, hq⟩ := h
  have hzero : BitVec.ofInt p ((2 ^ p : Nat) : Int) = 0#p := by
    rw [BitVec.ofInt_natCast]
    apply BitVec.eq_of_toNat_eq
    rw [BitVec.toNat_ofNat, BitVec.toNat_ofNat, Nat.mod_self, Nat.zero_mod]
  rw [show a = b + ((2 ^ p : Nat) : Int) * q by omega, BitVec.ofInt_add, BitVec.ofInt_mul, hzero,
    BitVec.zero_mul, BitVec.add_zero]

theorem setWidth_eq_ofInt (x : BitVec v) :
    x.setWidth p = BitVec.ofInt p x.toInt + if x.msb = true then BitVec.ofNat p (2 ^ v) else 0#p := by
  have hnat : (x.toNat : Int) = x.toInt + if x.msb = true then ((2 ^ v : Nat) : Int) else 0 := by
    rw [BitVec.toInt_eq_msb_cond]
    split <;> omega
  rw [← BitVec.ofNat_toNat, ← BitVec.ofInt_natCast, hnat, BitVec.ofInt_add]
  split
  · rw [BitVec.ofInt_natCast]
  · rfl

theorem ofNat_two_pow_eq_zero_iff : BitVec.ofNat p (2 ^ v) = 0#p ↔ p ≤ v := by
  rw [← BitVec.toNat_inj, BitVec.toNat_ofNat, BitVec.toNat_ofNat, Nat.zero_mod, ← Nat.dvd_iff_mod_eq_zero,
    Nat.pow_dvd_pow_iff_le_right (by decide)]

theorem setWidth_shifted_iff {x y : BitVec v} {d : Int} (hd : y.toInt = x.toInt + d) :
    y.setWidth p = x.setWidth p + BitVec.ofInt p d ↔ (v < p → y.msb = x.msb) := by
  rw [setWidth_eq_ofInt y, setWidth_eq_ofInt x, hd, BitVec.ofInt_add, add_right_comm _ _ (BitVec.ofInt p d),
    BitVec.add_right_inj]
  cases hy : y.msb <;> cases hx : x.msb
  · simp
  · rw [eq_comm]
    simp only [Bool.false_eq_true, if_false, if_true, ofNat_two_pow_eq_zero_iff, imp_false, not_lt]
  · simp only [Bool.true_eq_false, Bool.false_eq_true, if_false, if_true,
      ofNat_two_pow_eq_zero_iff, imp_false, not_lt]
  · simp

theorem describes_intToPtr (hp : p ≤ 64) (hsrc : Describes n .int src x) :
    Describes n .ptr (({} : OffsetInfo).copyStrideFrom src) (fun i => (x i).setWidth p) ↔
      (src.isStrideConstantInt = true → v < p → SameSign n x) := by
  rw [describes_copyStrideFrom fun _ _ => covers_allOnes hp]
  refine ⟨fun hd hconst hlt i hi => ?_, fun hsign => ⟨fun hu i hi => ?_, fun hconst i hi => ?_⟩⟩
  · exact (setWidth_shifted_iff (hsrc.linear hconst i hi)).1 (hd.2 hconst i hi) hlt
  · rw [hsrc.uniform hu i hi]
  · exact (setWidth_shifted_iff (hsrc.linear hconst i hi)).2 fun hlt => hsign hconst hlt i hi

theorem describes_ptrCast {x : Nat → BitVec p} (hp : p ≤ 64) (hsrc : Describes n .ptr src x) :
    Describes n .ptr (({} : OffsetInfo).copyStrideFrom src) x :=
  (describes_copyStrideFrom fun _ _ => covers_allOnes hp).2 ⟨hsrc.uniform, hsrc.linear⟩

/-! ### Selects -/

theorem covers_startInfo {x : BitVec w} (hw : w ≤ 64) : Covers (startInfo k w).bitMask x := by
  cases k with
  | int => exact covers_getTypeMask hw
  | ptr => exact covers_allOnes hw

theorem describes_select {c : Nat → BitVec 1} {x y : Nat → BitVec w} {condVarying : Bool} (hw : w ≤ 64)
    (hcond : condVarying = false → ∀ i < n, c i = c 0) (hlhs : Describes n k lhs x) (hrhs : Describes n k rhs y) :
    Describes n k (analyzeSelect k w condVarying lhs rhs) (fun i => if c i = 1#1 then x i else y i) := by
  unfold analyzeSelect
  split
  · exact describes_setMayDiverge fun _ _ => covers_startInfo hw
  · next hvarying =>
    rw [Bool.not_eq_true] at hvarying
    split
    · next h =>
      simp only [Bool.and_eq_true, decide_eq_true_eq] at h
      obtain ⟨⟨⟨hls, hrs⟩, heq⟩, hconst⟩ := h
      have hconst' : rhs.isStrideConstantInt = true := by
        simp_all [isStrideConstantInt, hasStride]
      rw [describes_copyStride hls fun _ _ => covers_startInfo hw]
      intro _ i hi
      rw [hcond hvarying i hi]
      split
      · exact hlhs.linear hconst i hi
      · rw [heq]
        exact hrhs.linear hconst' i hi
    · exact describes_setMayDiverge fun _ _ => covers_startInfo hw

/-! ### Addresses of elements -/

theorem ofInt_mul_eq (hp : p ≤ 64) {s t : Int} (h : ((2 ^ 64 : Nat) : Int) ∣ s - t) (i : Nat) :
    BitVec.ofInt p (i * s) = BitVec.ofInt p (i * t) := by
  have hpow : ((2 ^ p : Nat) : Int) ∣ ((2 ^ 64 : Nat) : Int) := Int.natCast_dvd_natCast.2 (Nat.pow_dvd_pow 2 hp)
  apply ofInt_eq_of_dvd_sub
  rw [← mul_sub]
  exact Dvd.dvd.mul_left (hpow.trans h) _

theorem base_shifted {b : Nat → BitVec p} (hbase : Describes n .ptr info b) (hdiverge : info.mayDiverge = false)
    (hstale : info.hasStride = false → info.strideInt = 0)
    (hvariable : (info.hasStride && info.strideInt = 0) = false) (hi : i < n) :
    b i = b 0 + BitVec.ofInt p (i * info.strideInt) := by
  cases hstride : info.hasStride with
  | true =>
    refine hbase.linear ?_ i hi
    simp_all [hasStride, isStrideConstantInt]
  | false =>
    rw [hbase.uniform (isUniform_of_mayDiverge_eq_false hdiverge hstride) i hi, hstale hstride]
    exact (BitVec.add_zero _).symm

theorem describes_gep {b o : Nat → BitVec p} {indices : Int → Bool → Option (Int × Bool)} (hp : p ≤ 64)
    (hbase : Describes n .ptr info b) (hstale : info.hasStride = false → info.strideInt = 0)
    (hindices : ∀ {s s' : Int} {strideVariable : Bool}, indices s strideVariable = some (s', false) →
      strideVariable = false ∧ ∃ d : Int, ((2 ^ 64 : Nat) : Int) ∣ s' - (s + d) ∧
        ∀ i < n, o i = o 0 + BitVec.ofInt p (i * d)) :
    Describes n .ptr (analyzeGep info indices) (fun i => b i + o i) := by
  have hmask : ∀ i < n, Covers (BitVec.allOnes 64) (b i + o i) := fun _ _ => covers_allOnes hp
  unfold analyzeGep
  dsimp only
  split
  · exact describes_setMayDiverge hmask
  · next hdiverge =>
    rw [Bool.not_eq_true] at hdiverge
    split
    · exact describes_setMayDiverge hmask
    · next s' strideVariable hsome =>
      cases strideVariable with
      | true => exact describes_setVariableStride hmask
      | false =>
        obtain ⟨hvariable, d, hdvd, ho⟩ := hindices hsome
        have hlinear : ∀ i < n, b i + o i = b 0 + o 0 + BitVec.ofInt p (i * s') := by
          intro i hi
          rw [ofInt_mul_eq hp hdvd, mul_add, BitVec.ofInt_add, ho i hi,
            base_shifted hbase hdiverge hstale hvariable hi, add_add_add_comm]
          rfl
        refine describes_setStride hlinear (fun hzero i hi => ?_) hmask
        rw [hlinear i hi, hzero]
        exact BitVec.add_zero _

end ConstructionKit.Vecz
