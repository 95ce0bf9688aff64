import ConstructionKit.Vecz.OffsetInfo
import Mathlib.Tactic.Ring

/-! What each rule of the stride analysis says about the values of the lanes. -/

namespace ConstructionKit.Vecz

open ProofKit OffsetInfo

variable {w n c i : Nat} {k : Class} {info this lhs rhs : OffsetInfo} {x y z : Nat → BitVec w}
  {v : BitVec w} {stride : Int}

/-! ### What an `OffsetInfo` says -/

/-- A value is another one plus a distance, as an integer or as an address. -/
def Shifted : Class → BitVec w → Int → BitVec w → Prop
  | .int, x, d, y => y.toInt = x.toInt + d
  | .ptr, x, d, y => y = x + .ofInt w d

instance {x y : BitVec w} {d : Int} : ∀ k : Class, Decidable (Shifted k x d y)
  | .int => inferInstanceAs (Decidable (y.toInt = x.toInt + d))
  | .ptr => inferInstanceAs (Decidable (y = x + .ofInt w d))

/-- A value that is uniform is the same in all lanes, one with a constant stride grows by it from lane to
lane, and the mask has all bits that are set in a lane. -/
structure Describes (n : Nat) (k : Class) (info : OffsetInfo) (z : Nat → BitVec w) : Prop where
  uniform : info.isUniform = true → ∀ i < n, z i = z 0
  linear : info.isStrideConstantInt = true → ∀ i < n, Shifted k (z 0) (i * info.strideInt) (z i)
  mask : ∀ i < n, Covers info.bitMask (z i)

/-- With more than one lane, a stride is one of 64 bits. -/
def FitsInt64 (n : Nat) (stride : Int) : Prop := 2 ≤ n → int64 stride = stride

theorem isUniform_of_mayDiverge_eq_false (h : info.mayDiverge = false) (hstride : info.hasStride = false) :
    info.isUniform = true := by
  cases hk : info.kind <;> simp_all [mayDiverge, hasStride, isUniform]

theorem not_isStrideConstantInt (h : info.hasStride = false) : ¬info.isStrideConstantInt = true := by
  simp_all [hasStride, isStrideConstantInt]

theorem combineKinds_of_hasStride_eq_false (hlhs : lhs.hasStride = false) (hrhs : rhs.hasStride = false) :
    combineKinds lhs.kind rhs.kind ≠ .linear := by
  unfold combineKinds
  cases hl : lhs.kind <;> cases hr : rhs.kind <;> simp_all [hasStride]

/-! ### Results -/

theorem describes_setMayDiverge (hmask : ∀ i < n, Covers this.bitMask (z i)) :
    Describes n k this.setMayDiverge z where
  uniform h := by simp [setMayDiverge, setKind, isUniform] at h
  linear h := by simp [setMayDiverge, setKind, isStrideConstantInt] at h
  mask := hmask

theorem not_isStrideConstantInt_setMayDiverge : ¬this.setMayDiverge.isStrideConstantInt = true := by
  simp [setMayDiverge, setKind, isStrideConstantInt]

theorem describes_setVariableStride (hmask : ∀ i < n, Covers this.bitMask (z i)) :
    Describes n k this.setVariableStride z where
  uniform h := by simp [setVariableStride, isUniform] at h
  linear h := by simp [setVariableStride, isStrideConstantInt] at h
  mask := hmask

theorem describes_setKind {kind : OffsetKind} (hkind : kind ≠ .linear) (heq : ∀ i < n, z i = z 0)
    (hmask : ∀ i < n, Covers this.bitMask (z i)) : Describes n k (this.setKind kind) z where
  uniform _ := heq
  linear h := by simp [setKind, isStrideConstantInt, hkind] at h
  mask := hmask

theorem describes_copyStrideFrom (hmask : ∀ i < n, Covers this.bitMask (z i)) :
    Describes n k (this.copyStrideFrom info) z ↔
      (info.isUniform = true → ∀ i < n, z i = z 0) ∧
        (info.isStrideConstantInt = true → ∀ i < n, Shifted k (z 0) (i * info.strideInt) (z i)) :=
  ⟨fun h => ⟨h.uniform, h.linear⟩, fun h => ⟨h.1, h.2, hmask⟩⟩

theorem not_isUniform_of_hasStride (h : info.hasStride = true) : info.isUniform = false := by
  simp_all [hasStride, isUniform]

theorem describes_copyStride (hstride : info.hasStride = true) (hmask : ∀ i < n, Covers this.bitMask (z i)) :
    Describes n k (this.copyStrideFrom info) z ↔
      (info.isStrideConstantInt = true → ∀ i < n, Shifted k (z 0) (i * info.strideInt) (z i)) := by
  rw [describes_copyStrideFrom hmask, not_isUniform_of_hasStride hstride]
  simp

theorem describes_setStride (hlinear : ∀ i < n, Shifted k (z 0) (i * stride) (z i))
    (hzero : stride = 0 → ∀ i < n, z i = z 0) (hmask : ∀ i < n, Covers this.bitMask (z i)) :
    Describes n k (this.setStride stride) z := by
  by_cases hstride : stride = 0
  · rw [hstride]
    exact describes_setKind (by decide) (hzero hstride) hmask
  · rw [setStride, if_neg hstride]
    exact ⟨fun h => by simp [isUniform] at h, fun _ => hlinear, hmask⟩

/-- What `setStride` says of a value whose stride is known, which need not have 64 bits. -/
theorem describes_setStride_int64 (hlinear : ∀ i < n, (z i).toInt = (z 0).toInt + i * stride)
    (hmask : ∀ i < n, Covers this.bitMask (z i)) :
    Describes n .int (this.setStride (int64 stride)) z ↔ FitsInt64 n stride := by
  constructor
  · intro h hn
    have hone := hlinear 1 (by omega)
    by_cases hzero : int64 stride = 0
    · rw [hzero] at h
      rw [h.uniform rfl 1 (by omega)] at hone
      omega
    · rw [setStride, if_neg hzero] at h
      have hshift : (z 1).toInt = (z 0).toInt + (1 : Nat) * int64 stride :=
        h.linear (by simp [isStrideConstantInt, hzero]) 1 (by omega)
      omega
  · intro hfits
    rcases Nat.lt_or_ge n 2 with hn | hn
    · have hfirst : ∀ i < n, i = 0 := by omega
      refine describes_setStride (fun i hi => ?_) (fun _ i hi => ?_) hmask
      · rw [hfirst i hi]
        simp [Shifted]
      · rw [hfirst i hi]
    · rw [hfits hn]
      refine describes_setStride hlinear (fun hzero i hi => ?_) hmask
      have hi := hlinear i hi
      rw [hzero, mul_zero, add_zero] at hi
      exact BitVec.eq_of_toInt_eq hi

/-! ### Masks -/

theorem getTypeMask_eq (w : Nat) : getTypeMask w = widthMask 64 w := by
  unfold getTypeMask
  split
  · next hw => exact one_shiftLeft_sub_one hw
  · next hw =>
    apply BitVec.eq_of_getLsbD_eq
    intro i hi
    rw [getLsbD_widthMask, BitVec.not_zero, BitVec.getLsbD_allOnes, decide_eq_true hi,
      decide_eq_true (show i < w by omega)]
    rfl

theorem covers_getTypeMask {x : BitVec w} (hw : w ≤ 64) : Covers (getTypeMask w) x := by
  rw [getTypeMask_eq]
  exact covers_widthMask hw

theorem covers_not_zero {x : BitVec w} (hw : w ≤ 64) : Covers (~~~0#64) x := by
  exact covers_allOnes hw

/-! ### Sums and differences -/

section Binary

variable (hlhs : Describes n .int lhs x) (hrhs : Describes n .int rhs y) (hl : lhs.mayDiverge = false)
  (hr : rhs.mayDiverge = false)

include hlhs hrhs hl hr

theorem describes_combineKinds (hls : lhs.hasStride = false) (hrs : rhs.hasStride = false)
    (hz : ∀ i < n, x i = x 0 → y i = y 0 → z i = z 0) (hmask : ∀ i < n, Covers this.bitMask (z i)) :
    Describes n .int (this.setKind (combineKinds lhs.kind rhs.kind)) z := by
  have hx := hlhs.uniform (isUniform_of_mayDiverge_eq_false hl hls)
  have hy := hrhs.uniform (isUniform_of_mayDiverge_eq_false hr hrs)
  refine describes_setKind (combineKinds_of_hasStride_eq_false hls hrs) (fun i hi => ?_) hmask
  exact hz i hi (hx i hi) (hy i hi)

section Linear

variable {f : Int → Int → Int} (hexact : ∀ i < n, (z i).toInt = f (x i).toInt (y i).toInt)
  (hmask : ∀ i < n, Covers this.bitMask (z i))

include hexact hmask

omit hl hr in
theorem describes_bothStrides (hf : ∀ a b c d i, f (a + i * c) (b + i * d) = f a b + i * f c d) :
    Describes n .int
        (if lhs.isStrideConstantInt && rhs.isStrideConstantInt then
          this.setStride (int64 (f lhs.strideInt rhs.strideInt))
        else this.setVariableStride) z ↔
      (lhs.isStrideConstantInt = true → rhs.isStrideConstantInt = true →
        FitsInt64 n (f lhs.strideInt rhs.strideInt)) := by
  split
  · next hconst =>
    rw [Bool.and_eq_true] at hconst
    rw [describes_setStride_int64 (fun i hi => ?_) hmask]
    · exact ⟨fun h _ _ => h, fun h => h hconst.1 hconst.2⟩
    · have hx : (x i).toInt = _ := hlhs.linear hconst.1 i hi
      have hy : (y i).toInt = _ := hrhs.linear hconst.2 i hi
      rw [hexact i hi, hexact 0 (by omega), hx, hy, hf]
  · next hconst =>
    refine iff_of_true (describes_setVariableStride hmask) fun hcl hcr => ?_
    rw [hcl, hcr] at hconst
    exact absurd rfl hconst

omit hl in
theorem describes_leftStride (hls : lhs.hasStride = true) (hrs : rhs.hasStride = false)
    (hf : ∀ a b c, f (a + c) b = f a b + c) : Describes n .int (this.copyStrideFrom lhs) z := by
  refine (describes_copyStride hls hmask).2 fun hconst i hi => ?_
  have hx : (x i).toInt = _ := hlhs.linear hconst i hi
  have hy := hrhs.uniform (isUniform_of_mayDiverge_eq_false hr hrs) i hi
  rw [Shifted, hexact i hi, hexact 0 (by omega), hx, hy, hf]

theorem describes_noStride (hls : lhs.hasStride = false) (hrs : rhs.hasStride = false) :
    Describes n .int (this.setKind (combineKinds lhs.kind rhs.kind)) z := by
  refine describes_combineKinds hlhs hrhs hl hr hls hrs (fun i hi hx hy => ?_) hmask
  apply BitVec.eq_of_toInt_eq
  rw [hexact i hi, hexact 0 (by omega), hx, hy]

end Linear

theorem describes_combineAdd (hexact : ∀ i < n, (z i).toInt = (x i).toInt + (y i).toInt)
    (hmask : ∀ i < n, Covers
      (this.bitMask &&& (lhs.bitMask ||| rhs.bitMask ||| (lhs.bitMask + rhs.bitMask))) (z i)) :
    Describes n .int (this.combineAdd lhs rhs) z ↔
      (lhs.isStrideConstantInt = true → rhs.isStrideConstantInt = true →
        FitsInt64 n (lhs.strideInt + rhs.strideInt)) := by
  unfold combineAdd
  split
  · next hls =>
    split
    · exact describes_bothStrides (f := (· + ·)) hlhs hrhs hexact hmask (by intros; ring)
    · next hrs =>
      rw [Bool.not_eq_true] at hrs
      exact iff_of_true (describes_leftStride hlhs hrhs hr hexact hmask hls hrs (by intros; ring))
        fun _ hcr => absurd hcr (not_isStrideConstantInt hrs)
  · next hls =>
    rw [Bool.not_eq_true] at hls
    refine iff_of_true ?_ fun hcl => absurd hcl (not_isStrideConstantInt hls)
    split
    · next hrs =>
      have hcomm : ∀ i < n, (z i).toInt = (y i).toInt + (x i).toInt := by
        intro i hi
        rw [hexact i hi, add_comm]
      exact describes_leftStride hrhs hlhs hl hcomm hmask hrs hls (by intros; ring)
    · next hrs => exact describes_noStride hlhs hrhs hl hr hexact hmask hls (Bool.not_eq_true _ ▸ hrs)

theorem describes_combineSub (hexact : ∀ i < n, (z i).toInt = (x i).toInt - (y i).toInt)
    (hmask : ∀ i < n, Covers this.bitMask (z i)) :
    Describes n .int (this.combineSub lhs rhs) z ↔
      (rhs.isStrideConstantInt = true →
        (lhs.isStrideConstantInt = true → FitsInt64 n (lhs.strideInt - rhs.strideInt)) ∧
          (lhs.hasStride = false → FitsInt64 n (-rhs.strideInt))) := by
  unfold combineSub
  split
  · next hls =>
    rw [hls]
    simp only [Bool.true_eq_false, false_imp_iff, and_true]
    split
    · refine (describes_bothStrides (f := (· - ·)) hlhs hrhs hexact hmask (by intros; ring)).trans ?_
      exact ⟨fun h hcr hcl => h hcl hcr, fun h hcl hcr => h hcr hcl⟩
    · next hrs =>
      rw [Bool.not_eq_true] at hrs
      exact iff_of_true (describes_leftStride hlhs hrhs hr hexact hmask hls hrs (by intros; ring))
        fun hcr => absurd hcr (not_isStrideConstantInt hrs)
  · next hls =>
    rw [Bool.not_eq_true] at hls
    have hx := hlhs.uniform (isUniform_of_mayDiverge_eq_false hl hls)
    split
    · next hrs =>
      split
      · next hconst =>
        rw [describes_setStride_int64 (fun i hi => ?_) hmask]
        · exact ⟨fun h _ => ⟨fun hcl => absurd hcl (not_isStrideConstantInt hls), fun _ => h⟩,
            fun h => (h hconst).2 hls⟩
        · have hy : (y i).toInt = _ := hrhs.linear hconst i hi
          rw [hexact i hi, hexact 0 (by omega), hx i hi, hy]
          ring
      · next hconst => exact iff_of_true (describes_setVariableStride hmask) fun hcr => absurd hcr hconst
    · next hrs =>
      rw [Bool.not_eq_true] at hrs
      exact iff_of_true (describes_noStride hlhs hrhs hl hr hexact hmask hls hrs)
        fun hcr => absurd hcr (not_isStrideConstantInt hrs)

end Binary


/-! ### Shifts to the right -/

/-- A shift to the right of values that differ by multiples of what is lost. -/
theorem sshiftRight_linear (hlinear : ∀ i < n, (x i).toInt = (x 0).toInt + i * stride)
    (hdvd : ((2 ^ c : Nat) : Int) ∣ stride) (hi : i < n) :
    ((x i).sshiftRight c).toInt = ((x 0).sshiftRight c).toInt + i * (stride >>> c) := by
  obtain ⟨q, rfl⟩ := hdvd
  have hpos : ((2 ^ c : Nat) : Int) ≠ 0 := by exact_mod_cast (Nat.two_pow_pos c).ne'
  rw [BitVec.toInt_sshiftRight, BitVec.toInt_sshiftRight, Int.shiftRight_eq_div_pow, Int.shiftRight_eq_div_pow,
    Int.shiftRight_eq_div_pow, hlinear i hi, mul_left_comm, Int.add_mul_ediv_left _ _ hpos,
    Int.mul_ediv_cancel_left _ hpos]

theorem two_pow_dvd_toInt {x : BitVec w} (hc : c ≤ w) (h : 2 ^ c ∣ x.toNat) :
    ((2 ^ c : Nat) : Int) ∣ x.toInt := by
  have hnat : ((2 ^ c : Nat) : Int) ∣ (x.toNat : Int) := Int.natCast_dvd_natCast.2 h
  have hpow : ((2 ^ c : Nat) : Int) ∣ ((2 ^ w : Nat) : Int) := Int.natCast_dvd_natCast.2 (Nat.pow_dvd_pow 2 hc)
  rw [BitVec.toInt_eq_toNat_cond]
  split
  · exact hnat
  · exact Int.dvd_sub hnat hpow

theorem two_pow_dvd_of_ofInt (hc : c ≤ 64)
    (h : BitVec.ofInt 64 stride &&& widthMask 64 c = 0#64) : ((2 ^ c : Nat) : Int) ∣ stride := by
  have hdvd : 2 ^ c ∣ (BitVec.ofInt 64 stride).toNat := (covers_self _).two_pow_dvd hc h
  have hpow : ((2 ^ c : Nat) : Int) ∣ ((2 ^ 64 : Nat) : Int) := Int.natCast_dvd_natCast.2 (Nat.pow_dvd_pow 2 hc)
  rw [← Int.natCast_dvd_natCast, BitVec.toNat_ofInt, Int.toNat_of_nonneg (Int.emod_nonneg _ (by decide))] at hdvd
  exact (Int.dvd_iff_dvd_of_dvd_sub (hpow.trans (Int.dvd_sub_self_of_emod_eq rfl))).1 hdvd

/-- The stride of an arithmetic shift, if no bits of it or none of the value are lost. -/
theorem describes_ashr_stride (hlhs : Describes n .int lhs x) (hconst : lhs.isStrideConstantInt = true)
    (hc : c < 64) (hcw : 0 < n → c ≤ w)
    (h : BitVec.ofInt 64 lhs.strideInt &&& ((1#64 <<< c) - 1#64) = 0#64 ∨
      lhs.bitMask &&& ((1#64 <<< c) - 1#64) = 0#64)
    (hmask : ∀ i < n, Covers this.bitMask ((x i).sshiftRight c)) :
    Describes n .int (this.setStride (lhs.strideInt >>> c)) (fun i => (x i).sshiftRight c) := by
  rcases Nat.lt_or_ge n 2 with hn | hn
  · have hfirst : ∀ i < n, i = 0 := by omega
    refine describes_setStride (fun i hi => ?_) (fun _ i hi => ?_) hmask
    · rw [hfirst i hi]
      simp [Shifted]
    · rw [hfirst i hi]
  · have hlinear : ∀ i < n, (x i).toInt = (x 0).toInt + i * lhs.strideInt := hlhs.linear hconst
    have hdvd : ((2 ^ c : Nat) : Int) ∣ lhs.strideInt := by
      rw [one_shiftLeft_sub_one hc] at h
      rcases h with h | h
      · exact two_pow_dvd_of_ofInt (by omega) h
      · have hone := two_pow_dvd_toInt (hcw (by omega)) ((hlhs.mask 1 (by omega)).two_pow_dvd (by omega) h)
        have hzero := two_pow_dvd_toInt (hcw (by omega)) ((hlhs.mask 0 (by omega)).two_pow_dvd (by omega) h)
        have hstride : lhs.strideInt = (x 1).toInt - (x 0).toInt := by
          have := hlinear 1 (by omega)
          omega
        rw [hstride]
        exact Int.dvd_sub hone hzero
    have hshift := fun i hi => sshiftRight_linear hlinear hdvd (i := i) hi
    refine describes_setStride hshift (fun hzero i hi => ?_) hmask
    have hi := hshift i hi
    rw [hzero, mul_zero, add_zero] at hi
    exact BitVec.eq_of_toInt_eq hi

/-! ### Constants -/

/-- The info of a constant, in an analysis of all operands. -/
def KnowsConstant (info : OffsetInfo) (x : Nat → BitVec w) : Prop :=
  info.kind = .constant ∨ info.actualValue ≠ none →
    ∃ v : BitVec w, info = { kind := .constant, actualValue := some ⟨w, v⟩, bitMask := v.setWidth 64 } ∧
      ∀ i, x i = v

theorem getValueAsConstantInt_const {mask : BitVec 64} (hw : w ≤ 64) :
    getValueAsConstantInt { kind := .constant, actualValue := some ⟨w, v⟩, bitMask := mask } = v.toInt :=
  BitVec.toInt_signExtend_of_le hw

theorem getZExtValue_toNat (hw : w ≤ 64) : (ConstantInt.getZExtValue ⟨w, v⟩).toNat = v.toNat := by
  rw [ConstantInt.getZExtValue, BitVec.toNat_setWidth_of_le hw]

theorem kind_ne_constant_of_hasStride (h : info.hasStride = true) : info.kind ≠ .constant := by
  simp_all [hasStride]

theorem and_eq_of_constant (hlhs : Describes n .int lhs x) (hy : KnowsConstant rhs y)
    (hkind : rhs.kind = .constant) (hbits : lhs.bitMask &&& rhs.bitMask = lhs.bitMask) (hi : i < n) :
    x i &&& y i = x i := by
  obtain ⟨v, rfl, hv⟩ := hy (.inl hkind)
  apply BitVec.eq_of_getLsbD_eq
  intro k hk
  rw [BitVec.getLsbD_and, hv]
  by_cases hbit : (x i).getLsbD k = true
  · have hand := congrArg (BitVec.getLsbD · k) hbits
    simp only [BitVec.getLsbD_and, hlhs.mask i hi k hbit] at hand
    simp at hand
    rw [hbit, hand.2]
    rfl
  · rw [Bool.not_eq_true] at hbit
    rw [hbit, Bool.false_and]

theorem describes_and_uniform (hlhs : Describes n .int lhs x) (hy : KnowsConstant rhs y)
    (hls : lhs.hasStride = true) (hbits : lhs.bitMask &&& rhs.bitMask = lhs.bitMask)
    (hmask : ∀ i < n, Covers this.bitMask (x i &&& y i))
    (h : rhs.kind ≠ .constant → lhs.isStrideConstantInt = true →
      ∀ i < n, Shifted .int (x 0 &&& y 0) (i * lhs.strideInt) (x i &&& y i)) :
    Describes n .int (this.copyStrideFrom lhs) (fun i => x i &&& y i) := by
  refine (describes_copyStride hls hmask).2 fun hconst i hi => ?_
  by_cases hkind : rhs.kind = .constant
  · rw [and_eq_of_constant hlhs hy hkind hbits hi, and_eq_of_constant hlhs hy hkind hbits (by omega)]
    exact hlhs.linear hconst i hi
  · exact h hkind hconst i hi

section Constants

variable (hw : w ≤ 64) (hlhs : Describes n .int lhs x) (hrhs : Describes n .int rhs y)
  (hl : lhs.mayDiverge = false) (hr : rhs.mayDiverge = false)

include hw

theorem describes_mul_constant (hlhs : Describes n .int lhs x) (hy : KnowsConstant rhs y)
    (hexact : ∀ i < n, (z i).toInt = (x i).toInt * (y i).toInt)
    (hmask : ∀ i < n, Covers this.bitMask (z i)) :
    Describes n .int
        (if lhs.isStrideConstantInt && rhs.kind = .constant then
          this.setStride (int64 (lhs.strideInt * rhs.getValueAsConstantInt))
        else this.setVariableStride) z ↔
      (lhs.isStrideConstantInt = true → rhs.kind = .constant →
        FitsInt64 n (lhs.strideInt * rhs.getValueAsConstantInt)) := by
  split
  · next h =>
    rw [Bool.and_eq_true, decide_eq_true_eq] at h
    obtain ⟨v, rfl, hv⟩ := hy (.inl h.2)
    rw [getValueAsConstantInt_const hw, describes_setStride_int64 (fun i hi => ?_) hmask]
    · exact ⟨fun hfits _ _ => hfits, fun hfits => hfits h.1 rfl⟩
    · have hx : (x i).toInt = _ := hlhs.linear h.1 i hi
      rw [hexact i hi, hexact 0 (by omega), hv, hv, hx]
      ring
  · next h =>
    refine iff_of_true (describes_setVariableStride hmask) fun hconst hkind => absurd ?_ h
    rw [hconst, hkind]
    rfl

theorem covers_ashr (hlhs : Describes n .int lhs x) (hi : i < n) : Covers (getTypeMask w &&&
      if lhs.bitMask &&& ((getTypeMask w >>> 1) + 1#64) ≠ 0#64 then
        lhs.bitMask >>> c ||| ~~~(getTypeMask w >>> c)
      else lhs.bitMask >>> c) ((x i).sshiftRight c) := by
  refine (covers_getTypeMask hw).inter ?_
  rw [getTypeMask_eq]
  split
  · exact (hlhs.mask i hi).sshiftRight hw c
  · next hsign =>
    rcases Nat.eq_zero_or_pos w with rfl | hpos
    · intro k hk
      exact absurd (BitVec.lt_of_getLsbD hk) (by omega)
    · rw [twoPow_eq_widthMask hw hpos, not_not] at hsign
      exact (hlhs.mask i hi).sshiftRight_of_msb_eq_false ((hlhs.mask i hi).msb_eq_false hw hsign) c

include hlhs hrhs hl hr

theorem describes_combineMul (hx : KnowsConstant lhs x) (hy : KnowsConstant rhs y)
    (hexact : ∀ i < n, (z i).toInt = (x i).toInt * (y i).toInt)
    (hmask : ∀ i < n, Covers this.bitMask (z i)) :
    Describes n .int (this.combineMul lhs rhs) z ↔
      (lhs.isStrideConstantInt = true → rhs.kind = .constant →
        FitsInt64 n (lhs.strideInt * rhs.getValueAsConstantInt)) ∧
      (rhs.isStrideConstantInt = true → lhs.kind = .constant →
        FitsInt64 n (rhs.strideInt * lhs.getValueAsConstantInt)) := by
  unfold combineMul
  split
  · next h =>
    rw [Bool.and_eq_true] at h
    exact iff_of_true (describes_setMayDiverge hmask)
      ⟨fun _ hkind => absurd hkind (kind_ne_constant_of_hasStride h.2),
        fun _ hkind => absurd hkind (kind_ne_constant_of_hasStride h.1)⟩
  · next h =>
    split
    · next hls =>
      rw [describes_mul_constant hw hlhs hy hexact hmask]
      exact ⟨fun hfits => ⟨hfits, fun _ hkind => absurd hkind (kind_ne_constant_of_hasStride hls)⟩,
        fun hfits => hfits.1⟩
    · next hls =>
      rw [Bool.not_eq_true] at hls
      split
      · next hrs =>
        rw [describes_mul_constant hw hrhs hx (fun i hi => by rw [hexact i hi, mul_comm]) hmask]
        exact ⟨fun hfits => ⟨fun hconst => absurd hconst (not_isStrideConstantInt hls), hfits⟩,
          fun hfits => hfits.2⟩
      · next hrs =>
        rw [Bool.not_eq_true] at hrs
        exact iff_of_true (describes_noStride hlhs hrhs hl hr hexact hmask hls hrs)
          ⟨fun hconst => absurd hconst (not_isStrideConstantInt hls),
            fun hconst => absurd hconst (not_isStrideConstantInt hrs)⟩

theorem describes_combineShl (hy : KnowsConstant rhs y)
    (hexact : ∀ i < n, (x i <<< (y i).toNat).toInt = (x i).toInt * 2 ^ (y i).toNat)
    (hmask : ∀ i < n, Covers this.bitMask (x i <<< (y i).toNat)) :
    Describes n .int (this.combineShl lhs rhs) (fun i => x i <<< (y i).toNat) ↔
      (lhs.hasStride = true → ∀ shift, rhs.actualValue = some shift →
        if lhs.strideInt = 0 then ∀ i < n, x i <<< (y i).toNat = x 0 <<< (y 0).toNat
        else FitsInt64 n (lhs.strideInt * 2 ^ shift.getZExtValue.toNat)) := by
  unfold combineShl
  split
  · next hrs =>
    refine iff_of_true (describes_setMayDiverge hmask) fun _ shift hshift => ?_
    obtain ⟨v, rfl, -⟩ := hy (.inr (by rw [hshift]; exact Option.some_ne_none _))
    cases hrs
  · next hrs =>
    rw [Bool.not_eq_true] at hrs
    have huniform := isUniform_of_mayDiverge_eq_false hr hrs
    split
    · next hls =>
      rw [if_neg (by rw [huniform]; decide)]
      split
      · next shift hshift =>
        obtain ⟨v, rfl, hv⟩ := hy (.inr (by rw [hshift]; exact Option.some_ne_none _))
        cases hshift
        have hcovers : ∀ i < n, Covers (lhs.bitMask <<< v.toNat) (x i <<< (y i).toNat) := by
          intro i hi
          rw [hv]
          exact (hlhs.mask i hi).shiftLeft hw _
        rw [getZExtValue_toNat hw]
        by_cases hzero : lhs.strideInt = 0
        · rw [hzero, zero_mul]
          refine ⟨fun h _ shift _ => ?_, fun h => describes_setKind (by decide) ?_ hcovers⟩
          · exact h.uniform rfl
          · have heq := h hls _ rfl
            rwa [if_pos rfl] at heq
        · have hconst : lhs.isStrideConstantInt = true := by
            simp_all [isStrideConstantInt, hasStride]
          rw [describes_setStride_int64 (fun i hi => ?_) hcovers]
          · constructor
            · intro hfits _ shift hshift
              cases hshift
              rwa [if_neg hzero, getZExtValue_toNat hw]
            · intro h
              have hfits := h hls _ rfl
              rwa [if_neg hzero, getZExtValue_toNat hw] at hfits
          · have hx : (x i).toInt = _ := hlhs.linear hconst i hi
            rw [hexact i hi, hexact 0 (by omega), hv, hv, hx]
            ring
      · next hnone =>
        refine iff_of_true (describes_setVariableStride fun i hi => covers_not_zero hw) fun _ shift hshift => ?_
        rw [hnone] at hshift
        cases hshift
    · next hls =>
      refine iff_of_true ?_ fun h => absurd h hls
      rw [Bool.not_eq_true] at hls
      exact describes_combineKinds hlhs hrhs hl hr hls hrs (fun i _ hx hy => by rw [hx, hy]) hmask


theorem describes_combineAShr (hy : KnowsConstant rhs y) (hlt : ∀ i < n, (y i).toNat < w)
    (hthis : this.bitMask = getTypeMask w) :
    Describes n .int (this.combineAShr lhs rhs) (fun i => (x i).sshiftRight (y i).toNat) := by
  have hmask : ∀ i < n, Covers this.bitMask ((x i).sshiftRight (y i).toNat) := by
    intro i _
    rw [hthis]
    exact covers_getTypeMask hw
  unfold combineAShr
  split
  · exact describes_setMayDiverge hmask
  · next hrs =>
    rw [Bool.not_eq_true] at hrs
    have huniform := isUniform_of_mayDiverge_eq_false hr hrs
    split
    · next hls =>
      rw [if_neg (by rw [huniform]; decide)]
      split
      · next hkind =>
        obtain ⟨v, rfl, hv⟩ := hy (.inl hkind)
        rw [getValueAsConstantInt_const hw]
        dsimp only
        split
        · exact describes_setMayDiverge hmask
        · next hrange =>
          have hnat : v.toInt.toNat = v.toNat := by
            rw [BitVec.toInt_eq_toNat_cond] at hrange ⊢
            split at hrange <;> omega
          have hz : (fun i => (x i).sshiftRight (y i).toNat) = fun i => (x i).sshiftRight v.toNat :=
            funext fun i => by rw [hv]
          have hcovers := fun i hi => covers_ashr hw hlhs (c := v.toNat) (i := i) hi
          have hc : v.toNat < 64 := by omega
          rw [hnat, hthis, hz]
          split
          · next hconst =>
            split
            · next hlost =>
              refine describes_ashr_stride hlhs hconst hc (fun hn => ?_) hlost hcovers
              have hlt := hlt 0 hn
              rw [hv] at hlt
              omega
            · exact describes_setMayDiverge hcovers
          · split
            · exact describes_setVariableStride hcovers
            · exact describes_setMayDiverge hcovers
      · exact describes_setMayDiverge hmask
    · next hls =>
      rw [Bool.not_eq_true] at hls
      exact describes_combineKinds hlhs hrhs hl hr hls hrs (fun i _ hx hy => by rw [hx, hy]) hmask

/-! ### Bitwise operators -/

omit hw

theorem describes_combineAnd (hx : KnowsConstant lhs x) (hy : KnowsConstant rhs y) :
    Describes n .int (this.combineAnd lhs rhs) (fun i => x i &&& y i) ↔
      (lhs.hasStride = true ∧ rhs.kind ≠ .constant ∨ rhs.hasStride = true ∧ lhs.kind ≠ .constant →
        (this.combineAnd lhs rhs).isStrideConstantInt = true →
          ∀ i < n, Shifted .int (x 0 &&& y 0) (i * (this.combineAnd lhs rhs).strideInt) (x i &&& y i)) := by
  refine ⟨fun h _ hconst => h.linear hconst, fun h => ?_⟩
  have hmask : ∀ i < n, Covers (lhs.bitMask &&& rhs.bitMask) (x i &&& y i) :=
    fun i hi => (hlhs.mask i hi).and (hrhs.mask i hi)
  revert h
  unfold combineAnd
  dsimp only
  split
  · next hls =>
    split
    · exact fun _ => describes_setMayDiverge hmask
    · split
      · next hbits =>
        intro h
        exact describes_and_uniform hlhs hy hls hbits hmask fun hkind => h (.inl ⟨hls, hkind⟩)
      · exact fun _ => describes_setMayDiverge hmask
  · next hls =>
    rw [Bool.not_eq_true] at hls
    split
    · next hrs =>
      split
      · next hbits =>
        intro h
        simp only [BitVec.and_comm (x _)] at h hmask ⊢
        rw [BitVec.and_comm] at hbits
        exact describes_and_uniform hrhs hx hrs hbits hmask fun hkind => h (.inr ⟨hrs, hkind⟩)
      · exact fun _ => describes_setMayDiverge hmask
    · next hrs =>
      rw [Bool.not_eq_true] at hrs
      exact fun _ => describes_combineKinds hlhs hrhs hl hr hls hrs (fun i _ hx hy => by rw [hx, hy]) hmask

/-- An operation that is a sum for words without common bits. -/
theorem describes_combineOr (hw : w ≤ 64) {f : BitVec w → BitVec w → BitVec w}
    (hadd : ∀ a b, a &&& b = 0#w → f a b = a + b)
    (hunion : ∀ i < n, Covers (lhs.bitMask ||| rhs.bitMask) (f (x i) (y i)))
    (hthis : this.bitMask = getTypeMask w) :
    Describes n .int (this.combineOr lhs rhs) (fun i => f (x i) (y i)) ↔
      (lhs.bitMask &&& rhs.bitMask = 0#64 → lhs.isStrideConstantInt = true → rhs.isStrideConstantInt = true →
        FitsInt64 n (lhs.strideInt + rhs.strideInt)) := by
  have hmask : ∀ {v : BitVec w}, Covers this.bitMask v := by
    rw [hthis]
    exact covers_getTypeMask hw
  unfold combineOr
  split
  · next hdisjoint =>
    have hand : ∀ i < n, x i &&& y i = 0#w :=
      fun i hi => (hlhs.mask i hi).and_eq_zero (hrhs.mask i hi) hdisjoint
    rw [describes_combineAdd hlhs hrhs hl hr]
    · exact ⟨fun h _ => h, fun h => h hdisjoint⟩
    · intro i hi
      rw [hadd _ _ (hand i hi), toInt_add_of_and_eq_zero (hand i hi)]
    · exact fun i hi => hmask.inter (hunion i hi).union_left
  · next hdisjoint =>
    refine iff_of_true ?_ fun h => absurd h hdisjoint
    split
    · exact describes_setMayDiverge fun _ _ => hmask
    · next hstride =>
      rw [Bool.or_eq_true, not_or, Bool.not_eq_true, Bool.not_eq_true] at hstride
      exact describes_combineKinds hlhs hrhs hl hr hstride.1 hstride.2 (fun i _ hx hy => by rw [hx, hy]) hunion

end Constants

end ConstructionKit.Vecz
