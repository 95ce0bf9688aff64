import Mathlib.Algebra.Group.Int.Units

/-! Masks that cover the bits of words, which may have another width. -/

namespace ConstructionKit.ProofKit

open BitVec Bool

variable {m w v : Nat} {M N : BitVec m} {x y : BitVec w}

/-- Every bit that is set in the word is set in the mask. -/
def Covers (M : BitVec m) (x : BitVec w) : Prop := ∀ k, x.getLsbD k = true → M.getLsbD k = true

theorem covers_allOnes (h : w ≤ m) : Covers (BitVec.allOnes m) x := by
  intro k hk
  have hlt := lt_of_getLsbD hk
  rw [getLsbD_allOnes, decide_eq_true (by omega)]

theorem covers_self (x : BitVec w) : Covers x x := fun _ hk => hk

theorem covers_setWidth (h : w ≤ m) : Covers (x.setWidth m) x := by
  intro k hk
  have hlt := lt_of_getLsbD hk
  rw [getLsbD_setWidth, hk, decide_eq_true (by omega), Bool.and_self]

theorem Covers.of_setWidth (h : Covers M x) : Covers M (x.setWidth v) := by
  intro k hk
  rw [getLsbD_setWidth, and_eq_true] at hk
  exact h k hk.2

section

variable (hM : Covers M x)
include hM

theorem Covers.inter (hN : Covers N x) : Covers (M &&& N) x := by
  intro k hk
  rw [getLsbD_and, hM k hk, hN k hk, Bool.and_self]

theorem Covers.and (hN : Covers N y) : Covers (M &&& N) (x &&& y) := by
  intro k hk
  rw [getLsbD_and, and_eq_true] at hk
  rw [getLsbD_and, hM k hk.1, hN k hk.2, Bool.and_self]

theorem Covers.union_left : Covers (M ||| N) x := by
  intro k hk
  rw [getLsbD_or, hM k hk, Bool.true_or]

theorem Covers.or (hN : Covers N y) : Covers (M ||| N) (x ||| y) := by
  intro k hk
  rw [getLsbD_or, or_eq_true] at hk
  rw [getLsbD_or, or_eq_true]
  exact hk.imp (hM k) (hN k)

theorem Covers.xor (hN : Covers N y) : Covers (M ||| N) (x ^^^ y) := by
  refine fun k hk => (hM.or hN) k ?_
  rw [getLsbD_xor] at hk
  rw [getLsbD_or]
  generalize x.getLsbD k = a at hk ⊢
  cases a <;> simp_all

/-! ### Sums -/

theorem carry_mono (hN : Covers N y) (i : Nat)
    (h : BitVec.carry i x y false = true) : BitVec.carry i M N false = true := by
  induction i with
  | zero => simp at h
  | succ i ih =>
    rw [carry_succ] at h ⊢
    have hx := hM i
    have hy := hN i
    generalize x.getLsbD i = a at h hx
    generalize y.getLsbD i = b at h hy
    generalize BitVec.carry i x y false = c at h ih
    cases a <;> cases b <;> cases c <;> simp_all

omit hM in
/-- A bit of a sum is in a mask, or there is a carry from below. -/
theorem Covers.add (h : w ≤ m) (hM : Covers M x) (hN : Covers N y) :
    Covers (M ||| N ||| (M + N)) (x + y) := by
  intro k hk
  have hlt := lt_of_getLsbD hk
  have hx := hM k
  have hy := hN k
  have hcarry := carry_mono hM hN k
  rw [getLsbD_add hlt] at hk
  rw [getLsbD_or, getLsbD_or, getLsbD_add (by omega)]
  generalize x.getLsbD k = a at hk hx
  generalize y.getLsbD k = b at hk hy
  generalize BitVec.carry k x y false = c at hk hcarry
  generalize BitVec.carry k M N false = C at hcarry ⊢
  generalize M.getLsbD k = A at hx ⊢
  generalize N.getLsbD k = B at hy ⊢
  revert a b c A B C
  decide

/-- Words with disjoint masks have no carry. -/
theorem Covers.and_eq_zero (hN : Covers N y) (h : M &&& N = 0#m) : x &&& y = 0#w := by
  apply eq_of_getLsbD_eq
  intro k _
  rw [getLsbD_zero, ← not_eq_true]
  intro hk
  have hbit := (hM.and hN) k hk
  rw [h, getLsbD_zero] at hbit
  cases hbit

end

/-- Words without common bits have at most one sign bit, so that their sum does not overflow. -/
theorem toInt_add_of_and_eq_zero (h : x &&& y = 0#w) : (x + y).toInt = x.toInt + y.toInt := by
  rw [toInt_eq_msb_cond, toInt_eq_msb_cond, toInt_eq_msb_cond,
    toNat_add_of_and_eq_zero h, add_eq_or_of_and_eq_zero x y h]
  cases hx : x.msb <;> cases hy : y.msb <;> simp_all <;> omega

theorem xor_eq_add_of_and_eq_zero (h : x &&& y = 0#w) : x ^^^ y = x + y := by
  rw [add_eq_or_of_and_eq_zero x y h]
  apply eq_of_getLsbD_eq
  intro k _
  have hbit := congrArg (BitVec.getLsbD · k) h
  simp only [getLsbD_and] at hbit
  cases hx : x.getLsbD k <;> simp_all

/-! ### Shifts -/

theorem Covers.shiftLeft (h : w ≤ m) (hM : Covers M x) (c : Nat) : Covers (M <<< c) (x <<< c) := by
  intro k hk
  have hlt := lt_of_getLsbD hk
  rw [getLsbD_shiftLeft, and_eq_true, and_eq_true] at hk
  rw [getLsbD_shiftLeft, hM _ hk.2, decide_eq_true (by omega), hk.1.2]
  rfl

/-- The bits below a width. -/
def widthMask (m w : Nat) : BitVec m := (BitVec.allOnes w).setWidth m

theorem getLsbD_widthMask (k : Nat) : (widthMask m w).getLsbD k = (decide (k < m) && decide (k < w)) := by
  rw [widthMask, getLsbD_setWidth, getLsbD_allOnes]

theorem toNat_widthMask (h : w ≤ m) : (widthMask m w).toNat = 2 ^ w - 1 := by
  have hpos : 0 < 2 ^ w := Nat.two_pow_pos w
  have hle : 2 ^ w ≤ 2 ^ m := Nat.pow_le_pow_right (by decide) h
  rw [widthMask, toNat_setWidth, toNat_allOnes, Nat.mod_eq_of_lt (by omega)]

theorem one_shiftLeft_sub_one (h : w < m) : (1#m <<< w) - 1#m = widthMask m w := by
  have hpos : 0 < 2 ^ w := Nat.two_pow_pos w
  have hlt : 2 ^ w < 2 ^ m := Nat.pow_lt_pow_right (by decide) h
  have hone : (1#m).toNat = 1 := by rw [toNat_ofNat, Nat.mod_eq_of_lt (by omega)]
  have hshift : (1#m <<< w).toNat = 2 ^ w := by
    rw [toNat_shiftLeft, hone, Nat.shiftLeft_eq, Nat.one_mul, Nat.mod_eq_of_lt hlt]
  apply eq_of_toNat_eq
  rw [toNat_widthMask (by omega), toNat_sub_of_le, hshift, hone]
  rw [le_def]
  omega

theorem covers_widthMask (h : w ≤ m) : Covers (widthMask m w) x := by
  intro k hk
  have hlt := lt_of_getLsbD hk
  rw [getLsbD_widthMask, decide_eq_true hlt, decide_eq_true (by omega), Bool.and_self]

theorem Covers.msb_eq_false (h : w ≤ m) (hM : Covers M x) (hsign : M &&& BitVec.twoPow m (w - 1) = 0#m) :
    x.msb = false := by
  rw [← not_eq_true]
  intro hmsb
  rw [msb_eq_getLsbD_last] at hmsb
  have hlt := lt_of_getLsbD hmsb
  have hbit := congrArg (BitVec.getLsbD · (w - 1)) hsign
  simp only [getLsbD_and, hM _ hmsb] at hbit
  simp at hbit
  omega

theorem twoPow_eq_widthMask (h : w ≤ m) (hw : 0 < w) :
    (widthMask m w >>> 1) + 1#m = BitVec.twoPow m (w - 1) := by
  obtain ⟨n, rfl⟩ : ∃ n, w = n + 1 := ⟨w - 1, by omega⟩
  have hpos : 0 < 2 ^ n := Nat.two_pow_pos n
  apply eq_of_toNat_eq
  rw [toNat_add, toNat_ushiftRight, toNat_widthMask h,
    toNat_twoPow, toNat_ofNat, Nat.add_mod_mod, Nat.add_sub_cancel]
  congr 1
  omega

/-- A word that has none of its low bits in its mask is a multiple. -/
theorem Covers.two_pow_dvd {c : Nat} (hc : c ≤ m) (hM : Covers M x) (h : M &&& widthMask m c = 0#m) :
    2 ^ c ∣ x.toNat := by
  apply Nat.dvd_of_mod_eq_zero
  apply Nat.eq_of_testBit_eq
  intro i
  rw [Nat.testBit_mod_two_pow, Nat.zero_testBit, ← not_eq_true, and_eq_true, decide_eq_true_eq]
  rintro ⟨hi, hbit⟩
  have hand := congrArg (BitVec.getLsbD · i) h
  simp only [getLsbD_and, getLsbD_widthMask, hM i hbit] at hand
  simp at hand
  omega

theorem Covers.sshiftRight (h : w ≤ m) (hM : Covers M x) (c : Nat) :
    Covers (M >>> c ||| ~~~(widthMask m w >>> c)) (x.sshiftRight c) := by
  intro k hk
  have hlt := lt_of_getLsbD hk
  rw [getLsbD_sshiftRight] at hk
  rw [getLsbD_or, getLsbD_not, getLsbD_ushiftRight, getLsbD_ushiftRight,
    getLsbD_widthMask]
  split at hk
  · rw [and_eq_true] at hk
    rw [hM _ hk.2, Bool.true_or]
  · next hge =>
    rw [decide_eq_false hge, decide_eq_true (show k < m by omega)]
    simp

theorem Covers.sshiftRight_of_msb_eq_false (hM : Covers M x) (hx : x.msb = false) (c : Nat) :
    Covers (M >>> c) (x.sshiftRight c) := by
  intro k hk
  rw [sshiftRight_eq_of_msb_false hx, getLsbD_ushiftRight] at hk
  rw [getLsbD_ushiftRight]
  exact hM _ hk

theorem Covers.signExtend (hM : Covers M x) (h : v ≤ m) :
    Covers (M ||| ~~~widthMask m w) (x.signExtend v) := by
  intro k hk
  have hlt := lt_of_getLsbD hk
  rw [getLsbD_signExtend] at hk
  rw [getLsbD_or, getLsbD_not, getLsbD_widthMask]
  rw [and_eq_true] at hk
  obtain ⟨-, hk⟩ := hk
  split at hk
  · rw [hM _ hk, Bool.true_or]
  · next hge =>
    rw [decide_eq_false hge, decide_eq_true (show k < m by omega)]
    simp

theorem Covers.signExtend_of_msb_eq_false (hM : Covers M x) (hw : w ≤ m) (hx : x.msb = false) :
    Covers (M &&& widthMask m w) (x.signExtend v) := by
  rw [signExtend_eq_setWidth_of_msb_false hx]
  exact (hM.inter (covers_widthMask hw)).of_setWidth

/-! ### All bits up to the highest -/

/-- The word with its bits copied down by less than `2 ^ k` places. -/
def smear : Nat → BitVec m → BitVec m
  | 0, M => M
  | k + 1, M => smear k (M ||| M >>> 2 ^ k)

theorem getLsbD_smear (k i j : Nat) (M : BitVec m) (hj : j < 2 ^ k) (h : M.getLsbD (i + j) = true) :
    (smear k M).getLsbD i = true := by
  induction k generalizing j M with
  | zero =>
    obtain rfl : j = 0 := by omega
    exact h
  | succ k ih =>
    rw [smear]
    by_cases hlow : j < 2 ^ k
    · refine ih j _ hlow ?_
      rw [getLsbD_or, h, Bool.true_or]
    · refine ih (j - 2 ^ k) _ (by omega) ?_
      rw [getLsbD_or, getLsbD_ushiftRight, show 2 ^ k + (i + (j - 2 ^ k)) = i + j by omega, h,
        Bool.or_true]

theorem covers_smear {k : Nat} (hk : m ≤ 2 ^ k) (h : x.toNat ≤ M.toNat) : Covers (smear k M) x := by
  intro i hi
  by_contra hsmear
  have hzero : ∀ j, i ≤ j → M.getLsbD j = false := by
    intro j hj
    rw [← not_eq_true]
    intro hbit
    have hlt := lt_of_getLsbD hbit
    refine hsmear (getLsbD_smear k i (j - i) M (by omega) ?_)
    rwa [Nat.add_sub_cancel' hj]
  have hM : M.toNat < 2 ^ i := Nat.lt_pow_two_of_testBit _ hzero
  have hx : 2 ^ i ≤ x.toNat := Nat.ge_two_pow_of_testBit hi
  omega

end ConstructionKit.ProofKit
