import Mathlib.Data.UInt

/-! Alignment: rounding up to a multiple, powers of two by their bits, and the places of fields that
follow one another, each at a multiple of its alignment. -/

namespace ConstructionKit.ProofKit

open Nat

/-! ### Rounding up -/

def roundUp (a n : Nat) : Nat := n + (a - n % a) % a

theorem le_roundUp (a n : Nat) : n ≤ roundUp a n := Nat.le_add_right ..

theorem roundUp_lt {a : Nat} (ha : 0 < a) (n : Nat) : roundUp a n < n + a :=
  Nat.add_lt_add_left (mod_lt _ ha) n

theorem roundUp_of_mod_eq_zero {a n : Nat} (h : n % a = 0) : roundUp a n = n := by
  rw [roundUp, h, Nat.sub_zero, mod_self, Nat.add_zero]

theorem roundUp_of_mod_ne_zero {a n : Nat} (ha : 0 < a) (h : n % a ≠ 0) :
    roundUp a n = n + (a - n % a) := by
  rw [roundUp, mod_eq_of_lt (by omega)]

theorem dvd_roundUp {a : Nat} (ha : 0 < a) (n : Nat) : a ∣ roundUp a n := by
  by_cases h : n % a = 0
  · rw [roundUp_of_mod_eq_zero h]
    exact dvd_of_mod_eq_zero h
  · have hlt := mod_lt n ha
    have hsplit := div_add_mod n a
    refine ⟨n / a + 1, ?_⟩
    rw [roundUp_of_mod_ne_zero ha h, Nat.mul_add]
    omega

/-- There is one multiple of `a` from `n` up to `n + a`. -/
theorem eq_roundUp {a n m : Nat} (hdvd : a ∣ m) (hle : n ≤ m) (hlt : m < n + a) :
    m = roundUp a n := by
  have ha : 0 < a := by omega
  obtain ⟨j, rfl⟩ := hdvd
  obtain ⟨k, hk⟩ := dvd_roundUp ha n
  have hbounds := And.intro (le_roundUp a n) (roundUp_lt ha n)
  rw [hk] at hbounds ⊢
  have hjk : j < k + 1 := by
    apply Nat.lt_of_mul_lt_mul_left (a := a)
    rw [Nat.mul_add]
    omega
  have hkj : k < j + 1 := by
    apply Nat.lt_of_mul_lt_mul_left (a := a)
    rw [Nat.mul_add]
    omega
  rw [show j = k by omega]

theorem roundUp_le {a n m : Nat} (ha : 0 < a) (hdvd : a ∣ m) (hle : n ≤ m) : roundUp a n ≤ m := by
  by_contra hlt
  obtain ⟨j, rfl⟩ := hdvd
  obtain ⟨k, hk⟩ := dvd_roundUp ha n
  have hupper := roundUp_lt ha n
  rw [hk] at hlt hupper
  have hjk : j < k := Nat.lt_of_mul_lt_mul_left (Nat.not_le.1 hlt)
  have hle' : a * (j + 1) ≤ a * k := Nat.mul_le_mul_left a hjk
  rw [Nat.mul_add] at hle'
  omega

theorem roundUp_add {a k : Nat} (ha : 0 < a) (hdvd : a ∣ k) (n : Nat) :
    roundUp a (n + k) = roundUp a n + k := by
  have hle := le_roundUp a n
  have hlt := roundUp_lt ha n
  exact (eq_roundUp (Nat.dvd_add (dvd_roundUp ha n) hdvd) (by omega) (by omega)).symm

theorem roundUp_roundUp {a b : Nat} (hb : 0 < b) (hab : a ∣ b) (n : Nat) :
    roundUp b (roundUp a n) = roundUp b n := by
  have ha : 0 < a := pos_of_dvd_of_pos hab hb
  have hle := roundUp_le ha (hab.trans (dvd_roundUp hb n)) (le_roundUp b n)
  have hn := le_roundUp a n
  have hlt := roundUp_lt hb n
  exact (eq_roundUp (dvd_roundUp hb n) hle (by omega)).symm

/-- A coarser alignment gives the same place when the finer one happens to meet it. -/
theorem roundUp_eq_roundUp_iff {a b : Nat} (hb : 0 < b) (hab : a ∣ b) (n : Nat) :
    roundUp a n = roundUp b n ↔ b ∣ roundUp a n := by
  have ha : 0 < a := pos_of_dvd_of_pos hab hb
  constructor
  · intro h
    rw [h]
    exact dvd_roundUp hb n
  · intro h
    have hle : a ≤ b := le_of_dvd hb hab
    have hlt := roundUp_lt ha n
    exact eq_roundUp h (le_roundUp a n) (by omega)

/-! ### Powers of two -/

/-- The least power of two that is not below `n`. -/
def ceilPow2 (n : Nat) : Nat := if n ≤ 1 then 1 else 2 ^ (Nat.log2 (n - 1) + 1)

variable (n : Nat)

theorem ceilPow2_eq_pow : ∃ k, ceilPow2 n = 2 ^ k := by
  rw [ceilPow2]
  split
  · exact ⟨0, rfl⟩
  · exact ⟨_, rfl⟩

theorem ceilPow2_pos : 0 < ceilPow2 n := by
  obtain ⟨k, hk⟩ := ceilPow2_eq_pow n
  rw [hk]
  exact Nat.two_pow_pos k

theorem le_ceilPow2 : n ≤ ceilPow2 n := by
  rw [ceilPow2]
  split
  · assumption
  · have := lt_log2_self (n := n - 1)
    omega

theorem ceilPow2_le_pow {n k : Nat} (h : n ≤ 2 ^ k) : ceilPow2 n ≤ 2 ^ k := by
  rw [ceilPow2]
  split
  · exact Nat.one_le_two_pow
  · apply Nat.pow_le_pow_right (by decide)
    apply (log2_lt (by omega)).2
    omega

theorem pow_dvd_ceilPow2 {n k : Nat} (h : 2 ^ k ≤ ceilPow2 n) : 2 ^ k ∣ ceilPow2 n := by
  obtain ⟨j, hj⟩ := ceilPow2_eq_pow n
  rw [hj] at h ⊢
  exact Nat.pow_dvd_pow 2 ((Nat.pow_le_pow_iff_right (by decide)).1 h)

/-- Every bit of `x` says whether `w` has a bit among the next `d`. -/
def Smears (w d x : Nat) : Prop := ∀ i, x.testBit i = true ↔ ∃ j < d, w.testBit (i + j) = true

theorem Smears.one (w : Nat) : Smears w 1 w := by
  intro i
  constructor
  · intro h
    exact ⟨0, by omega, h⟩
  · rintro ⟨j, hj, h⟩
    obtain rfl : j = 0 := by omega
    exact h

theorem Smears.double {w d x : Nat} (h : Smears w d x) : Smears w (d + d) (x ||| x >>> d) := by
  intro i
  rw [testBit_or, testBit_shiftRight, Bool.or_eq_true, h i, h (d + i)]
  constructor
  · rintro (⟨j, hj, hbit⟩ | ⟨j, hj, hbit⟩)
    · exact ⟨j, by omega, hbit⟩
    · exact ⟨d + j, by omega, by rwa [show i + (d + j) = d + i + j by omega]⟩
  · rintro ⟨j, hj, hbit⟩
    by_cases hlt : j < d
    · exact .inl ⟨j, hlt, hbit⟩
    · exact .inr ⟨j - d, by omega, by rwa [show d + i + (j - d) = i + j by omega]⟩

/-- When the bits of the whole word have been smeared, all bits up to its highest one are set. -/
theorem Smears.succ_eq_ceilPow2 {w d x : Nat} (h : Smears w d x) (hw : w < 2 ^ d) :
    x + 1 = ceilPow2 (w + 1) := by
  have hbit : ∀ i, x.testBit i = true ↔ 2 ^ i ≤ w := by
    intro i
    rw [h i]
    constructor
    · rintro ⟨j, -, hj⟩
      calc 2 ^ i ≤ 2 ^ (i + j) := Nat.pow_le_pow_right (by decide) (Nat.le_add_right ..)
        _ ≤ w := ge_two_pow_of_testBit hj
    · intro hle
      obtain ⟨j, hij, hj⟩ := exists_ge_and_testBit_of_ge_two_pow hle
      have hjd : j < d := by
        by_contra hge
        have hle' := ge_two_pow_of_testBit hj
        have := Nat.pow_le_pow_right (n := 2) (by decide) (show d ≤ j by omega)
        omega
      exact ⟨j - i, by omega, by rwa [show i + (j - i) = j by omega]⟩
  rw [ceilPow2, Nat.add_sub_cancel]
  split
  · obtain rfl : x = 0 := by
      refine eq_of_testBit_eq fun i => ?_
      have := Nat.two_pow_pos i
      rw [zero_testBit]
      exact Bool.eq_false_iff.2 fun hi => absurd ((hbit i).1 hi) (by omega)
    rfl
  · have hx : x = 2 ^ (Nat.log2 w + 1) - 1 := by
      refine eq_of_testBit_eq fun i => ?_
      rw [testBit_two_pow_sub_one, Bool.eq_iff_iff, hbit i, decide_eq_true_iff]
      rw [← le_log2 (by omega)]
      omega
    have := Nat.two_pow_pos (Nat.log2 w + 1)
    omega

/-- Clearing the low bits rounds down. -/
theorem and_not_mask {x k w : Nat} (hx : x < 2 ^ w) (hk : k ≤ w) :
    x &&& (2 ^ w - 2 ^ k) = 2 ^ k * (x / 2 ^ k) := by
  refine eq_of_testBit_eq fun i => ?_
  have hpos := Nat.two_pow_pos k
  have hle := Nat.pow_le_pow_right (n := 2) (by decide) hk
  rw [testBit_and, testBit_two_pow_mul, testBit_div_two_pow,
    show 2 ^ w - 2 ^ k = 2 ^ w - ((2 ^ k - 1) + 1) by omega,
    testBit_two_pow_sub_succ (by omega)]
  by_cases hik : i < k
  · simp [hik]
  · by_cases hiw : i < w
    · simp [hiw, show k ≤ i by omega]
    · have hzero : x.testBit i = false := testBit_lt_two_pow
        (lt_of_lt_of_le hx (Nat.pow_le_pow_right (by decide) (by omega)))
      simp [hzero, show k ≤ i by omega]

/-! ### Places of fields -/

/-- Where the bytes behind a field of a size end. -/
def fieldEnd (align : Nat → Nat) (cur size : Nat) : Nat := roundUp (align size) cur + size

/-- Where fields of given sizes start. -/
def place (align : Nat → Nat) : Nat → List Nat → List Nat
  | _, [] => []
  | cur, size :: sizes => roundUp (align size) cur :: place align (fieldEnd align cur size) sizes

/-- Where the fields end. -/
def placeEnd (align : Nat → Nat) (cur : Nat) (sizes : List Nat) : Nat :=
  sizes.foldl (fieldEnd align) cur

variable (align : Nat → Nat)

theorem place_append (cur : Nat) (sizes sizes' : List Nat) :
    place align cur (sizes ++ sizes') =
      place align cur sizes ++ place align (placeEnd align cur sizes) sizes' := by
  induction sizes generalizing cur with
  | nil => rfl
  | cons size sizes ih => rw [List.cons_append, place, ih]; rfl

theorem placeEnd_append (cur : Nat) (sizes sizes' : List Nat) :
    placeEnd align cur (sizes ++ sizes') = placeEnd align (placeEnd align cur sizes) sizes' := by
  rw [placeEnd, List.foldl_append]
  rfl

/-- Two rules place the fields alike when they agree at every field, where it is reached. -/
theorem place_eq_place_iff {align align' : Nat → Nat} {cur : Nat} {sizes : List Nat} :
    place align cur sizes = place align' cur sizes ↔
      ∀ before size after, sizes = before ++ size :: after →
        roundUp (align size) (placeEnd align cur before) =
          roundUp (align' size) (placeEnd align cur before) := by
  induction sizes generalizing cur with
  | nil => simp [place]
  | cons size sizes ih =>
    rw [place, place, List.cons.injEq]
    constructor
    · rintro ⟨hhead, htail⟩ before size' after heq
      have hend : fieldEnd align cur size = fieldEnd align' cur size := by
        rw [fieldEnd, hhead, fieldEnd]
      rw [← hend] at htail
      obtain ⟨rfl, hsizes⟩ | ⟨before, rfl, hsizes⟩ := List.cons_eq_append_iff.1 heq
      · cases hsizes
        exact hhead
      · exact ih.1 htail before size' after hsizes
    · intro h
      have hhead := h [] size sizes rfl
      have hend : fieldEnd align cur size = fieldEnd align' cur size := by
        exact congrArg (· + size) hhead
      refine ⟨hhead, ?_⟩
      rw [← hend]
      refine ih.2 fun before size' after heq => ?_
      exact h (size :: before) size' after (by rw [heq, List.cons_append])

end ConstructionKit.ProofKit
