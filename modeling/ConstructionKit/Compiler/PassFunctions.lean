import Mathlib.Data.BitVec
import ConstructionKit.ProofKit.MixedRadix
import ConstructionKit.ProofKit.DoWhile

/-! The loop that `createLoop` of `pass_functions.cpp` emits, as it runs.  It tests behind its body,
compares unsigned, and its index wraps. -/

namespace ConstructionKit.Compiler

open ProofKit

variable {w : Nat} {σ α : Type}

/-- The loop between `entry` and `exit`.  The state `ivs` stands for the user PHIs and for whatever
else the body changes; `body` runs the blocks from the loop header to the latch. -/
def createLoop (fuel : Nat) (indexStart indexEnd indexInc : BitVec w)
    (body : BitVec w → σ → Option σ) (ivs : σ) : Option σ :=
  doWhile body (fun phi => phi + indexInc) (fun add => add.ult indexEnd) fuel indexStart ivs

/-- The increment without `opts.indexInc`. -/
def defaultInc : BitVec w := 1#w

/-- The actions of the first `n` turns of a loop. -/
def loopTurns (indexStart indexInc : BitVec w) (acts : BitVec w → List α) (n : Nat) : List α :=
  turns (fun phi => phi + indexInc) acts indexStart n

variable {indexStart indexEnd indexInc : BitVec w} {body : BitVec w → σ → Option σ}
  {acts : BitVec w → List α} {act : σ → α → σ} {s t : σ} {fuel : Nat}

theorem toNat_iterate_add {k : Nat} (h : indexStart.toNat + k * indexInc.toNat < 2 ^ w) :
    ((fun phi => phi + indexInc)^[k] indexStart).toNat =
      indexStart.toNat + k * indexInc.toNat := by
  induction k with
  | zero => simp
  | succ =>
    rw [Nat.succ_mul] at h ⊢
    rw [Function.iterate_succ_apply', BitVec.toNat_add, Nat.mod_eq_of_lt (by omega)]
    omega

theorem iterate_add_zero (k : Nat) :
    (fun phi => phi + indexInc)^[k] 0#w = BitVec.ofNat w (k * indexInc.toNat) := by
  induction k with
  | zero => simp
  | succ k ih =>
    rw [Function.iterate_succ_apply', ih, Nat.succ_mul, BitVec.ofNat_add]
    simp

/-- A loop of `n + 1` turns whose index does not wrap. -/
theorem createLoop_eq_some (hbody : ∀ i s, body i s = some ((acts i).foldl act s)) {n : Nat}
    (hlt : n = 0 ∨ indexStart.toNat + n * indexInc.toNat < indexEnd.toNat)
    (hend : indexEnd.toNat ≤ indexStart.toNat + (n + 1) * indexInc.toNat)
    (hwrap : indexStart.toNat + (n + 1) * indexInc.toNat < 2 ^ w) (hfuel : n < fuel) :
    createLoop fuel indexStart indexEnd indexInc body s =
      some ((loopTurns indexStart indexInc acts (n + 1)).foldl act s) := by
  apply doWhile_eq_some hbody _ _ hfuel
  · intro k hk
    have hle : (k + 1) * indexInc.toNat ≤ n * indexInc.toNat := Nat.mul_le_mul_right _ hk
    rw [Nat.succ_mul] at hwrap
    simp only [BitVec.ult, decide_eq_true_eq]
    rw [toNat_iterate_add (by omega)]
    omega
  · simp only [BitVec.ult, decide_eq_true_eq]
    rw [toNat_iterate_add hwrap]
    omega

theorem toNat_defaultInc (hw : 1 < 2 ^ w) : (defaultInc : BitVec w).toNat = 1 := by
  rw [defaultInc, BitVec.toNat_ofNat, Nat.mod_eq_of_lt hw]

theorem iterate_add_defaultInc (k : Nat) :
    (fun phi : BitVec w => phi + defaultInc)^[k] indexStart = indexStart + BitVec.ofNat w k := by
  induction k with
  | zero => simp
  | succ k ih =>
    rw [Function.iterate_succ_apply', ih, BitVec.ofNat_add, ← BitVec.add_assoc]
    rfl

/-- A loop from one index up to a larger one in steps of one takes every index once, in order. -/
theorem createLoop_ascending (acts : BitVec w → List α) (act : σ → α → σ)
    (hbody : ∀ i s, body i s = some ((acts i).foldl act s))
    (hlt : indexStart.toNat < indexEnd.toNat) (hfuel : 2 ^ w ≤ fuel) :
    createLoop fuel indexStart indexEnd defaultInc body s =
      some (((List.range (indexEnd.toNat - indexStart.toNat)).flatMap fun k =>
        acts (indexStart + BitVec.ofNat w k)).foldl act s) := by
  have hinc : (defaultInc : BitVec w).toNat = 1 := toNat_defaultInc (by omega)
  obtain ⟨n, hn⟩ : ∃ n, indexEnd.toNat - indexStart.toNat = n + 1 :=
    ⟨indexEnd.toNat - indexStart.toNat - 1, by omega⟩
  rw [createLoop_eq_some hbody (n := n) _ _ _ (by omega), hn]
  · simp only [loopTurns, turns, iterate_add_defaultInc]
  all_goals rw [hinc]; omega

theorem createLoop_from_zero (acts : BitVec w → List α) (act : σ → α → σ)
    (hbody : ∀ i s, body i s = some ((acts i).foldl act s)) (hpos : 1 ≤ indexEnd.toNat)
    (hfuel : 2 ^ w ≤ fuel) :
    createLoop fuel 0#w indexEnd defaultInc body s =
      some (((List.range indexEnd.toNat).flatMap fun k => acts (BitVec.ofNat w k)).foldl act s) := by
  have hlt : (0#w).toNat < indexEnd.toNat := by
    exact hpos
  rw [createLoop_ascending acts act hbody hlt hfuel]
  simp

end ConstructionKit.Compiler
