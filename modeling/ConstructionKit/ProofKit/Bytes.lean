import Mathlib.Data.List.GetD
import Mathlib.Tactic.Ring

/-! Little-endian words, and a byte memory that is addressed relative to some base, so that
addresses may be negative. -/

namespace ConstructionKit.ProofKit

open List

/-! ### Little-endian words -/

def leNat : List UInt8 → Nat
  | [] => 0
  | b :: bs => b.toNat + 256 * leNat bs

def leBytes : Nat → Nat → List UInt8
  | 0, _ => []
  | k + 1, n => UInt8.ofNat n :: leBytes k (n / 256)

@[simp] theorem length_leBytes (k n : Nat) : (leBytes k n).length = k := by
  induction k generalizing n with
  | zero => rfl
  | succ k ih => rw [leBytes, length_cons, ih]

theorem leNat_leBytes (k n : Nat) : leNat (leBytes k n) = n % 256 ^ k := by
  induction k generalizing n with
  | zero => rw [leBytes, leNat, Nat.pow_zero, Nat.mod_one]
  | succ k ih =>
    rw [leBytes, leNat, ih, UInt8.toNat_ofNat', Nat.pow_succ 256, Nat.mul_comm _ 256, Nat.mod_mul]

theorem leBytes_leNat (bytes : List UInt8) : leBytes bytes.length (leNat bytes) = bytes := by
  induction bytes with
  | nil => rfl
  | cons b bytes ih =>
    have hb : b.toNat < 256 := b.toNat_lt
    have hdiv : (b.toNat + 256 * leNat bytes) / 256 = leNat bytes := by omega
    have hmod : UInt8.ofNat (b.toNat + 256 * leNat bytes) = b := by
      apply UInt8.toNat_inj.1
      rw [UInt8.toNat_ofNat']
      omega
    rw [leNat, length_cons, leBytes, hdiv, hmod, ih]

/-- A `uint32_t` as it is stored, and as it is loaded. -/
def wordBytes (w : UInt32) : List UInt8 := leBytes 4 w.toNat

def wordOfBytes (bytes : List UInt8) : UInt32 := UInt32.ofNat (leNat bytes)

variable (w : UInt32)

@[simp] theorem length_wordBytes : (wordBytes w).length = 4 := length_leBytes ..

@[simp] theorem wordOfBytes_wordBytes : wordOfBytes (wordBytes w) = w := by
  have hlt : w.toNat < 256 ^ 4 := w.toNat_lt
  rw [wordOfBytes, wordBytes, leNat_leBytes, Nat.mod_eq_of_lt hlt, UInt32.ofNat_toNat]

theorem toNat_add_ofNat (n : Nat) (h : w.toNat + n < 2 ^ 32) :
    (w + UInt32.ofNat n).toNat = w.toNat + n := by
  rw [UInt32.toNat_add, UInt32.toNat_ofNat', Nat.mod_eq_of_lt (by omega : n < 2 ^ 32),
    Nat.mod_eq_of_lt h]

/-! ### Memory -/

abbrev Memory := Int → UInt8

namespace Memory

def read (mem : Memory) (start : Int) (n : Nat) : List UInt8 :=
  (List.range n).map fun i : Nat => mem (start + i)

def write (mem : Memory) (start : Int) (bytes : List UInt8) : Memory := fun a =>
  if start ≤ a ∧ a < start + bytes.length then bytes.getD (a - start).toNat 0 else mem a

def readWord (mem : Memory) (start : Int) : UInt32 := wordOfBytes (mem.read start 4)

def writeWord (mem : Memory) (start : Int) (w : UInt32) : Memory := mem.write start (wordBytes w)

variable (mem : Memory)

@[simp] theorem length_read (start : Int) (n : Nat) :
    (mem.read start n).length = n := by
  rw [read, length_map, length_range]

theorem read_add (start : Int) (m n : Nat) :
    mem.read start (m + n) = mem.read start m ++ mem.read (start + m) n := by
  rw [read, range_add, map_append, map_map]
  congr 1
  apply map_congr_left
  intro i _
  simp only [Function.comp_apply, Nat.cast_add, ← Int.add_assoc]

theorem read_write_self (start : Int) (bytes : List UInt8) :
    (mem.write start bytes).read start bytes.length = bytes := by
  apply ext_getElem (length_read ..)
  intro i _ hi
  have hmem : start ≤ start + i ∧ start + i < start + bytes.length := by omega
  have hsub : (start + i - start).toNat = i := by omega
  simp only [read, write, getElem_map, getElem_range, if_pos hmem, hsub,
    getD_eq_getElem _ _ hi]

theorem read_write_disjoint {start start' : Int} {n : Nat} {bytes : List UInt8}
    (h : start + n ≤ start' ∨ start' + bytes.length ≤ start) :
    (mem.write start' bytes).read start n = mem.read start n := by
  apply map_congr_left
  intro i hi
  rw [List.mem_range] at hi
  rw [write, if_neg (by omega)]

@[simp] theorem readWord_writeWord_self (start : Int) (w : UInt32) :
    (mem.writeWord start w).readWord start = w := by
  have h := read_write_self mem start (wordBytes w)
  rw [length_wordBytes] at h
  rw [readWord, writeWord, h, wordOfBytes_wordBytes]

theorem readWord_write_disjoint {start start' : Int} {bytes : List UInt8}
    (h : start + 4 ≤ start' ∨ start' + bytes.length ≤ start) :
    (mem.write start' bytes).readWord start = mem.readWord start := by
  rw [readWord, read_write_disjoint mem (by exact_mod_cast h), readWord]

end Memory

end ConstructionKit.ProofKit
