/-! The iterator over the instructions of a SPIR-V module, for any words. -/

namespace ConstructionKit.Spirv

open List

/-- `cargo::byte_swap`. -/
def byteSwap (v : UInt32) : UInt32 :=
  (v &&& 0xff000000) >>> 24 ||| (v &&& 0x00ff0000) >>> 8 ||| (v &&& 0x0000ff00) <<< 8 |||
    (v &&& 0x000000ff) <<< 24

def MAGIC : UInt32 := 0x07230203

/-- The module's endianness is swapped if its first word is a swapped magic number. -/
def endianSwap (code : List UInt32) : Bool := code[0]? = some (byteSwap MAGIC)

/-- `OpCode::wordCount`. -/
def wordCount (endianSwap : Bool) (data : UInt32) : Nat :=
  ((if endianSwap then byteSwap data else data) >>> 16).toNat

/-- The distance of `operator++`, which does not swap. -/
def distance (word : UInt32) : Nat := (word >>> 16).toNat

/-- The instructions from a position on, if the iterator gets to `end()` in less than `fuel` steps and
reads words of the code only. -/
def instructions (code : List UInt32) : Nat → Nat → Option (List Nat)
  | 0, _ => none
  | fuel + 1, pos =>
    if pos = max code.length 5 then some []
    else code[pos]?.bind fun word =>
      (instructions code fuel (pos + distance word)).map (pos :: ·)

/-- An instruction starts and ends within the code. -/
def Within (endianSwap : Bool) (code : List UInt32) (pos : Nat) : Prop :=
  ∃ word, code[pos]? = some word ∧ pos + wordCount endianSwap word ≤ code.length

/-- From `begin()`, the iterator gets to `end()` over instructions within the code, at increasing
positions. -/
def Iterates (code : List UInt32) : Prop :=
  ∃ fuel positions, instructions code fuel 5 = some positions ∧ positions.Pairwise (· < ·) ∧
    ∀ pos ∈ positions, Within (endianSwap code) code pos

/-- Words that both the steps of the iterator and the counts of the instructions divide. -/
inductive Divided (endianSwap : Bool) : List UInt32 → Prop
  | nil : Divided endianSwap []
  | cons {words : List UInt32} {word : UInt32} (hword : words[0]? = some word)
      (hpos : 0 < distance word) (hstep : distance word ≤ words.length)
      (hcount : wordCount endianSwap word ≤ words.length)
      (hrest : Divided endianSwap (words.drop (distance word))) : Divided endianSwap words

variable {code words : List UInt32} {fuel pos : Nat} {positions : List Nat} {swap : Bool}

theorem instructions_succ (h : instructions code (fuel + 1) pos = some positions) :
    pos = max code.length 5 ∨ ∃ word rest, code[pos]? = some word ∧
      instructions code fuel (pos + distance word) = some rest ∧ positions = pos :: rest := by
  rw [instructions] at h
  split at h
  · exact .inl ‹_›
  · obtain ⟨word, hword, h⟩ := Option.bind_eq_some_iff.1 h
    obtain ⟨rest, hrest, h⟩ := Option.map_eq_some_iff.1 h
    exact .inr ⟨word, rest, hword, hrest, h.symm⟩

theorem divided_of_instructions (h : instructions code fuel pos = some positions) (hpos : 5 ≤ pos)
    (hsorted : positions.Pairwise (· < ·)) (hin : ∀ pos ∈ positions, Within swap code pos) :
    pos ≤ max code.length 5 ∧ (pos < code.length → pos ∈ positions) ∧
      Divided swap (code.drop pos) := by
  induction fuel generalizing pos positions with
  | zero => cases h
  | succ fuel ih =>
    rcases instructions_succ h with hend | ⟨word, rest, hword, hrest, rfl⟩
    · refine ⟨by omega, by omega, ?_⟩
      rw [drop_eq_nil_of_le (by omega)]
      exact .nil
    · obtain ⟨⟨word', hword', hcount⟩, hin⟩ := forall_mem_cons.1 hin
      obtain rfl : word = word' := Option.some.inj (hword.symm.trans hword')
      obtain ⟨hbehind, hsorted⟩ := pairwise_cons.1 hsorted
      obtain ⟨hle, hnext, hdivided⟩ := ih hrest (by omega) hsorted hin
      have hlt := (List.getElem?_eq_some_iff.1 hword).1
      -- a distance of 0 would lead to this instruction again
      have hdistance : distance word ≠ 0 := fun hzero => by
        rw [hzero] at hnext
        exact Nat.lt_irrefl _ (hbehind _ (hnext hlt))
      refine ⟨by omega, fun _ => mem_cons_self, ?_⟩
      rw [← drop_drop] at hdivided
      refine .cons (by simpa using hword) (Nat.pos_of_ne_zero hdistance) ?_ ?_ hdivided <;>
        rw [length_drop] <;> omega

theorem instructions_of_divided (h : Divided swap words) (hwords : code.drop pos = words)
    (hpos : 5 ≤ pos) (hend : pos ≤ max code.length 5) :
    ∃ fuel positions, instructions code fuel pos = some positions ∧ positions.Pairwise (· < ·) ∧
      (∀ other ∈ positions, pos ≤ other) ∧ ∀ pos ∈ positions, Within swap code pos := by
  induction h generalizing pos with
  | nil =>
    rw [drop_eq_nil_iff] at hwords
    exact ⟨1, [], if_pos (by omega), .nil, nofun, nofun⟩
  | @cons words word hword hstep hle hcount _ ih =>
    subst hwords
    rw [length_drop] at hle hcount
    rw [getElem?_drop, Nat.add_zero] at hword
    have hlt := (List.getElem?_eq_some_iff.1 hword).1
    obtain ⟨fuel, positions, hrest, hsorted, hbehind, hin⟩ :=
      ih drop_drop.symm (by omega) (by omega)
    refine ⟨fuel + 1, pos :: positions, ?_, .cons (fun other hother => ?_) hsorted, ?_, ?_⟩
    · rw [instructions, if_neg (by omega), hword, Option.bind_some, hrest]
      rfl
    · exact Nat.lt_of_lt_of_le (by omega) (hbehind other hother)
    · exact forall_mem_cons.2 ⟨Nat.le_refl _, fun other hother =>
        Nat.le_trans (Nat.le_add_right ..) (hbehind other hother)⟩
    · exact forall_mem_cons.2 ⟨⟨word, hword, by omega⟩, hin⟩

/-- The iteration is safe exactly on words that are divided into instructions. -/
theorem iterates_iff (code : List UInt32) :
    Iterates code ↔ Divided (endianSwap code) (code.drop 5) := by
  constructor
  · rintro ⟨fuel, positions, h, hsorted, hin⟩
    exact (divided_of_instructions h (Nat.le_refl _) hsorted hin).2.2
  · intro h
    obtain ⟨fuel, positions, h, hsorted, -, hin⟩ :=
      instructions_of_divided h rfl (Nat.le_refl _) (Nat.le_max_right ..)
    exact ⟨fuel, positions, h, hsorted, hin⟩

/-- With a count of 0, the iterator stays where it is. -/
theorem not_iterates : ¬Iterates [MAGIC, 0, 0, 0, 0, 0] := by
  rw [iterates_iff]
  rintro (_ | ⟨⟨⟩, hpos, -⟩)
  cases hpos

end ConstructionKit.Spirv
