import ConstructionKit.Loader.Stubs

/-! Where a relocated branch of AArch64 goes: `CALL26` and `JUMP26`. -/

namespace ConstructionKit.Loader

open ProofKit UInt64

/-! ### Instructions -/

/-- The instructions that a stub is made of. -/
inductive Insn where
  | movz (hw imm16 : UInt64)
  | movk (hw imm16 : UInt64)
  | brIp0
deriving DecidableEq, Repr

/-- Moves to `ip0`, with the shift in bits 22:21 and the immediate in bits 20:5, and `br ip0`. -/
def decode (word : UInt32) : Option Insn :=
  let hw := ((word &&& 0x00600000) >>> 21).toUInt64
  let imm16 := ((word >>> 5) &&& 0xffff).toUInt64
  if word = 0xd61f0200 then some .brIp0
  else if word &&& 0xff80001f = 0xd2800010 then some (.movz hw imm16)
  else if word &&& 0xff80001f = 0xf2800010 then some (.movk hw imm16)
  else none

/-- The address that at most some instructions from a program counter on branch to. -/
def runStub (fetch : UInt64 → UInt32) : Nat → UInt64 → UInt64 → Option UInt64
  | 0, _, _ => none
  | n + 1, pc, ip0 =>
    match decode (fetch pc) with
    | none => none
    | some .brIp0 => some ip0
    | some (.movz hw imm16) => runStub fetch n (pc + 4) (imm16 <<< (16 * hw))
    | some (.movk hw imm16) =>
      runStub fetch n (pc + 4) ((ip0 &&& ~~~(0xffff <<< (16 * hw))) ||| (imm16 <<< (16 * hw)))

/-- The signed offset in a branch instruction. -/
def branchOffset (word : UInt32) : UInt64 :=
  let imm := (word &&& 0x03ffffff).toUInt64
  if imm < 0x02000000 then 4 * imm else 4 * imm - 0x10000000

/-- The word at an address of the target that lies in a section. -/
def State.fetch (s : State) (sectionIndex : UInt32) (pc : UInt64) : UInt32 :=
  match s.map.mapping sectionIndex with
  | none => 0
  | some m => s.readWord (m.writableAddress + (pc - m.targetAddress))

/-! ### What a branch is to do -/

/-- A destination in the stub that was made between two states, such that the rest of the stub goes to
the target, whatever `ip0` is. -/
def ReachesByStub (before after : State) (sectionIndex : UInt32) (destination target : UInt64) :
    Prop :=
  ∃ start stop, before.map.getStubTargetAddress sectionIndex = some start ∧
    after.map.getStubTargetAddress sectionIndex = some stop ∧
    ∃ k, 4 * k < (stop - start).toNat ∧ destination = start + UInt64.ofNat (4 * k) ∧
      ∀ ip0, runStub (after.fetch sectionIndex) ((stop - start).toNat / 4 - k) destination ip0 =
        some target

/-- If the relocation succeeds, the branch goes to the symbol, directly or by the stub. -/
def BranchReaches (r : Relocation) (s : State) : Prop :=
  (resolveAArch64 r [] s).1 = true → ∃ site, r.site s.map r.offset = some site ∧
    let after := (resolveAArch64 r [] s).2
    let destination :=
      site.relocationTargetAddress + branchOffset (after.readWord site.relocationAddress)
    destination = site.symbolTargetAddress ∨
      ReachesByStub s after r.sectionIndex destination site.symbolTargetAddress

/-! ### Words -/

theorem or_and_distrib (a b c : UInt32) : (a ||| b) &&& c = (a &&& c) ||| (b &&& c) := by
  apply UInt32.toBitVec_inj.1
  simp only [UInt32.toBitVec_and]
  ext i
  simp [Bool.and_or_distrib_right]

theorem or_and_distrib64 (a b c : UInt64) : (a ||| b) &&& c = (a &&& c) ||| (b &&& c) := by
  apply UInt64.toBitVec_inj.1
  simp only [UInt64.toBitVec_and]
  ext i
  simp [Bool.and_or_distrib_right]

theorem or_eq_right_iff (a b : UInt32) : a ||| b = b ↔ a &&& ~~~b = 0 := by
  rw [← UInt32.toBitVec_inj, ← UInt32.toBitVec_inj, UInt32.toBitVec_or, UInt32.toBitVec_and,
    UInt32.toBitVec_not, show UInt32.toBitVec 0 = 0#32 from rfl]
  constructor
  · intro h
    rw [← h]
    ext i
    simp only [BitVec.getElem_and]
    grind
  · intro h
    ext i hi
    have hbit := congrArg (fun v => v.getLsbD i) h
    simp only [BitVec.getLsbD_and] at hbit
    simp only [BitVec.getElem_or]
    grind

theorem inReach_iff (rel : UInt64) :
    inReach rel = true ↔ rel.toNat < 2 ^ 27 ∨ 2 ^ 64 - 2 ^ 27 ≤ rel.toNat := by
  have hint : rel.toInt64.toInt = if 2 * rel.toNat < 2 ^ 64 then (rel.toNat : Int)
      else rel.toNat - 2 ^ 64 := by
    rw [← Int64.toInt_toBitVec, BitVec.toInt_eq_toNat_cond]
    simp
  have hlow : (-0x8000000 : Int64).toInt = -2 ^ 27 := by decide
  have hhigh : (0x8000000 : Int64).toInt = 2 ^ 27 := by decide
  have hlt := rel.toNat_lt
  rw [inReach, decide_eq_true_iff, ge_iff_le, Int64.le_iff_toInt_le, Int64.lt_iff_toInt_lt, hint]
  split <;> omega

theorem toNat_imm26 (rel : UInt64) : (imm26 rel).toNat = rel.toNat / 4 % 2 ^ 26 := by
  have htwo : (2 : UInt64).toNat % 64 = 2 := by decide
  have hmask : (0x03ffffff : UInt64).toNat = 2 ^ 26 - 1 := by decide
  rw [imm26, toNat_toUInt32, UInt64.toNat_and, UInt64.toNat_shiftRight, htwo, hmask,
    Nat.and_two_pow_sub_one_eq_mod]
  omega

/-- The low 26 bits decide where a branch goes. -/
theorem toNat_branchOffset (word : UInt32) :
    (branchOffset word).toNat =
      if word.toNat % 2 ^ 26 < 2 ^ 25 then 4 * (word.toNat % 2 ^ 26)
      else 2 ^ 64 - 2 ^ 28 + 4 * (word.toNat % 2 ^ 26) := by
  have himm : (word &&& 0x03ffffff).toUInt64.toNat = word.toNat % 2 ^ 26 := by
    have hmask : (0x03ffffff : UInt32).toNat = 2 ^ 26 - 1 := by decide
    rw [UInt32.toNat_toUInt64, UInt32.toNat_and, hmask, Nat.and_two_pow_sub_one_eq_mod]
  have hfour : (4 : UInt64).toNat = 4 := by decide
  have hhalf : (0x02000000 : UInt64).toNat = 2 ^ 25 := by decide
  have hwhole : (0x10000000 : UInt64).toNat = 2 ^ 28 := by decide
  rw [branchOffset]
  simp only [lt_iff_toNat_lt, himm, hhalf]
  split
  · rw [UInt64.toNat_mul, hfour]
    omega
  · rw [UInt64.toNat_sub, UInt64.toNat_mul, hfour]
    omega

theorem inReach_branchOffset (word : UInt32) : inReach (branchOffset word) = true := by
  rw [inReach_iff, toNat_branchOffset]
  split <;> omega

theorem patched_low (value rel) :
    (value ||| imm26 rel).toNat % 2 ^ 26 = value.toNat % 2 ^ 26 ||| (imm26 rel).toNat := by
  have himm : (imm26 rel).toNat % 2 ^ 26 = (imm26 rel).toNat := by
    rw [toNat_imm26]
    omega
  rw [UInt32.toNat_or, Nat.or_mod_two_pow, himm]

/-- A short branch is right if its offset is one of a word and no bit was set before that is not to
be set. -/
theorem branchOffset_patched_iff {rel : UInt64} (value : UInt32) (hreach : inReach rel = true) :
    branchOffset (value ||| imm26 rel) = rel ↔
      rel.toNat % 4 = 0 ∧ value &&& 0x03ffffff &&& ~~~imm26 rel = 0 := by
  have hmask : (0x03ffffff : UInt32).toNat = 2 ^ 26 - 1 := by decide
  have hlow : (value ||| imm26 rel).toNat % 2 ^ 26 = (imm26 rel).toNat ↔
      value &&& 0x03ffffff &&& ~~~imm26 rel = 0 := by
    rw [← or_eq_right_iff, ← UInt32.toNat_inj, patched_low, UInt32.toNat_or, UInt32.toNat_and,
      hmask, Nat.and_two_pow_sub_one_eq_mod]
  have himm := toNat_imm26 rel
  have hlt := rel.toNat_lt
  rw [inReach_iff] at hreach
  rw [← hlow, ← UInt64.toNat_inj, toNat_branchOffset]
  split <;> omega

variable {value word : UInt32} {fetch : UInt64 → UInt32} {target offset pc : UInt64} {i n : Nat}

/-- A branch that is patched for the second word of a stub does not go to the first one, unless it is
the second word itself. -/
theorem low_of_goes_to_first {start place : UInt64}
    (h : start = place + branchOffset (value ||| imm26 (start + 4 - place))) :
    place = start + 4 ∧ (value ||| imm26 (start + 4 - place)).toNat % 2 ^ 26 = 2 ^ 26 - 1 := by
  have hle : (imm26 (start + 4 - place)).toNat ≤
      (value ||| imm26 (start + 4 - place)).toNat % 2 ^ 26 := by
    rw [patched_low]
    exact Nat.right_le_or
  have hoffset := toNat_branchOffset (value ||| imm26 (start + 4 - place))
  have hrel : start + 4 - place = branchOffset (value ||| imm26 (start + 4 - place)) + 4 := by
    grind
  generalize hword : value ||| imm26 (start + 4 - place) = word at *
  have hnat := congrArg UInt64.toNat hrel
  rw [UInt64.toNat_add, show (4 : UInt64).toNat = 4 from rfl] at hnat
  rw [toNat_imm26] at hle
  have hlast : word.toNat % 2 ^ 26 = 2 ^ 26 - 1 := by
    split at hoffset <;> omega
  have hzero : start + 4 - place = 0 := by
    apply UInt64.toNat_inj.1
    rw [show (0 : UInt64).toNat = 0 from rfl]
    split at hoffset <;> omega
  exact ⟨by grind, hlast⟩

/-! ### Instructions that do not set the high bits of `ip0` -/

theorem decode_eq_none (hmov : word.toNat % 32 ≠ 16) (hbr : word ≠ 0xd61f0200) :
    decode word = none := by
  have hregister (opcode : UInt32) (hopcode : opcode &&& 0x1f = 0x10) :
      word &&& 0xff80001f ≠ opcode := by
    intro h
    have hand : word &&& 0x1f = 0x10 := by
      rw [← hopcode, ← h, UInt32.and_assoc]
      rfl
    have hnat := congrArg UInt32.toNat hand
    rw [UInt32.toNat_and, show (0x1f : UInt32).toNat = 2 ^ 5 - 1 from rfl,
      Nat.and_two_pow_sub_one_eq_mod] at hnat
    exact hmov hnat
  rw [decode, if_neg hbr, if_neg (hregister _ rfl), if_neg (hregister _ rfl)]

def KeepsHigh (word : UInt32) : Prop :=
  decode word = none ∨ decode word = some .brIp0 ∨
    ∃ hw imm16, decode word = some (.movk hw (imm16 &&& 0xffff)) ∧ (hw = 0 ∨ hw = 1 ∨ hw = 2)

theorem movk_high (ip0 imm16 hw : UInt64) (hhw : hw = 0 ∨ hw = 1 ∨ hw = 2) :
    ((ip0 &&& ~~~(0xffff <<< (16 * hw))) ||| ((imm16 &&& 0xffff) <<< (16 * hw))) &&&
      0xffff000000000000 = ip0 &&& 0xffff000000000000 := by
  have hkept : ~~~(0xffff <<< (16 * hw)) &&& 0xffff000000000000 = (0xffff000000000000 : UInt64) := by
    obtain rfl | rfl | rfl := hhw <;> decide
  have hset : (0xffff <<< (16 * hw)) &&& 0xffff000000000000 = (0 : UInt64) := by
    obtain rfl | rfl | rfl := hhw <;> decide
  rw [or_and_distrib64, UInt64.and_assoc, hkept, shiftLeft_and, UInt64.and_assoc, hset,
    UInt64.and_zero, UInt64.or_zero]

theorem runStub_high {ip0 : UInt64}
    (hwords : ∀ i < n, KeepsHigh (fetch (pc + UInt64.ofNat (4 * i))))
    (hrun : runStub fetch n pc ip0 = some target) :
    target &&& 0xffff000000000000 = ip0 &&& 0xffff000000000000 := by
  induction n generalizing pc ip0 with
  | zero => cases hrun
  | succ n ih =>
    have hfirst := hwords 0 (Nat.succ_pos n)
    rw [show UInt64.ofNat 0 = 0 from rfl, UInt64.add_zero] at hfirst
    rw [runStub] at hrun
    obtain h | h | ⟨hw, imm16, h, hhw⟩ := hfirst
    · rw [h] at hrun
      cases hrun
    · rw [h] at hrun
      rw [Option.some.inj hrun]
    · rw [h] at hrun
      rw [ih _ hrun, movk_high ip0 imm16 hw hhw]
      intro i hi
      have hnext := hwords (i + 1) (by omega)
      rwa [Nat.mul_succ, Nat.add_comm, ofNat_add, ← UInt64.add_assoc] at hnext

theorem runStub_of_decode_none
    (h : decode (fetch pc) = none) (n : Nat) (ip0 : UInt64) : runStub fetch n pc ip0 = none := by
  cases n with
  | zero => rfl
  | succ => rw [runStub, h]

/-- Code that keeps the high bits of `ip0` does not go to one place for every `ip0`. -/
theorem not_runStub_of_keepsHigh (hwords : ∀ i < n, KeepsHigh (fetch (pc + UInt64.ofNat (4 * i)))) :
    ¬ ∀ ip0, runStub fetch n pc ip0 = some target := by
  intro h
  have hzero := runStub_high hwords (h 0)
  have hones := runStub_high hwords (h 0xffff000000000000)
  rw [hzero] at hones
  exact absurd hones (by decide)

/-! ### The words of a stub -/

theorem setBitRange_and {subvalue kept : UInt32} (hmask : (lowMask 16 <<< 5) &&& kept = 0)
    (hvalue : value &&& ~~~(lowMask 16 <<< 5) &&& kept = value &&& kept) :
    setBitRange value subvalue 5 16 &&& kept = value &&& kept := by
  rw [setBitRange, or_and_distrib, hvalue, UInt32.and_assoc, hmask, UInt32.and_zero, UInt32.or_zero]

/-- A `movk` with the shift of its opcode, whatever it moves. -/
theorem keepsHigh_movk {opcode bits : UInt32} {hw : UInt64}
    (hopcode : opcode &&& 0xff80001f = 0xf2800010)
    (hshift : ((opcode &&& 0x00600000) >>> 21).toUInt64 = hw) (hhw : hw = 0 ∨ hw = 1 ∨ hw = 2)
    (hfree : opcode &&& ~~~(lowMask 16 <<< 5) = opcode) :
    KeepsHigh (setBitRange opcode bits 5 16) := by
  have hmov : setBitRange opcode bits 5 16 &&& 0xff80001f = 0xf2800010 := by
    rw [setBitRange_and (by decide) (by rw [hfree]), hopcode]
  have hplace : setBitRange opcode bits 5 16 &&& 0x00600000 = opcode &&& 0x00600000 :=
    setBitRange_and (by decide) (by rw [hfree])
  have hbr : setBitRange opcode bits 5 16 ≠ 0xd61f0200 := by
    intro h
    rw [h] at hmov
    exact absurd hmov (by decide)
  refine .inr (.inr ⟨hw, (setBitRange opcode bits 5 16 >>> 5).toUInt64, ?_, hhw⟩)
  rw [decode, if_neg hbr, hmov, hplace, hshift]
  rfl

theorem keepsHigh_stub (target : UInt64) (hpos : 0 < i) (hi : i < 5) :
    KeepsHigh ((aarch64Stub target).getD i 0) := by
  have hcases : i = 1 ∨ i = 2 ∨ i = 3 ∨ i = 4 := by omega
  obtain rfl | rfl | rfl | rfl := hcases
  · exact keepsHigh_movk rfl rfl (.inr (.inr rfl)) rfl
  · exact keepsHigh_movk rfl rfl (.inr (.inl rfl)) rfl
  · exact keepsHigh_movk rfl rfl (.inl rfl) rfl
  · exact .inr (.inl rfl)

/-! ### The relocation -/

variable {r : Relocation} {s : State} {site : Site UInt64} {m : Mapping} {k : Nat}

def IsBranch (r : Relocation) : Prop :=
  AArch64Type.ofCode r.type = some .call26 ∨ AArch64Type.ofCode r.type = some .jump26

/-- What makes a relocation of a branch succeed with a right branch, or fail. -/
def BranchPatchable (r : Relocation) (s : State) : Prop :=
  ∀ site, r.site s.map r.offset = some site →
    let rel := site.symbolTargetAddress - site.relocationTargetAddress
    if inReach rel then
      rel.toNat % 4 = 0 ∧
        s.readWord site.relocationAddress &&& 0x03ffffff &&& ~~~imm26 rel = 0
    else
      ∀ m, s.map.mapping r.sectionIndex = some m →
        m.writableEnd - m.stubAddress < 4 ∨ m.stubTarget + 4 = 0 ∨
          inReach (m.stubTarget + 4 - site.relocationTargetAddress) = false

theorem resolveAArch64_branch (hbranch : IsBranch r) (hsite : r.site s.map r.offset = some site) :
    resolveAArch64 r [] s =
      resolveBranch26 r [] site (s.readWord site.relocationAddress) s := by
  rw [resolveAArch64, hsite]
  obtain h | h := hbranch <;> rw [h]

theorem resolveAArch64_none (hsite : r.site s.map r.offset = none) :
    resolveAArch64 r [] s = (false, s) := by
  rw [resolveAArch64, hsite]

/-- The word of a stub after the branch was patched, which may have been that very word. -/
theorem readWord_patched {words : List UInt32} {address : UInt64}
    (hi : i < words.length) (hlength : words.length < 2 ^ 62)
    (hmod : address.toNat % 4 = m.stubAddress.toNat % 4) :
    ((s.addStub r.sectionIndex m words).writeWord address word).readWord
        (m.stubAddress + UInt64.ofNat (4 * i)) =
      if address = m.stubAddress + UInt64.ofNat (4 * i) then word else words.getD i 0 := by
  split
  · rename_i heq
    rw [← heq]
    exact State.readWord_writeWord_self ..
  · rename_i hne
    rw [State.readWord_writeWord_of_ne word (Ne.symm hne)
      ((toNat_add_mul_four_mod _ i).trans hmod.symm)]
    exact State.readWord_writeWords hi hlength

/-- A branch that goes back by a few words, or to itself, is none of the instructions of a stub. -/
theorem decode_of_goes_back (hi : i < 5)
    (h : branchOffset word + UInt64.ofNat (4 * i) = 0) : decode word = none := by
  have hnat := congrArg UInt64.toNat h
  rw [UInt64.toNat_add, toNat_branchOffset, toNat_ofNat',
    show (0 : UInt64).toNat = 0 from rfl] at hnat
  have hlow : word.toNat % 2 ^ 26 = (2 ^ 26 - i) % 2 ^ 26 := by
    split at hnat <;> omega
  apply decode_eq_none
  · omega
  · intro hbr
    rw [hbr, show UInt32.toNat 0xd61f0200 % 2 ^ 26 = 0x21f0200 from rfl] at hlow
    omega

/-- The words of a new stub as they are executed, where the branch was patched to go to its second
word and goes to the `k`th. -/
structure Patched (m : Mapping) (offset : UInt64) (target : UInt64) (word : UInt32) (k : Nat)
    (fetch : UInt64 → UInt32) : Prop where
  goes : m.writableAddress + offset + branchOffset word = m.stubAddress + UInt64.ofNat (4 * k)
  words : ∀ i < 5, fetch (m.stubTarget + UInt64.ofNat (4 * i)) =
    if m.writableAddress + offset = m.stubAddress + UInt64.ofNat (4 * i) then word
    else (aarch64Stub target).getD i 0

theorem patched (target : UInt64) (hm : s.map.mapping r.sectionIndex = some m)
    (hgoes : m.targetAddress + offset + branchOffset word =
      m.stubTarget + UInt64.ofNat (4 * k)) :
    Patched m offset target word k
      (((s.addStub r.sectionIndex m (aarch64Stub target)).writeWord (m.writableAddress + offset)
        word).fetch r.sectionIndex) := by
  have hhost : m.writableAddress + offset + branchOffset word =
      m.stubAddress + UInt64.ofNat (4 * k) := by
    rw [Mapping.stubTarget] at hgoes
    grind
  have hmod : (m.writableAddress + offset).toNat % 4 = m.stubAddress.toNat % 4 := by
    have hnat := congrArg UInt64.toNat hhost
    rw [UInt64.toNat_add (m.writableAddress + offset), toNat_branchOffset,
      UInt64.toNat_add m.stubAddress, toNat_ofNat'] at hnat
    split at hnat <;> omega
  refine ⟨hhost, fun i hi => ?_⟩
  have hlength : (aarch64Stub target).length = 5 := rfl
  rw [← readWord_patched (by omega) (by omega) hmod, State.fetch, State.writeWord,
    State.mapping_addStub hm]
  have haddress : m.writableAddress + (m.stubTarget + UInt64.ofNat (4 * i) - m.targetAddress) =
      m.stubAddress + UInt64.ofNat (4 * i) := by
    rw [Mapping.stubTarget]
    grind
  simp only [haddress]

/-- Behind its first word a stub does not set the high bits of `ip0`. -/
theorem Patched.not_reaches_later (h : Patched m offset target word k fetch) (hpos : 0 < k)
    (n : Nat) (hn : k + n ≤ 5) :
    ¬ ∀ ip0, runStub fetch n (m.stubTarget + UInt64.ofNat (4 * k)) ip0 = some target := by
  apply not_runStub_of_keepsHigh
  intro i hi
  rw [UInt64.add_assoc, ← ofNat_add, ← Nat.mul_add, h.words (k + i) (by omega)]
  split
  · rename_i hsite
    have hgoes := h.goes
    rw [hsite, Nat.mul_add, ofNat_add] at hgoes
    exact .inl (decode_of_goes_back (i := i) (by omega) (by grind))
  · exact keepsHigh_stub target (by omega) (by omega)

/-- The first word is only reached if the branch is the second one, and then the second word is no
longer what it was. -/
theorem Patched.not_reaches_first
    (h : Patched m offset target
      (value ||| imm26 (m.stubTarget + 4 - (m.targetAddress + offset))) 0 fetch) (n : Nat) :
    ¬ ∀ ip0, runStub fetch n m.stubTarget ip0 = some target := by
  intro hrun
  have hgoes := h.goes
  have hstart : m.stubTarget = m.targetAddress + offset +
      branchOffset (value ||| imm26 (m.stubTarget + 4 - (m.targetAddress + offset))) := by
    generalize branchOffset (value ||| imm26 (m.stubTarget + 4 - (m.targetAddress + offset))) = o
      at hgoes ⊢
    rw [Mapping.stubTarget]
    grind
  have hplace : m.targetAddress + offset = m.stubTarget + 4 := (low_of_goes_to_first hstart).1
  have hsecond := h.words 1 (by decide)
  have hnone : decode (fetch (m.stubTarget + 4)) = none := by
    exact decode_of_goes_back (i := 1) (by decide) (by grind)
  have hzero := hrun 0
  have hone := hrun 1
  cases n with
  | zero => cases hzero
  | succ =>
    rw [runStub] at hzero hone
    cases hfirst : decode (fetch m.stubTarget) with
    | none =>
      rw [hfirst] at hzero
      cases hzero
    | some insn =>
      rw [hfirst] at hzero hone
      cases insn with
      | brIp0 =>
        have h0 : 0 = target := Option.some.inj hzero
        have h1 : 1 = target := Option.some.inj hone
        exact absurd (h0.trans h1.symm) (by decide)
      | movz | movk => simp only [runStub_of_decode_none hnone, reduceCtorEq] at hzero

/-- A branch by a stub never gets to the symbol. -/
theorem not_reachesByStub (hm : s.map.mapping r.sectionIndex = some m) :
    let word := value ||| imm26 (m.stubTarget + 4 - (m.targetAddress + offset))
    ¬ ReachesByStub s
      ((s.addStub r.sectionIndex m (aarch64Stub target)).writeWord (m.writableAddress + offset) word)
      r.sectionIndex (m.targetAddress + offset + branchOffset word) target := by
  intro word hreaches
  obtain ⟨start, stop, hstart, hstop, k, hk, hdestination, hrun⟩ := hreaches
  rw [ElfMap.getStubTargetAddress_eq hm] at hstart
  have hstubTarget : start = m.stubTarget := (Option.some.inj hstart).symm
  have hafter := State.mapping_addStub hm (aarch64Stub target)
  rw [State.writeWord, ElfMap.getStubTargetAddress_eq hafter] at hstop
  have hsize : stop - start = 20 := by
    rw [hstubTarget, ← Option.some.inj hstop, Mapping.stubTarget, Mapping.stubTarget,
      show UInt64.ofNat (4 * (aarch64Stub target).length) = 20 from rfl]
    grind
  rw [hsize, show (20 : UInt64).toNat = 20 from rfl] at hk hrun
  rw [hstubTarget] at hdestination
  have hpatched := patched target hm hdestination
  rw [hdestination] at hrun
  by_cases hzero : k = 0
  · subst hzero
    rw [show UInt64.ofNat 0 = 0 from rfl, UInt64.add_zero] at hrun
    exact hpatched.not_reaches_first _ hrun
  · exact hpatched.not_reaches_later (Nat.pos_of_ne_zero hzero) _ (by omega) hrun

/-- Without a new stub there is no stub to go by. -/
theorem not_reachesByStub_of_map_eq {after : State} {destination : UInt64}
    (hmap : after.map = s.map) : ¬ ReachesByStub s after r.sectionIndex destination target := by
  intro hreaches
  obtain ⟨start, stop, hstart, hstop, k, hk, -⟩ := hreaches
  rw [hmap, hstart] at hstop
  rw [← Option.some.inj hstop, UInt64.sub_self] at hk
  cases hk

theorem resolveBranch26_far (hm : s.map.mapping r.sectionIndex = some m) (value : UInt32)
    (hfar : inReach (site.symbolTargetAddress - site.relocationTargetAddress) = false) :
    resolveBranch26 r [] site value s =
      if m.writableEnd - m.stubAddress < 4 then (false, s)
      else
        let after := s.addStub r.sectionIndex m (aarch64Stub site.symbolTargetAddress)
        let rel := m.stubTarget + 4 - site.relocationTargetAddress
        if m.stubTarget + 4 = 0 ∨ inReach rel = false then (false, after)
        else (true, after.writeWord site.relocationAddress (value ||| imm26 rel)) := by
  rw [resolveBranch26]
  simp only [hfar, getOrCreateStub_nil hm]
  by_cases hspace : m.writableEnd - m.stubAddress < 4
  · simp [hspace]
  · simp only [hspace, if_false, Option.getD_some, Bool.false_eq_true]
    by_cases hzero : m.stubTarget + 4 = 0
    · simp [hzero]
    · simp only [hzero, if_false, false_or, Bool.not_eq_true']

/-- A relocation of a branch is right exactly if the symbol is in reach, a whole number of words away,
and the old immediate has no bit that the new one has not, or if it fails: the stub that a far symbol
gets is never right, as it is entered behind its first instruction. -/
theorem branchReaches_iff (r : Relocation) (s : State) (hbranch : IsBranch r) :
    BranchReaches r s ↔ BranchPatchable r s := by
  cases hsite : r.site s.map r.offset with
  | none =>
    rw [BranchReaches, BranchPatchable, resolveAArch64_none hsite]
    simp [hsite]
  | some site =>
    obtain ⟨m, hm, haddress, hplace⟩ := r.exists_mapping hsite
    rw [BranchReaches, BranchPatchable, resolveAArch64_branch hbranch hsite]
    simp only [hsite, Option.some.injEq, exists_eq_left', forall_eq']
    by_cases hreach : inReach (site.symbolTargetAddress - site.relocationTargetAddress) = true
    · rw [← branchOffset_patched_iff _ hreach, resolveBranch26]
      simp only [hreach, if_true, true_implies, State.readWord_writeWord_self]
      refine Iff.trans (or_iff_left (not_reachesByStub_of_map_eq rfl)) ?_
      rw [UInt64.eq_sub_iff_add_eq, UInt64.add_comm]
    · rw [if_neg hreach]
      rw [Bool.not_eq_true] at hreach
      simp only [hm, Option.some.injEq, forall_eq', resolveBranch26_far hm _ hreach]
      by_cases hspace : m.writableEnd - m.stubAddress < 4
      · simp [hspace]
      by_cases hfail : m.stubTarget + 4 = 0 ∨
          inReach (m.stubTarget + 4 - site.relocationTargetAddress) = false
      · simp [hspace, hfail]
      simp only [hspace, hfail, if_false, false_or, iff_false, true_implies, not_or,
        State.readWord_writeWord_self]
      constructor
      · -- What a branch reaches is in reach, and the symbol is not.
        intro hdirect
        rw [← hdirect, UInt64.add_comm, UInt64.add_sub_cancel, inReach_branchOffset] at hreach
        cases hreach
      · rw [haddress, hplace]
        exact not_reachesByStub hm

/-- A section of one `bl` and 2 KiB for stubs, and symbols next to it and far away. -/
def oneCall : State where
  memory := fun a => if a = 0x10003 then 0x94 else 0
  map := {
    symbols := [⟨none, SymbolSpecialSection.absolute, 0x400100⟩,
      ⟨none, SymbolSpecialSection.absolute, 0x7f0000001000⟩]
    sectionMappings := [⟨1, 0x10000, 0x10004, 0x10804, 0x400000⟩]
    callbacks := [] }

def call (symbolIndex : UInt32) : Relocation := ⟨0x11b, symbolIndex, 0, 0, 1⟩

theorem branchReaches_short : IsBranch (call 0) ∧ BranchReaches (call 0) oneCall := by
  refine ⟨.inl rfl, (branchReaches_iff (call 0) oneCall (.inl rfl)).2 ?_⟩
  intro site hsite
  have hvalue : some ⟨0x400100, 0x10000, 0x400000⟩ = some site := hsite
  rw [← Option.some.inj hvalue]
  decide

/-- The branch to a far symbol succeeds, and the high bits of `ip0` say where it goes. -/
theorem call_far_wrong :
    (resolveAArch64 (call 1) [] oneCall).1 = true ∧
      (let after := (resolveAArch64 (call 1) [] oneCall).2
       let destination := 0x400000 + branchOffset (after.readWord 0x10000)
       destination = 0x400008 ∧
         runStub (after.fetch 1) 4 destination 0xabcd000000000000 = some 0xabcd7f0000001000) ∧
      ¬ BranchReaches (call 1) oneCall := by
  have hsite : (call 1).site oneCall.map (call 1).offset =
      some ⟨0x7f0000001000, 0x10000, 0x400000⟩ := rfl
  have hresolved : (resolveAArch64 (call 1) [] oneCall).1 = true := by decide +kernel
  refine ⟨hresolved, by decide +kernel, fun hreaches => ?_⟩
  obtain ⟨site, hfound, hend⟩ := hreaches hresolved
  rw [← Option.some.inj (hsite.symm.trans hfound)] at hend
  obtain hdirect | ⟨start, stop, hstart, hstop, k, -, -, hrun⟩ := hend
  · exact absurd hdirect (by decide +kernel)
  · have hfirst : start = 0x400004 := Option.some.inj (hstart.symm.trans rfl)
    have hlast : stop = 0x400018 := Option.some.inj (hstop.symm.trans (by decide +kernel))
    subst hfirst hlast
    have hwrong : ∀ n < 6, runStub ((resolveAArch64 (call 1) [] oneCall).2.fetch 1) n
        (0x400000 + branchOffset ((resolveAArch64 (call 1) [] oneCall).2.readWord 0x10000))
        0xabcd000000000000 ≠ some 0x7f0000001000 := by
      decide +kernel
    exact hwrong (5 - k) (by omega) (hrun 0xabcd000000000000)

end ConstructionKit.Loader
