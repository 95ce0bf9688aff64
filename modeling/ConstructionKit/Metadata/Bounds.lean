import ConstructionKit.Metadata.Context

/-! Which bytes the decoder of a metadata binary reads, and what it accepts.  The checks of a block
info are made on sums that wrap and after the reads, so a binary is only safe if its infos are sound up
to the first one that a check rejects. -/

namespace ConstructionKit.Metadata

open ProofKit List

/-- The fields of an info at a position, as far as the binary goes. -/
def infoAt (binary : List UInt8) (endianness : Endian) (pos : Nat) : BlockInfo :=
  ⟨.ofNat (readValue ((binary.drop pos).take 8) endianness),
    .ofNat (readValue ((binary.drop (pos + 8)).take 8) endianness),
    .ofNat (readValue ((binary.drop (pos + 16)).take 4) endianness),
    .ofNat (readValue ((binary.drop (pos + 20)).take 4) endianness)⟩

/-- The end of the block infos. -/
def Header.tableEnd (header : Header) : Nat :=
  header.blockListOffset.toNat + blockInfoSize * header.nBlocks.toNat

/-- What an accepted info should satisfy: its block lies behind the infos and inside the binary, a null
ends its name, and its format and encoding are valid. -/
structure BlockInfo.Safe (info : BlockInfo) (header : Header) (binary : List UInt8) : Prop where
  offset : header.tableEnd ≤ info.offset.toNat
  size : info.offset.toNat + info.size.toNat ≤ binary.length
  name : (0 : UInt8) ∈ binary.drop info.nameIdx.toNat
  fmt : (getFmt info.flags).isOk = true
  enc : (getEnc info.flags).isOk = true

/-- No byte outside of the binary is read for the header and the infos, and every info that is
accepted is safe, also if a later one is rejected. -/
def BoundsSafe (binary : List UInt8) : Prop :=
  decodeMdHeader binary ≠ .error .undefined ∧
    ∀ header, decodeMdHeader binary = .ok header →
      decodeMdBlockInfoList header binary.length header.nBlocks.toNat
        (binary.drop header.blockListOffset.toNat) ≠ .error .undefined ∧
      ∀ n ≤ header.nBlocks.toNat, ∀ infos,
        decodeMdBlockInfoList header binary.length n
          (binary.drop header.blockListOffset.toNat) = .ok infos →
        ∀ info ∈ infos, info.Safe header binary

/-- A field of an info fails its check, and it lies inside the binary. -/
def RejectedAt (binary : List UInt8) (header : Header) (pos : Nat) : Prop :=
  pos + 8 ≤ binary.length ∧
      (infoAt binary header.endianness pos).offset.toNat < header.tableEnd % 2 ^ 32 ∨
    pos + 16 ≤ binary.length ∧
      binary.length < ((infoAt binary header.endianness pos).offset.toNat +
        (infoAt binary header.endianness pos).size.toNat) % 2 ^ 64 ∨
    pos + 20 ≤ binary.length ∧
      header.blockListOffset < (infoAt binary header.endianness pos).nameIdx ∨
    pos + 24 ≤ binary.length ∧
      (getEnc (infoAt binary header.endianness pos).flags).isOk = false ∧
      (getFmt (infoAt binary header.endianness pos).flags).isOk = false

/-- An info lies inside the binary and is safe. -/
structure SoundAt (binary : List UInt8) (header : Header) (pos : Nat) : Prop where
  inside : pos + 24 ≤ binary.length
  safe : (infoAt binary header.endianness pos).Safe header binary
  name : (infoAt binary header.endianness pos).nameIdx ≤ header.blockListOffset

/-- The infos are sound up to the end or up to one that is rejected. -/
def SoundInfos (binary : List UInt8) (header : Header) (pos n : Nat) : Prop :=
  ∃ k ≤ n, (∀ i < k, SoundAt binary header (pos + blockInfoSize * i)) ∧
    (k = n ∨ RejectedAt binary header (pos + blockInfoSize * k))

section

variable {binary : List UInt8} {header : Header} {pos : Nat}

theorem readBytes_drop_bind {α : Type} (binary : List UInt8) (pos : Nat) {width : Nat}
    (hwidth : 0 < width) (f : List UInt8 × List UInt8 → Result α) :
    (readBytes width (binary.drop pos) >>= f) =
      if binary.length < pos + width then .error .undefined
      else f ((binary.drop pos).take width, binary.drop (pos + width)) := by
  rw [readBytes, length_drop, drop_drop]
  by_cases h : binary.length < pos + width
  · rw [if_pos h, if_neg (by omega)]
    rfl
  · rw [if_neg h, if_pos (by omega)]
    rfl

/-- Reads and checks take turns. -/
theorem decodeMdBlockInfo_drop (binary : List UInt8) (header : Header) (pos : Nat) :
    decodeMdBlockInfo (binary.drop pos) header binary.length =
      let info := infoAt binary header.endianness pos
      if binary.length < pos + 8 then .error .undefined
      else if info.offset <
          (header.blockListOffset + .ofNat blockInfoSize * header.nBlocks).toUInt64 then
        .error (.text "Invalid block offset value.")
      else if binary.length < pos + 16 then .error .undefined
      else if (info.offset + info.size).toNat > binary.length then
        .error (.text "Invalid Block size")
      else if binary.length < pos + 20 then .error .undefined
      else if info.nameIdx > header.blockListOffset then .error (.text "Invalid name index value.")
      else if binary.length < pos + 24 then .error .undefined
      else if !((getEnc info.flags).isOk || (getFmt info.flags).isOk) then
        .error (.text "Invalid flags field.")
      else .ok info := by
  -- every read is followed by a check of what was read
  refine (readBytes_drop_bind binary pos (by decide) _).trans (if_congr Iff.rfl rfl ?_)
  refine if_congr Iff.rfl rfl ?_
  refine (readBytes_drop_bind binary (pos + 8) (by decide) _).trans (if_congr Iff.rfl rfl ?_)
  refine if_congr Iff.rfl rfl ?_
  refine (readBytes_drop_bind binary (pos + 16) (by decide) _).trans (if_congr Iff.rfl rfl ?_)
  refine if_congr Iff.rfl rfl ?_
  exact (readBytes_drop_bind binary (pos + 20) (by decide) _).trans (if_congr Iff.rfl rfl rfl)

theorem toNat_minValidBlockOffset_eq (header : Header) :
    (header.blockListOffset + .ofNat blockInfoSize * header.nBlocks).toUInt64.toNat =
      header.tableEnd % 2 ^ 32 := by
  rw [UInt32.toNat_toUInt64, UInt32.toNat_add, UInt32.toNat_mul, Nat.add_mod_mod]
  rfl

theorem decodeMdBlockInfo_cases (binary : List UInt8) (header : Header) (pos : Nat) :
    (RejectedAt binary header pos ∧
      ∃ message, decodeMdBlockInfo (binary.drop pos) header binary.length = .error (.text message)) ∨
    (¬ RejectedAt binary header pos ∧ pos + 24 ≤ binary.length ∧
      decodeMdBlockInfo (binary.drop pos) header binary.length =
        .ok (infoAt binary header.endianness pos)) ∨
    (¬ RejectedAt binary header pos ∧ binary.length < pos + 24 ∧
      decodeMdBlockInfo (binary.drop pos) header binary.length = .error .undefined) := by
  have hmin := toNat_minValidBlockOffset_eq header
  unfold RejectedAt
  rw [← hmin]
  generalize hresult : decodeMdBlockInfo (binary.drop pos) header binary.length = result
  rw [decodeMdBlockInfo_drop] at hresult
  simp only at hresult
  split at hresult
  · exact .inr (.inr ⟨by omega, by omega, hresult.symm⟩)
  split at hresult
  · rename_i hoffset
    exact .inl ⟨.inl ⟨by omega, hoffset⟩, _, hresult.symm⟩
  rename_i hoffset
  split at hresult
  · refine .inr (.inr ⟨?_, by omega, hresult.symm⟩)
    rintro (⟨-, h⟩ | ⟨h, -⟩ | ⟨h, -⟩ | ⟨h, -⟩)
    · exact hoffset h
    all_goals omega
  split at hresult
  · rename_i hsize
    exact .inl ⟨.inr (.inl ⟨by omega, hsize⟩), _, hresult.symm⟩
  rename_i hsize
  split at hresult
  · refine .inr (.inr ⟨?_, by omega, hresult.symm⟩)
    rintro (⟨-, h⟩ | ⟨-, h⟩ | ⟨h, -⟩ | ⟨h, -⟩)
    · exact hoffset h
    · exact hsize h
    all_goals omega
  split at hresult
  · rename_i hname
    exact .inl ⟨.inr (.inr (.inl ⟨by omega, hname⟩)), _, hresult.symm⟩
  rename_i hname
  split at hresult
  · refine .inr (.inr ⟨?_, by omega, hresult.symm⟩)
    rintro (⟨-, h⟩ | ⟨-, h⟩ | ⟨-, h⟩ | ⟨h, -⟩)
    · exact hoffset h
    · exact hsize h
    · exact hname h
    · omega
  split at hresult
  · rename_i hflags
    rw [Bool.not_eq_true', Bool.or_eq_false_iff] at hflags
    exact .inl ⟨.inr (.inr (.inr ⟨by omega, hflags⟩)), _, hresult.symm⟩
  · rename_i hflags
    refine .inr (.inl ⟨?_, by omega, hresult.symm⟩)
    rw [Bool.not_eq_true', Bool.or_eq_false_iff] at hflags
    rintro (⟨-, h⟩ | ⟨-, h⟩ | ⟨-, h⟩ | ⟨-, h⟩)
    · exact hoffset h
    · exact hsize h
    · exact hname h
    · exact hflags h

/-! ### The list of infos -/

/-- What the decoder does with the infos from a position on. -/
def InfosSafe (binary : List UInt8) (header : Header) (pos n : Nat) : Prop :=
  decodeMdBlockInfoList header binary.length n (binary.drop pos) ≠ .error .undefined ∧
    ∀ k ≤ n, ∀ infos, decodeMdBlockInfoList header binary.length k (binary.drop pos) = .ok infos →
      ∀ info ∈ infos, info.Safe header binary

theorem decodeMdBlockInfoList_drop (binary : List UInt8) (header : Header) (pos n : Nat) :
    decodeMdBlockInfoList header binary.length (n + 1) (binary.drop pos) = (do
      let info ← decodeMdBlockInfo (binary.drop pos) header binary.length
      return info :: (← decodeMdBlockInfoList header binary.length n
        (binary.drop (pos + blockInfoSize)))) := by
  rw [decodeMdBlockInfoList, drop_drop]

theorem safe_of_zero {infos : List BlockInfo}
    (h : decodeMdBlockInfoList header binary.length 0 (binary.drop pos) = .ok infos) :
    ∀ info ∈ infos, info.Safe header binary := by
  cases h
  exact fun info hinfo => absurd hinfo not_mem_nil

theorem infosSafe_rejected (h : RejectedAt binary header pos) (n : Nat) :
    InfosSafe binary header pos n := by
  have hfails (k : Nat) : ∃ message,
      decodeMdBlockInfoList header binary.length (k + 1) (binary.drop pos) =
        .error (.text message) := by
    obtain ⟨-, message, hdecode⟩ | ⟨hnot, -⟩ | ⟨hnot, -⟩ := decodeMdBlockInfo_cases binary header pos
    · rw [decodeMdBlockInfoList_drop, hdecode]
      exact ⟨message, rfl⟩
    all_goals exact absurd h hnot
  refine ⟨?_, fun k _ infos hinfos => ?_⟩
  · cases n with
    | zero => exact fun h => by cases h
    | succ n =>
      obtain ⟨message, hdecode⟩ := hfails n
      rw [hdecode]
      exact fun h => by cases h
  · cases k with
    | zero => exact safe_of_zero hinfos
    | succ k =>
      obtain ⟨message, hdecode⟩ := hfails k
      rw [hdecode] at hinfos
      cases hinfos

theorem infosSafe_succ {info : BlockInfo} {n : Nat}
    (h : decodeMdBlockInfo (binary.drop pos) header binary.length = .ok info) :
    InfosSafe binary header pos (n + 1) ↔
      info.Safe header binary ∧ InfosSafe binary header (pos + blockInfoSize) n := by
  have hlist (k : Nat) : decodeMdBlockInfoList header binary.length (k + 1) (binary.drop pos) =
      (info :: ·) <$> decodeMdBlockInfoList header binary.length k
        (binary.drop (pos + blockInfoSize)) := by
    rw [decodeMdBlockInfoList_drop, h]
    rfl
  constructor
  · rintro ⟨hdefined, hsafe⟩
    refine ⟨hsafe 1 (by omega) [info] (hlist 0) info (mem_singleton_self _), ?_, ?_⟩
    · intro hundefined
      rw [hlist, hundefined] at hdefined
      exact hdefined rfl
    · intro k hk infos hinfos info' hinfo'
      refine hsafe (k + 1) (by omega) (info :: infos) ?_ info' (mem_cons_of_mem _ hinfo')
      rw [hlist, hinfos]
      rfl
  · rintro ⟨hinfo, hdefined, hsafe⟩
    refine ⟨?_, fun k hk infos hinfos => ?_⟩
    · rw [hlist]
      cases hrest : decodeMdBlockInfoList header binary.length n
        (binary.drop (pos + blockInfoSize)) with
      | error fault =>
        rintro heq
        rw [hrest] at hdefined
        cases heq
        exact hdefined rfl
      | ok infos => exact fun heq => by cases heq
    · cases k with
      | zero => exact safe_of_zero hinfos
      | succ k =>
        rw [hlist] at hinfos
        cases hrest : decodeMdBlockInfoList header binary.length k
          (binary.drop (pos + blockInfoSize)) with
        | error fault =>
          rw [hrest] at hinfos
          cases hinfos
        | ok rest =>
          rw [hrest] at hinfos
          cases hinfos
          exact forall_mem_cons.2 ⟨hinfo, hsafe k (by omega) rest hrest⟩

theorem soundInfos_succ (h : ¬ RejectedAt binary header pos) (n : Nat) :
    SoundInfos binary header pos (n + 1) ↔
      SoundAt binary header pos ∧ SoundInfos binary header (pos + blockInfoSize) n := by
  have hshift (i : Nat) : pos + blockInfoSize * (i + 1) = pos + blockInfoSize + blockInfoSize * i := by
    ring
  constructor
  · rintro ⟨k, hk, hsound, hend⟩
    cases k with
    | zero => exact absurd (hend.resolve_left (by omega)) h
    | succ k =>
      refine ⟨hsound 0 (by omega), k, by omega, fun i hi => ?_, hend.imp (by omega) fun hrejected => ?_⟩
      · rw [← hshift]
        exact hsound (i + 1) (by omega)
      · rwa [← hshift]
  · rintro ⟨hfirst, k, hk, hsound, hend⟩
    refine ⟨k + 1, by omega, fun i hi => ?_, hend.imp (by omega) fun hrejected => ?_⟩
    · cases i with
      | zero => exact hfirst
      | succ i =>
        rw [hshift]
        exact hsound i (by omega)
    · rwa [hshift]

/-- By induction on the number of infos; what happens to the first one decides which side it is on. -/
theorem infosSafe_iff (binary : List UInt8) (header : Header) (pos n : Nat) :
    InfosSafe binary header pos n ↔ SoundInfos binary header pos n := by
  induction n generalizing pos with
  | zero =>
    refine iff_of_true ⟨fun h => (by cases h), fun k hk infos hinfos => ?_⟩
      ⟨0, le_rfl, fun i hi => absurd hi (Nat.not_lt_zero i), .inl rfl⟩
    obtain rfl : k = 0 := by omega
    exact safe_of_zero hinfos
  | succ n ih =>
    obtain ⟨hrejected, -⟩ | ⟨hnot, hinside, hok⟩ | ⟨hnot, hshort, hundefined⟩ :=
      decodeMdBlockInfo_cases binary header pos
    · exact iff_of_true (infosSafe_rejected hrejected _)
        ⟨0, Nat.zero_le _, fun i hi => absurd hi (Nat.not_lt_zero i), .inr hrejected⟩
    · have hname : (infoAt binary header.endianness pos).nameIdx ≤ header.blockListOffset :=
        UInt32.not_lt.1 fun hlt => hnot (.inr (.inr (.inl ⟨by omega, hlt⟩)))
      rw [infosSafe_succ hok, soundInfos_succ hnot, ih]
      exact and_congr_left' ⟨fun hsafe => ⟨hinside, hsafe, hname⟩, fun hsound => hsound.safe⟩
    · refine iff_of_false (fun h => h.1 ?_) fun h => ?_
      · rw [decodeMdBlockInfoList_drop, hundefined]
        rfl
      · exact absurd ((soundInfos_succ hnot n).1 h).1.inside (Nat.not_le.2 hshort)

end

theorem decodeMdHeader_defined (binary : List UInt8) : decodeMdHeader binary ≠ .error .undefined := by
  intro h
  unfold decodeMdHeader at h
  split at h
  · cases h
  split at h
  · cases h
  split at h
  · cases h
  split at h
  · cases h
  dsimp only at h
  split at h <;> cases h

/-- The decoder stays inside the binary and only accepts safe infos exactly if the infos of the binary
are sound up to its end or up to the first one that a check rejects. -/
theorem boundsSafe_iff (binary : List UInt8) : BoundsSafe binary ↔
    ∀ header, decodeMdHeader binary = .ok header →
      SoundInfos binary header header.blockListOffset.toNat header.nBlocks.toNat := by
  constructor
  · intro h header hheader
    exact (infosSafe_iff ..).1 (h.2 header hheader)
  · intro h
    exact ⟨decodeMdHeader_defined binary, fun header hheader => (infosSafe_iff ..).2 (h header hheader)⟩

/-- A header that announces one info. -/
def oneInfo : List UInt8 := magic ++ [1, 1, 0, 0, 16, 0, 0, 0, 1, 0, 0, 0]

/-- The info is not there, or its block ends behind the address space. -/
theorem not_boundsSafe_oneInfo :
    ¬ BoundsSafe (oneInfo ++ [0]) ∧
      ¬ BoundsSafe (oneInfo ++ [0xff, 0xff, 0xff, 0xff, 0xff, 0xff, 0xff, 0xff, 2, 0, 0, 0, 0, 0, 0, 0,
        6, 0, 0, 0, 0, 0, 0, 0]) := by
  refine ⟨fun h => ?_, fun h => ?_⟩
  · exact (h.2 ⟨.little, 16, 1⟩ (by decide)).1 (by decide)
  · have hsafe := (h.2 ⟨.little, 16, 1⟩ (by decide)).2 1 (by decide)
      [⟨0xffffffffffffffff, 2, 6, 0⟩] (by decide) _ (mem_singleton_self _)
    exact absurd hsafe.size (by decide)

end ConstructionKit.Metadata
