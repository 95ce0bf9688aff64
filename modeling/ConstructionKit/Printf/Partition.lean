import ConstructionKit.Printf.Layout
import Mathlib.Data.Fin.VecNotation

/-! When the chunks of the device are those of the host.  The generated code strides over the third
dimension by `ny * nz`, where its comment has `nx * ny`, and the offset of a chunk is an `i32` that
`getelementptr` sign-extends.  So the partition is right exactly when the third dimension has one
group or as many as the first, and the last chunk starts below `2^31`. -/

namespace ConstructionKit.Printf

open NDRange (Dim3)
open ProofKit Nat UInt64 List

/-- The number of work-groups, over the natural numbers. -/
def groupCount (nums : Dim3) : Nat := (nums 0).toNat * (nums 1).toNat * (nums 2).toNat

def groupIds (nums : Dim3) : Set Dim3 := {id | ∀ i, id i < nums i}

/-- Each work-group has a chunk of its own, these are the chunks that `print` reads, and
`createPrintfBuffer` gave each of them its header and stored nothing else. -/
structure Partitioned (printfBufferSize : UInt64) (nums : Dim3) (buffer : PrintfBuffer) : Prop where
  bijOn : Set.BijOn (deviceChunk printfBufferSize nums) (groupIds nums)
    {chunk | chunk ∈ printChunks buffer}
  initialised : (buffer.stores.map fun store => ((4 * store.1.toNat : Int), store.2)) =
    (printChunks buffer).flatMap fun chunk => [(chunk.1, 8), (chunk.1 + 4, 0)]

/-! ### Words -/

theorem and_not_three (n : Nat) : n &&& 0xFFFFFFFC = n % 2 ^ 32 / 4 * 4 := by
  apply eq_of_testBit_eq
  intro i
  have hmask : (0xFFFFFFFC : Nat) = (2 ^ 30 - 1) * 2 ^ 2 := by decide
  rw [testBit_and, hmask, show 4 = 2 ^ 2 from rfl, testBit_mul_two_pow,
    testBit_mul_two_pow, testBit_two_pow_sub_one, testBit_div_two_pow,
    testBit_mod_two_pow]
  by_cases hi : 2 ≤ i
  · have h1 : i - 2 < 30 ↔ i < 32 := by omega
    have h2 : i - 2 + 2 = i := by omega
    simp [hi, h1, Bool.and_comm]
  · simp [hi]

theorem gepOffset_lt (index : UInt32) : gepOffset index < 2 ^ 31 := by
  have h := BitVec.two_mul_toInt_lt (x := index.toBitVec)
  rw [gepOffset]
  omega

theorem gepOffset_eq {index : UInt32} (h : index.toNat < 2 ^ 31) : gepOffset index = index.toNat := by
  rw [gepOffset, BitVec.toInt_eq_toNat_of_lt]
  · rfl
  · have : index.toBitVec.toNat = index.toNat := rfl
    omega

theorem gepOffset_nonneg {index : UInt32} (h : 0 ≤ gepOffset index) :
    gepOffset index = index.toNat := by
  apply gepOffset_eq
  rw [gepOffset, BitVec.toInt_eq_toNat_cond] at h
  have : index.toBitVec.toNat = index.toNat := rfl
  split at h <;> omega

/-! ### The sizes of the chunks -/

section Launch

variable {printfBufferSize : UInt64} {nums localSize id : Dim3} {p : Nat × Nat × Nat}
  {buffer : PrintfBuffer}

/-- The bytes of a chunk, over the natural numbers. -/
def chunkSize (printfBufferSize : UInt64) (nums : Dim3) : Nat :=
  printfBufferSize.toNat / groupCount nums / 4 * 4

theorem groupCount_mul_chunkSize_le (printfBufferSize : UInt64) (nums : Dim3) :
    groupCount nums * chunkSize printfBufferSize nums ≤ printfBufferSize.toNat := by
  calc groupCount nums * chunkSize printfBufferSize nums
      ≤ groupCount nums * (printfBufferSize.toNat / groupCount nums) :=
        Nat.mul_le_mul_left _ (div_mul_le_self ..)
    _ ≤ printfBufferSize.toNat := mul_div_le ..

section Counts

variable (hnums : ∀ i, 0 < (nums i).toNat) (hcount : groupCount nums < 2 ^ 32)

include hnums

theorem groupCount_pos : 0 < groupCount nums :=
  Nat.mul_pos (Nat.mul_pos (hnums 0) (hnums 1)) (hnums 2)

theorem nums_le_groupCount (i : Fin 3) : (nums i).toNat ≤ groupCount nums := by
  have h0 := hnums 0
  have h1 := hnums 1
  have h2 := hnums 2
  have h01 : (nums 0).toNat * (nums 1).toNat ≤ groupCount nums := Nat.le_mul_of_pos_right _ h2
  match i with
  | 0 => exact (Nat.le_mul_of_pos_right _ h1).trans h01
  | 1 => exact (Nat.le_mul_of_pos_left _ h0).trans h01
  | 2 => exact Nat.le_mul_of_pos_left _ (Nat.mul_pos h0 h1)

theorem stride_le_groupCount : (nums 1).toNat * (nums 2).toNat ≤ groupCount nums := by
  rw [groupCount, Nat.mul_assoc]
  exact Nat.le_mul_of_pos_left _ (hnums 0)

include hcount

theorem nums_toUInt32 (i : Fin 3) : (nums i).toUInt32.toNat = (nums i).toNat := by
  have h := nums_le_groupCount hnums i
  rw [toNat_toUInt32, mod_eq_of_lt (by omega)]

theorem stride_toNat :
    ((nums 1).toUInt32 * (nums 2).toUInt32).toNat = (nums 1).toNat * (nums 2).toNat := by
  have h := stride_le_groupCount hnums
  rw [UInt32.toNat_mul, nums_toUInt32 hnums hcount, nums_toUInt32 hnums hcount,
    mod_eq_of_lt (by omega)]

theorem groupBufferSize_toNat (hsize : printfBufferSize.toNat < 2 ^ 32) :
    (groupBufferSize printfBufferSize nums).toNat = chunkSize printfBufferSize nums := by
  have hprod : (nums 0).toNat * ((nums 1).toNat * (nums 2).toNat) = groupCount nums := by
    rw [groupCount, Nat.mul_assoc]
  have hmask : (~~~3 : UInt32).toNat = 0xFFFFFFFC := by decide
  rw [groupBufferSize, UInt32.toNat_and, hmask, and_not_three, UInt32.toNat_div,
    UInt32.toNat_mul, stride_toNat hnums hcount, nums_toUInt32 hnums hcount, hprod,
    mod_eq_of_lt hcount, toNat_toUInt32, mod_eq_of_lt hsize, chunkSize,
    mod_eq_of_lt (lt_of_le_of_lt (Nat.div_le_self ..) hsize)]

/-- The index that the device computes, before it is reduced to a word. -/
theorem groupAddr_toNat (hid : id ∈ groupIds nums) :
    (groupAddr nums id).toNat = ((id 0).toNat + ((nums 0).toNat * (id 1).toNat +
      (id 2).toNat * ((nums 1).toNat * (nums 2).toNat))) % 2 ^ 32 := by
  have htrunc (i : Fin 3) : (id i).toUInt32.toNat = (id i).toNat := by
    have h1 := lt_iff_toNat_lt.mp (hid i)
    have h2 := nums_le_groupCount hnums i
    rw [toNat_toUInt32, mod_eq_of_lt (by omega)]
  rw [groupAddr, UInt32.toNat_add, UInt32.toNat_add, UInt32.toNat_mul, UInt32.toNat_mul,
    stride_toNat hnums hcount, nums_toUInt32 hnums hcount, htrunc, htrunc, htrunc]
  omega

end Counts

/-! ### The chunks of the host -/

/-- The bytes of the chunk with index `i`. -/
def chunkAt (printfBufferSize : UInt64) (nums : Dim3) (i : Nat) : Int × Nat :=
  ((i * chunkSize printfBufferSize nums : Nat), chunkSize printfBufferSize nums)

/-- `createPrintfBuffer` for `nums` groups of `localSize` work-items. -/
def createFor (printfBufferSize : UInt64) (nums localSize : Dim3) : Option PrintfBuffer :=
  createPrintfBuffer printfBufferSize localSize fun i => nums i * localSize i

theorem numGroups_toNat (hlocal : ∀ i, 0 < (localSize i).toNat)
    (hitems : groupCount nums * groupCount localSize < 2 ^ 64)
    (hnums : ∀ i, 0 < (nums i).toNat) :
    (nums 0 * localSize 0 * (nums 1 * localSize 1) * (nums 2 * localSize 2) /
      (localSize 0 * localSize 1 * localSize 2)).toNat = groupCount nums := by
  have hpos := groupCount_pos hlocal
  have hle : groupCount localSize < 2 ^ 64 :=
    lt_of_le_of_lt (Nat.le_mul_of_pos_left _ (groupCount_pos hnums)) hitems
  have hl : (localSize 0 * localSize 1 * localSize 2).toNat = groupCount localSize := by
    simp only [UInt64.toNat_mul, mod_mul_mod]
    exact mod_eq_of_lt hle
  have hg : (nums 0 * localSize 0 * (nums 1 * localSize 1) * (nums 2 * localSize 2)).toNat =
      groupCount nums * groupCount localSize := by
    simp only [UInt64.toNat_mul, mod_mul_mod, mul_mod_mod]
    rw [← mod_eq_of_lt hitems, groupCount, groupCount]
    congr 1
    ring
  rw [UInt64.toNat_div, hg, hl, Nat.mul_div_cancel _ hpos]

theorem createFor_spec (hnums : ∀ i, 0 < (nums i).toNat) (hlocal : ∀ i, 0 < (localSize i).toNat)
    (hitems : groupCount nums * groupCount localSize < 2 ^ 64)
    (hsize : printfBufferSize.toNat < 2 ^ 32)
    (h : createFor printfBufferSize nums localSize = some buffer) :
    buffer.numGroups.toNat = groupCount nums ∧
      buffer.bufferGroupSize.toNat = chunkSize printfBufferSize nums ∧
      8 ≤ chunkSize printfBufferSize nums ∧
      buffer.stores = (List.range (groupCount nums)).flatMap fun i =>
        initStores buffer.bufferGroupSize (UInt64.ofNat i) := by
  have hn := numGroups_toNat hlocal hitems hnums
  simp only [createFor, createPrintfBuffer] at h
  split at h
  · cases h
  rename_i hlt
  have hchunk : (printfBufferSize / (nums 0 * localSize 0 * (nums 1 * localSize 1) *
      (nums 2 * localSize 2) / (localSize 0 * localSize 1 * localSize 2)) &&& 0xFFFFFFFC).toNat =
      chunkSize printfBufferSize nums := by
    rw [UInt64.toNat_and, show (0xFFFFFFFC : UInt64).toNat = 0xFFFFFFFC from rfl, and_not_three,
      UInt64.toNat_div, hn, mod_eq_of_lt (lt_of_le_of_lt (Nat.div_le_self ..) hsize), chunkSize]
  rw [lt_iff_toNat_lt, hchunk] at hlt
  cases h
  exact ⟨hn, hchunk, by simpa using hlt, by rw [hn]⟩

section Host

variable (hsize : printfBufferSize.toNat < 2 ^ 32) (hcount : groupCount nums < 2 ^ 32)
  (hn : buffer.numGroups.toNat = groupCount nums)
  (hc : buffer.bufferGroupSize.toNat = chunkSize printfBufferSize nums)

include hsize hcount hc

theorem chunk_start_toNat {i : Nat} (hi : i < groupCount nums) :
    (UInt64.ofNat i * buffer.bufferGroupSize).toNat = i * chunkSize printfBufferSize nums := by
  have hle := groupCount_mul_chunkSize_le printfBufferSize nums
  have hmono := Nat.mul_le_mul_right (chunkSize printfBufferSize nums) hi.le
  rw [UInt64.toNat_mul, hc, toNat_ofNat', mod_eq_of_lt (by omega : i < 2 ^ 64),
    mod_eq_of_lt (by omega)]

include hn

theorem printChunks_eq :
    printChunks buffer = (List.range (groupCount nums)).map (chunkAt printfBufferSize nums) := by
  rw [printChunks, hn]
  apply map_congr_left
  intro i hi
  rw [printChunk, chunk_start_toNat hsize hcount hc (List.mem_range.mp hi), hc, chunkAt]

/-- Each chunk that `print` reads has been given its header, and nothing else has been stored. -/
theorem stores_eq
    (hstores : buffer.stores = (List.range (groupCount nums)).flatMap fun i =>
      initStores buffer.bufferGroupSize (UInt64.ofNat i)) :
    (buffer.stores.map fun store => ((4 * store.1.toNat : Int), store.2)) =
      (printChunks buffer).flatMap fun chunk => [(chunk.1, 8), (chunk.1 + 4, 0)] := by
  rw [hstores, printChunks_eq hsize hcount hn hc, map_flatMap, flatMap_map]
  apply flatMap_congr
  intro i hi
  have hstart := chunk_start_toNat hsize hcount hc (List.mem_range.mp hi)
  have hfour : i * chunkSize printfBufferSize nums / 4 * 4 = i * chunkSize printfBufferSize nums :=
    Nat.div_mul_cancel (Dvd.dvd.mul_left (Nat.dvd_mul_left ..) i)
  have hlt := (UInt64.ofNat i * buffer.bufferGroupSize).toNat_lt
  have hindex : (UInt64.ofNat i * buffer.bufferGroupSize / 4).toNat =
      i * chunkSize printfBufferSize nums / 4 := by
    rw [UInt64.toNat_div, hstart]
    rfl
  have hnext : (UInt64.ofNat i * buffer.bufferGroupSize / 4 + 1).toNat =
      i * chunkSize printfBufferSize nums / 4 + 1 := by
    rw [UInt64.toNat_add, hindex, toNat_one, mod_eq_of_lt (by omega)]
  simp only [initStores, map_cons, map_nil, chunkAt, List.cons.injEq,
    Prod.mk.injEq, and_true]
  omega

end Host

/-! ### The chunks of the device -/

/-- What the launch and the device promise. -/
structure Sized (printfBufferSize : UInt64) (nums localSize : Dim3) : Prop where
  nums_pos : ∀ i, 0 < (nums i).toNat
  local_pos : ∀ i, 0 < (localSize i).toNat
  count_lt : groupCount nums < 2 ^ 32
  items_lt : groupCount nums * groupCount localSize < 2 ^ 64
  size_lt : printfBufferSize.toNat < 2 ^ 32

/-- The group at the given coordinates. -/
def groupAt (p : Nat × Nat × Nat) : Dim3 :=
  ![UInt64.ofNat p.1, UInt64.ofNat p.2.1, UInt64.ofNat p.2.2]

/-- The coordinates of a group. -/
def coords (id : Dim3) : Nat × Nat × Nat := ((id 0).toNat, (id 1).toNat, (id 2).toNat)

theorem coords_mem_box :
    coords id ∈ box (nums 0).toNat (nums 1).toNat (nums 2).toNat ↔ id ∈ groupIds nums := by
  simp only [box, coords, groupIds, Fin.forall_fin_succ, lt_iff_toNat_lt]
  simp

theorem coords_injective : Function.Injective coords := by
  intro a b h
  simp only [coords, Prod.mk.injEq, UInt64.toNat_inj] at h
  funext i
  match i with
  | 0 => exact h.1
  | 1 => exact h.2.1
  | 2 => exact h.2.2

theorem coords_groupAt
    (hp : p ∈ box (nums 0).toNat (nums 1).toNat (nums 2).toNat) : coords (groupAt p) = p := by
  obtain ⟨x, y, z⟩ := p
  obtain ⟨hx, hy, hz⟩ := hp
  have h0 := (nums 0).toNat_lt
  have h1 := (nums 1).toNat_lt
  have h2 := (nums 2).toNat_lt
  simp only at hx hy hz
  simp only [coords, groupAt, Prod.mk.injEq]
  refine ⟨mod_eq_of_lt (by omega), mod_eq_of_lt (by omega), mod_eq_of_lt (by omega)⟩

theorem groupAt_mem
    (hp : p ∈ box (nums 0).toNat (nums 1).toNat (nums 2).toNat) : groupAt p ∈ groupIds nums := by
  rw [← coords_mem_box, coords_groupAt hp]
  exact hp

theorem coords_bijOn : Set.BijOn coords (groupIds nums)
    (box (nums 0).toNat (nums 1).toNat (nums 2).toNat) := by
  refine ⟨fun id hid => coords_mem_box.mpr hid, coords_injective.injOn, fun p hp => ?_⟩
  exact ⟨groupAt p, groupAt_mem hp, coords_groupAt hp⟩

theorem chunkAt_bijOn (hc : 0 < chunkSize printfBufferSize nums) :
    Set.BijOn (chunkAt printfBufferSize nums) (Set.Iio (groupCount nums))
      {chunk | chunk ∈ (List.range (groupCount nums)).map (chunkAt printfBufferSize nums)} := by
  refine ⟨fun i hi => ?_, fun i _ j _ h => ?_, fun chunk h => ?_⟩
  · exact mem_map.mpr ⟨i, List.mem_range.mpr hi, rfl⟩
  · simp only [chunkAt, Prod.mk.injEq, Nat.cast_inj, and_true] at h
    exact eq_of_mul_eq_mul_right hc h
  · obtain ⟨i, hi, rfl⟩ := mem_map.mp h
    exact ⟨i, List.mem_range.mp hi, rfl⟩

section Device

variable (hs : Sized printfBufferSize nums localSize)

include hs

theorem deviceChunk_eq {i : Nat} (hi : (groupAddr nums id).toNat = i)
    (hlt : i * chunkSize printfBufferSize nums < 2 ^ 31) :
    deviceChunk printfBufferSize nums id = chunkAt printfBufferSize nums i := by
  have hsize := groupBufferSize_toNat hs.nums_pos hs.count_lt hs.size_lt
  have hmul : (groupAddr nums id * groupBufferSize printfBufferSize nums).toNat =
      i * chunkSize printfBufferSize nums := by
    rw [UInt32.toNat_mul, hi, hsize, mod_eq_of_lt (by omega)]
  rw [deviceChunk, gepOffset_eq (by omega), hmul, hsize, chunkAt]

/-- With one group in the third dimension, or as many as in the first, the stride is right. -/
theorem groupAddr_eq_boxIndex (hid : id ∈ groupIds nums)
    (hz : (nums 2).toNat = 1 ∨ (nums 2).toNat = (nums 0).toNat) :
    (groupAddr nums id).toNat = boxIndex (nums 0).toNat (nums 1).toNat (coords id) := by
  have hmem := coords_mem_box.mpr hid
  have hlt := boxIndex_lt hmem
  have hcount := hs.count_lt
  rw [groupAddr_toNat hs.nums_pos hs.count_lt hid, ← mod_eq_of_lt (hlt.trans hcount)]
  congr 1
  simp only [boxIndex, coords]
  obtain hz | hz := hz
  · have hzero : (id 2).toNat = 0 := by
      have := hmem.2.2
      simp only [coords] at this
      omega
    simp [hzero]
  · rw [hz]
    ring

theorem deviceChunk_bijOn (hz : (nums 2).toNat = 1 ∨ (nums 2).toNat = (nums 0).toNat)
    (hc : 0 < chunkSize printfBufferSize nums)
    (hlast : (groupCount nums - 1) * chunkSize printfBufferSize nums < 2 ^ 31) :
    Set.BijOn (deviceChunk printfBufferSize nums) (groupIds nums)
      {chunk | chunk ∈ (List.range (groupCount nums)).map (chunkAt printfBufferSize nums)} := by
  have hcomp := (chunkAt_bijOn hc).comp (boxIndex_bijOn.comp coords_bijOn)
  refine hcomp.congr fun id hid => ?_
  have hlt := boxIndex_lt (coords_mem_box.mpr hid)
  have hle : boxIndex (nums 0).toNat (nums 1).toNat (coords id) ≤ groupCount nums - 1 :=
    le_sub_one_of_lt hlt
  refine (deviceChunk_eq hs (groupAddr_eq_boxIndex hs hid hz) ?_).symm
  exact lt_of_le_of_lt (Nat.mul_le_mul_right _ hle) hlast

theorem groupAddr_groupAt (hp : p ∈ box (nums 0).toNat (nums 1).toNat (nums 2).toNat) :
    (groupAddr nums (groupAt p)).toNat = (p.1 + ((nums 0).toNat * p.2.1 +
      p.2.2 * ((nums 1).toNat * (nums 2).toNat))) % 2 ^ 32 := by
  have hcoords := coords_groupAt hp
  rw [groupAddr_toNat hs.nums_pos hs.count_lt (groupAt_mem hp), ← hcoords]
  simp only [coords_groupAt hp]
  rw [show (groupAt p 0).toNat = p.1 from congrArg Prod.fst hcoords,
    show (groupAt p 1).toNat = p.2.1 from congrArg (fun q => q.2.1) hcoords,
    show (groupAt p 2).toNat = p.2.2 from congrArg (fun q => q.2.2) hcoords]

/-- With fewer groups in the third dimension than in the first, but more than one, group
`(0, 0, 1)` shares its chunk with a group in the first plane. -/
theorem not_injOn_of_lt (hone : 1 < (nums 2).toNat) (hlt : (nums 2).toNat < (nums 0).toNat) :
    ¬Set.InjOn (deviceChunk printfBufferSize nums) (groupIds nums) := by
  intro hinj
  have h0 := hs.nums_pos 0
  have h1 := hs.nums_pos 1
  let s := (nums 1).toNat * (nums 2).toNat
  have hlow : s / (nums 0).toNat < (nums 1).toNat := by
    rw [Nat.div_lt_iff_lt_mul h0]
    exact Nat.mul_lt_mul_of_pos_left hlt h1
  have hp : (0, 0, 1) ∈ box (nums 0).toNat (nums 1).toNat (nums 2).toNat := ⟨h0, h1, hone⟩
  have hq : (s % (nums 0).toNat, s / (nums 0).toNat, 0) ∈
      box (nums 0).toNat (nums 1).toNat (nums 2).toNat :=
    ⟨mod_lt _ h0, hlow, Nat.lt_trans Nat.zero_lt_one hone⟩
  have haddr : groupAddr nums (groupAt (0, 0, 1)) =
      groupAddr nums (groupAt (s % (nums 0).toNat, s / (nums 0).toNat, 0)) := by
    apply UInt32.toNat_inj.mp
    rw [groupAddr_groupAt hs hp, groupAddr_groupAt hs hq]
    simp only [Nat.zero_mul, Nat.add_zero, mod_add_div, Nat.mul_zero, Nat.zero_add, Nat.one_mul,
      s]
  have heq := hinj (groupAt_mem hp) (groupAt_mem hq) (by rw [deviceChunk, haddr, deviceChunk])
  have hpoint := congrArg coords heq
  rw [coords_groupAt hp, coords_groupAt hq] at hpoint
  simp at hpoint

/-- With more groups in the third dimension than in the first, group `(0, 0, nx)` has a chunk
behind the last one. -/
theorem not_mapsTo_of_gt (hgt : (nums 0).toNat < (nums 2).toNat)
    (hc : 0 < chunkSize printfBufferSize nums) :
    ¬Set.MapsTo (deviceChunk printfBufferSize nums) (groupIds nums)
      {chunk | chunk ∈ (List.range (groupCount nums)).map (chunkAt printfBufferSize nums)} := by
  intro hmaps
  have hp : (0, 0, (nums 0).toNat) ∈ box (nums 0).toNat (nums 1).toNat (nums 2).toNat :=
    ⟨hs.nums_pos 0, hs.nums_pos 1, hgt⟩
  have haddr : (groupAddr nums (groupAt (0, 0, (nums 0).toNat))).toNat = groupCount nums := by
    rw [groupAddr_groupAt hs hp]
    simp only [Nat.mul_zero, Nat.zero_add, ← Nat.mul_assoc]
    exact mod_eq_of_lt hs.count_lt
  have hle := groupCount_mul_chunkSize_le printfBufferSize nums
  have hsize := hs.size_lt
  have hmul : (groupAddr nums (groupAt (0, 0, (nums 0).toNat)) *
      groupBufferSize printfBufferSize nums).toNat =
        groupCount nums * chunkSize printfBufferSize nums := by
    rw [UInt32.toNat_mul, haddr, groupBufferSize_toNat hs.nums_pos hs.count_lt hs.size_lt,
      mod_eq_of_lt (by omega)]
  obtain ⟨i, hi, hchunk⟩ := mem_map.mp (hmaps (groupAt_mem hp))
  have hstart : ((i * chunkSize printfBufferSize nums : Nat) : Int) = gepOffset _ :=
    congrArg Prod.fst hchunk
  rw [gepOffset_nonneg (by omega), hmul, Nat.cast_inj] at hstart
  have := eq_of_mul_eq_mul_right hc hstart
  rw [List.mem_range] at hi
  omega

/-- The chunk of the device never starts at `2^31` or later. -/
theorem last_chunk_lt
    (hsurj : Set.SurjOn (deviceChunk printfBufferSize nums) (groupIds nums)
      {chunk | chunk ∈ (List.range (groupCount nums)).map (chunkAt printfBufferSize nums)}) :
    (groupCount nums - 1) * chunkSize printfBufferSize nums < 2 ^ 31 := by
  have hpos := groupCount_pos hs.nums_pos
  have hmem : chunkAt printfBufferSize nums (groupCount nums - 1) ∈
      (List.range (groupCount nums)).map (chunkAt printfBufferSize nums) :=
    mem_map.mpr ⟨_, List.mem_range.mpr (by omega), rfl⟩
  obtain ⟨id, _, hid⟩ := hsurj hmem
  have hstart : gepOffset _ =
      (((groupCount nums - 1) * chunkSize printfBufferSize nums : Nat) : Int) :=
    congrArg Prod.fst hid
  have hlt := gepOffset_lt (groupAddr nums id * groupBufferSize printfBufferSize nums)
  omega

theorem Partitioned.bijOn_chunkAt (h : createFor printfBufferSize nums localSize = some buffer)
    (hpart : Partitioned printfBufferSize nums buffer) :
    Set.BijOn (deviceChunk printfBufferSize nums) (groupIds nums)
      {chunk | chunk ∈ (List.range (groupCount nums)).map (chunkAt printfBufferSize nums)} := by
  obtain ⟨hn, hc, -, -⟩ := createFor_spec hs.nums_pos hs.local_pos hs.items_lt hs.size_lt h
  rw [← printChunks_eq hs.size_lt hs.count_lt hn hc]
  exact hpart.bijOn

/-- The chunks of the device are those of the host exactly when the third dimension has one group
or as many as the first, and the last chunk starts below `2^31`. -/
theorem partitioned_iff {buffer : PrintfBuffer}
    (h : createFor printfBufferSize nums localSize = some buffer) :
    Partitioned printfBufferSize nums buffer ↔
      (nums 2 = 1 ∨ nums 2 = nums 0) ∧
        (groupCount nums - 1) * chunkSize printfBufferSize nums < 2 ^ 31 := by
  obtain ⟨hn, hc, hc8, hstores⟩ :=
    createFor_spec hs.nums_pos hs.local_pos hs.items_lt hs.size_lt h
  have hz : nums 2 = 1 ∨ nums 2 = nums 0 ↔
      (nums 2).toNat = 1 ∨ (nums 2).toNat = (nums 0).toNat := by
    rw [UInt64.toNat_inj, ← UInt64.toNat_inj (b := 1), toNat_one]
  rw [hz]
  constructor
  · intro hpart
    have hbij := hpart.bijOn_chunkAt hs h
    refine ⟨?_, last_chunk_lt hs hbij.surjOn⟩
    by_contra hne
    have hz0 := hs.nums_pos 2
    obtain hlt | hgt : (nums 2).toNat < (nums 0).toNat ∨ (nums 0).toNat < (nums 2).toNat := by omega
    · exact not_injOn_of_lt hs (by omega) hlt hbij.injOn
    · exact not_mapsTo_of_gt hs hgt (by omega) hbij.mapsTo
  · rintro ⟨hstride, hlast⟩
    refine ⟨?_, stores_eq hs.size_lt hs.count_lt hn hc hstores⟩
    rw [printChunks_eq hs.size_lt hs.count_lt hn hc]
    exact deviceChunk_bijOn hs hstride (by omega) hlast

end Device

end Launch

/-- A flat launch with the buffer of 1 MiB that the runtime allocates. -/
theorem partitioned_flat : ∃ buffer, createFor 0x100000 ![4, 3, 1] ![16, 1, 1] = some buffer ∧
    Partitioned 0x100000 ![4, 3, 1] buffer := by
  have hs : Sized 0x100000 ![4, 3, 1] ![16, 1, 1] :=
    ⟨by decide, by decide, by decide, by decide, by decide⟩
  exact ⟨_, rfl, (partitioned_iff hs rfl).mpr ⟨.inl rfl, by decide⟩⟩

/-- Two groups with one chunk, a group behind the last chunk, and a chunk in front of the
buffer. -/
theorem partitioned_fails :
    (∃ buffer, createFor 0x100000 ![3, 1, 2] ![16, 1, 1] = some buffer ∧
      ¬Partitioned 0x100000 ![3, 1, 2] buffer) ∧
    (∃ buffer, createFor 0x100000 ![1, 1, 2] ![16, 1, 1] = some buffer ∧
      ¬Partitioned 0x100000 ![1, 1, 2] buffer) ∧
    ∃ buffer, createFor 0xFFFFFFFF ![3, 1, 1] ![16, 1, 1] = some buffer ∧
      ¬Partitioned 0xFFFFFFFF ![3, 1, 1] buffer := by
  have hs (size : UInt64) (nums : Dim3) (hsize : size.toNat < 2 ^ 32)
      (hnums : ∀ i, 0 < (nums i).toNat) (hcount : groupCount nums < 2 ^ 32) :
      Sized size nums ![16, 1, 1] := by
    refine ⟨hnums, by decide, hcount, ?_, hsize⟩
    rw [show groupCount ![16, 1, 1] = 16 from rfl]
    omega
  have hwide := hs 0x100000 ![3, 1, 2] (by decide) (by decide) (by decide)
  have hdeep := hs 0x100000 ![1, 1, 2] (by decide) (by decide) (by decide)
  have hlarge := hs 0xFFFFFFFF ![3, 1, 1] (by decide) (by decide) (by decide)
  refine ⟨⟨_, rfl, fun h => ?_⟩, ⟨_, rfl, fun h => ?_⟩, ⟨_, rfl, fun h => ?_⟩⟩
  · exact not_injOn_of_lt hwide (by decide) (by decide) (h.bijOn_chunkAt hwide rfl).injOn
  · exact not_mapsTo_of_gt hdeep (by decide) (by decide) (h.bijOn_chunkAt hdeep rfl).mapsTo
  · exact absurd (last_chunk_lt hlarge (h.bijOn_chunkAt hlarge rfl).surjOn) (by decide)

end ConstructionKit.Printf
