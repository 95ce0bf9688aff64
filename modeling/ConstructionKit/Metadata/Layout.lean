import Mathlib.Data.UInt
import ConstructionKit.Metadata.Context
import ConstructionKit.Metadata.MsgPack

/-! The layout of a metadata binary: header, string table, block infos and blocks, where the infos
and the blocks stand in the reverse of the order in which the blocks were created.  A context that is
finalized and decoded has the same blocks. -/

namespace ConstructionKit.Metadata

open ProofKit List UInt64

/-- A block as it is written. -/
structure Block where
  name : List UInt8
  bytes : List UInt8
  fmt : Fmt

def stringTable (blocks : List Block) : List UInt8 := blocks.flatMap fun b => b.name ++ [0]

def body (blocks : List Block) : List UInt8 :=
  blocks.reverse.flatMap fun b => padToAlignment b.bytes

theorem body_concat (blocks : List Block) (b : Block) :
    body (blocks ++ [b]) = padToAlignment b.bytes ++ body blocks := by
  simp [body]

theorem stringTable_concat (blocks : List Block) (b : Block) :
    stringTable (blocks ++ [b]) = stringTable blocks ++ b.name ++ [0] := by
  simp [stringTable]

theorem stringTable_eq (blocks : List Block) :
    stringTable blocks = (blocks.map Block.name).flatMap (· ++ [0]) := by
  rw [flatMap_map]
  rfl

/-- The info of a block behind others, with the offset from the end. -/
def inverseInfo (before : List Block) (b : Block) : BlockInfo :=
  ⟨.ofNat ((body before).length + (padToAlignment b.bytes).length), .ofNat b.bytes.length,
    .ofNat headerSize + .ofNat (stringTable before).length, getFlags b.fmt⟩

def inverseInfos : List Block → List Block → List BlockInfo
  | _, [] => []
  | before, b :: after => inverseInfo before b :: inverseInfos (before ++ [b]) after

theorem length_inverseInfos (before blocks : List Block) :
    (inverseInfos before blocks).length = blocks.length := by
  induction blocks generalizing before with
  | nil => rfl
  | cons b blocks ih => rw [inverseInfos, length_cons, ih, length_cons]

variable {blocks : List Block}

theorem forall₂_inverseInfos {R : BlockInfo → Block → Prop} {before : List Block}
    (h : ∀ front b after, blocks = front ++ b :: after → R (inverseInfo (before ++ front) b) b) :
    List.Forall₂ R (inverseInfos before blocks) blocks := by
  induction blocks generalizing before with
  | nil => exact .nil
  | cons b blocks ih =>
    refine .cons ?_ (ih fun front b' after heq => ?_)
    · have := h [] b blocks rfl
      rwa [append_nil] at this
    · have := h (b :: front) b' after (by rw [heq, cons_append])
      rwa [append_cons] at this

/-- The size of the binary up to its blocks, and the size of the whole. -/
def prefixSize (blocks : List Block) : Nat :=
  headerSize + (padToAlignment (stringTable blocks)).length + blockInfoSize * blocks.length

def totalSize (blocks : List Block) : Nat := prefixSize blocks + (body blocks).length

def fileInfos (blocks : List Block) : List BlockInfo :=
  ((inverseInfos [] blocks).map fun info =>
    { info with offset := .ofNat (totalSize blocks) - info.offset }).reverse

def fileHeader (endianness : Endian) (blocks : List Block) : Header :=
  ⟨endianness, .ofNat (headerSize + (padToAlignment (stringTable blocks)).length),
    .ofNat blocks.length⟩

def layout (endianness : Endian) (blocks : List Block) : List UInt8 :=
  serializeMdHeader (fileHeader endianness blocks) ++
    (padToAlignment (stringTable blocks) ++
      ((fileInfos blocks).flatMap (serializeBlockInfo · endianness) ++ body blocks))

/-! ### Writing -/

/-- A named stack and the block that it is written as. -/
def Writes (endianness : Endian) (item : List UInt8 × Stack) (b : Block) : Prop :=
  item.1 = b.name ∧ item.2.outFmt = b.fmt ∧
    Context.finalizeStack item.2 endianness = .ok b.bytes

variable {endianness : Endian}

theorem foldlM_addStack {items : List (List UInt8 × Stack)}
    (h : List.Forall₂ (Writes endianness) items blocks) (before : List Block)
    (infos : List BlockInfo) :
    items.foldlM (Context.addStack endianness)
        ⟨(body before).reverse, stringTable before, infos⟩ =
      .ok ⟨(body (before ++ blocks)).reverse, stringTable (before ++ blocks),
        infos ++ inverseInfos before blocks⟩ := by
  induction h generalizing before infos with
  | nil => simp [inverseInfos, pure, Except.pure]
  | @cons item b items blocks hitem _ ih =>
    obtain ⟨hname, hfmt, hbytes⟩ := hitem
    have hadd : Context.addStack endianness ⟨(body before).reverse, stringTable before, infos⟩
        item = .ok ⟨(body (before ++ [b])).reverse, stringTable (before ++ [b]),
          infos ++ [inverseInfo before b]⟩ := by
      rw [Context.addStack, hbytes, body_concat, stringTable_concat, reverse_append, hname,
        hfmt]
      rw [length_reverse]
      rfl
    rw [foldlM_cons, hadd]
    have := ih (before ++ [b]) (infos ++ [inverseInfo before b])
    rw [← append_cons, ← append_cons] at this
    exact this

theorem reverse_foldl_reverse {α : Type} (f : α → List UInt8) (infos : List α)
    (binary : List UInt8) :
    (infos.foldl (fun binary info => binary ++ (f info).reverse) binary).reverse =
      infos.reverse.flatMap f ++ binary.reverse := by
  induction infos generalizing binary with
  | nil => rfl
  | cons info infos ih =>
    rw [foldl_cons, ih, reverse_append, reverse_reverse, reverse_cons,
      flatMap_append, flatMap_singleton, append_assoc]

variable {ctx : Context} (width val : Nat)

theorem finalize_eq (h : List.Forall₂ (Writes ctx.endianness) ctx.stackMap blocks) :
    ctx.finalize = .ok (layout ctx.endianness blocks) := by
  have hfold := foldlM_addStack h [] []
  simp only [nil_append] at hfold
  have hempty : (⟨[], [], []⟩ : Context.Output) = ⟨(body []).reverse, stringTable [], []⟩ := rfl
  rw [Context.finalize, hempty, hfold]
  show Except.ok _ = Except.ok _
  congr 1
  rw [reverse_append, reverse_reverse, reverse_append, reverse_reverse,
    reverse_foldl_reverse (fun info => serializeBlockInfo _ ctx.endianness), reverse_reverse,
    length_reverse, length_inverseInfos, layout, fileInfos, ← map_reverse,
    flatMap_map]
  rfl

/-! ### Reading the header and the infos -/

theorem serializeInt_eq (endianness : Endian) :
    serializeInt width val endianness = serializeNumber width val endianness := by
  cases endianness with
  | little =>
    have := leBytes_leNat (leBytes width val)
    rwa [length_leBytes] at this
  | big =>
    have := leBytes_leNat (leBytes width val).reverse
    rwa [length_reverse, length_leBytes] at this

theorem length_serializeInt (endianness : Endian) :
    (serializeInt width val endianness).length = width := by
  rw [serializeInt_eq, length_serializeNumber]

theorem readValue_uint64 (val : UInt64) (endianness : Endian) :
    readValue (serializeInt 8 val.toNat endianness) endianness = val.toNat := by
  rw [serializeInt_eq, readValue_serializeNumber val.toNat_lt]

theorem readValue_uint32 (val : UInt32) (endianness : Endian) :
    readValue (serializeInt 4 val.toNat endianness) endianness = val.toNat := by
  rw [serializeInt_eq, readValue_serializeNumber val.toNat_lt]

theorem readBytes_serializeInt (endianness : Endian) (rest : List UInt8) :
    readBytes width (serializeInt width val endianness ++ rest) =
      .ok (serializeInt width val endianness, rest) := by
  have := readBytes_append (serializeInt width val endianness) rest
  rwa [length_serializeInt] at this

theorem length_serializeMdHeader (header : Header) :
    (serializeMdHeader header).length = headerSize := by
  simp [serializeMdHeader, magic, length_serializeInt, headerSize]

theorem length_serializeBlockInfo (info : BlockInfo) (endianness : Endian) :
    (serializeBlockInfo info endianness).length = blockInfoSize := by
  simp [serializeBlockInfo, length_serializeInt, blockInfoSize]

variable {header : Header} {infos : List BlockInfo} {info : BlockInfo} {stack : Stack}
  {binSize : Nat}

theorem decodeMdHeader_append {rest : List UInt8} (hmin : 16 ≤ header.blockListOffset.toNat)
    (hmax : header.blockListOffset.toNat < headerSize + rest.length) :
    decodeMdHeader (serializeMdHeader header ++ rest) = .ok header := by
  obtain ⟨endianness, blockListOffset, nBlocks⟩ := header
  have hlength : (serializeMdHeader ⟨endianness, blockListOffset, nBlocks⟩ ++ rest).length =
      headerSize + rest.length := by
    rw [length_append, length_serializeMdHeader]
  generalize hoffset : serializeInt 4 blockListOffset.toNat endianness = offset at *
  generalize hn : serializeInt 4 nBlocks.toNat endianness = n at *
  have hbinary : serializeMdHeader ⟨endianness, blockListOffset, nBlocks⟩ ++ rest =
      magic ++ [endianness.byte, 1, 0, 0] ++ (offset ++ (n ++ rest)) := by
    rw [serializeMdHeader, hoffset, hn]
    simp only [append_assoc]
  have hoffset4 : offset.length = 4 := hoffset ▸ length_serializeInt ..
  have hn4 : n.length = 4 := hn ▸ length_serializeInt ..
  have htake8 : ((serializeMdHeader ⟨endianness, blockListOffset, nBlocks⟩ ++ rest).drop 8).take 4 =
      offset := by
    rw [hbinary]
    show (offset ++ (n ++ rest)).take 4 = offset
    rw [← hoffset4, take_left]
  have htake12 : ((serializeMdHeader ⟨endianness, blockListOffset, nBlocks⟩ ++ rest).drop 12).take 4
      = n := by
    rw [hbinary]
    show ((offset ++ (n ++ rest)).drop 4).take 4 = n
    rw [drop_left' hoffset4, take_left' hn4]
  have hfind : [Endian.little, Endian.big].find? (·.byte = endianness.byte) = some endianness := by
    cases endianness <;> rfl
  have hvalue : readValue offset endianness = blockListOffset.toNat := by
    rw [← hoffset, readValue_uint32]
  have hvalue' : readValue n endianness = nBlocks.toNat := by
    rw [← hn, readValue_uint32]
  have hmagic : (magic ++ [endianness.byte, 1, 0, 0] ++ (offset ++ (n ++ rest))).take 4 = magic := rfl
  have hbyte : (magic ++ [endianness.byte, 1, 0, 0] ++ (offset ++ (n ++ rest))).getD 4 0 =
    endianness.byte := rfl
  rw [decodeMdHeader, htake8, htake12, if_neg (by omega), hbinary, if_neg (not_not.2 hmagic), hbyte,
    hfind]
  show (if readValue offset endianness < 16 ∨ readValue offset endianness ≥
    (magic ++ [endianness.byte, 1, 0, 0] ++ (offset ++ (n ++ rest))).length then _ else _) = _
  rw [← hbinary, hlength, hvalue, hvalue', if_neg (by simp at hmin hmax ⊢; omega)]
  simp

/-- What the decoder asks of a block info. -/
structure BlockInfo.Valid (info : BlockInfo) (header : Header) (binSize : Nat) : Prop where
  offset : (header.blockListOffset + .ofNat blockInfoSize * header.nBlocks).toUInt64 ≤ info.offset
  size : (info.offset + info.size).toNat ≤ binSize
  name : info.nameIdx ≤ header.blockListOffset
  fmt : (getFmt info.flags).isOk

theorem decodeMdBlockInfo_append (h : info.Valid header binSize) (rest : List UInt8) :
    decodeMdBlockInfo (serializeBlockInfo info header.endianness ++ rest) header binSize =
      .ok info := by
  obtain ⟨offset, size, nameIdx, flags⟩ := info
  obtain ⟨hoffset, hsize, hname, hfmt⟩ := h
  rw [decodeMdBlockInfo, serializeBlockInfo]
  simp only [append_assoc, readBytes_serializeInt, bind, Except.bind,
    readValue_uint64, readValue_uint32, UInt64.ofNat_toNat, UInt32.ofNat_toNat]
  rw [if_neg (show ¬ offset < _ from UInt64.not_lt.2 hoffset)]
  rw [if_neg (Nat.not_lt.2 hsize)]
  rw [if_neg (UInt32.not_lt.2 hname)]
  rw [if_neg (by rw [hfmt]; simp)]
  rfl

theorem decodeMdBlockInfoList_append
    (h : ∀ info ∈ infos, info.Valid header binSize) (rest : List UInt8) :
    decodeMdBlockInfoList header binSize infos.length
      (infos.flatMap (serializeBlockInfo · header.endianness) ++ rest) = .ok infos := by
  induction infos with
  | nil => rfl
  | cons info infos ih =>
    obtain ⟨hinfo, hinfos⟩ := forall_mem_cons.1 h
    rw [flatMap_cons, append_assoc, length_cons, decodeMdBlockInfoList,
      decodeMdBlockInfo_append hinfo, ← length_serializeBlockInfo info header.endianness,
      drop_left, ih hinfos]
    rfl

/-! ### Where a block lies -/

theorem getFmt_getFlags (fmt : Fmt) : getFmt (getFlags fmt) = .ok fmt := by
  cases fmt <;> rfl

theorem body_append (front after : List Block) :
    body (front ++ after) = body after ++ body front := by
  rw [body, reverse_append, flatMap_append]
  rfl

theorem length_le_padToAlignment (binary : List UInt8) :
    binary.length ≤ (padToAlignment binary).length := by
  rw [padToAlignment, length_append]
  omega

theorem length_le_stringTable (blocks : List Block) :
    blocks.length ≤ (stringTable blocks).length := by
  induction blocks with
  | nil => exact le_rfl
  | cons b blocks =>
    have hcons : (stringTable (b :: blocks)).length =
        b.name.length + 1 + (stringTable blocks).length := by
      rw [stringTable, flatMap_cons, length_append, length_append]
      rfl
    rw [length_cons]
    omega

theorem length_fileInfos (blocks : List Block) : (fileInfos blocks).length = blocks.length := by
  rw [fileInfos, length_reverse, length_map, length_inverseInfos]

theorem length_flatMap_serializeBlockInfo (infos : List BlockInfo) (endianness : Endian) :
    (infos.flatMap (serializeBlockInfo · endianness)).length = blockInfoSize * infos.length := by
  induction infos with
  | nil => rfl
  | cons info infos ih =>
    rw [flatMap_cons, length_append, ih, length_serializeBlockInfo, length_cons]
    ring

theorem length_layout (endianness : Endian) (blocks : List Block) :
    (layout endianness blocks).length = totalSize blocks := by
  rw [layout, length_append, length_append, length_append,
    length_serializeMdHeader, length_flatMap_serializeBlockInfo, length_fileInfos, totalSize,
    prefixSize]
  omega

/-- The binary at the offset of a block, and at the index of its name. -/
theorem drop_layout_body (endianness : Endian) (blocks : List Block) (n : Nat) :
    (layout endianness blocks).drop (prefixSize blocks + n) = (body blocks).drop n := by
  have hsize : (serializeMdHeader (fileHeader endianness blocks) ++
      (padToAlignment (stringTable blocks) ++
        (fileInfos blocks).flatMap (serializeBlockInfo · endianness))).length =
      prefixSize blocks := by
    rw [length_append, length_append, length_serializeMdHeader,
      length_flatMap_serializeBlockInfo, length_fileInfos, prefixSize]
    omega
  rw [layout, ← append_assoc, ← append_assoc, append_assoc (serializeMdHeader _),
    ← drop_drop, drop_left' hsize]

theorem drop_layout_stringTable (endianness : Endian)
    {front after : List UInt8} (h : stringTable blocks = front ++ after) :
    ∃ rest, (layout endianness blocks).drop (headerSize + front.length) = after ++ rest := by
  rw [layout, ← drop_drop, drop_left' (length_serializeMdHeader _), padToAlignment, h,
    append_assoc, append_assoc, drop_left]
  exact ⟨_, rfl⟩

/-- What an info says about its block, in a binary that it is read from. -/
structure Locates (binary : List UInt8) (header : Header) (info : BlockInfo) (b : Block) :
    Prop where
  valid : info.Valid header binary.length
  name : getBlockInfoName binary info = .ok b.name
  data : ∃ rest, binary.drop info.offset.toNat = b.bytes ++ rest
  size : info.size.toNat = b.bytes.length
  fmt : getFmt info.flags = .ok b.fmt

section

variable (hfront : headerSize + (padToAlignment (stringTable blocks)).length < 2 ^ 32)
  (htotal : totalSize blocks < 2 ^ 64)
include hfront

theorem toNat_blockListOffset (endianness : Endian) :
    (fileHeader endianness blocks).blockListOffset.toNat =
      headerSize + (padToAlignment (stringTable blocks)).length :=
  UInt32.toNat_ofNat_of_lt' hfront

theorem toNat_nBlocks (endianness : Endian) :
    (fileHeader endianness blocks).nBlocks.toNat = blocks.length := by
  have hlength := length_le_stringTable blocks
  have hpadded := length_le_padToAlignment (stringTable blocks)
  exact UInt32.toNat_ofNat_of_lt' (show _ < 2 ^ 32 by omega)

/-- The bound on the offsets is a number of 32 bits, so it may be too low. -/
theorem minValidBlockOffset_le (endianness : Endian) :
    ((fileHeader endianness blocks).blockListOffset +
      .ofNat blockInfoSize * (fileHeader endianness blocks).nBlocks).toUInt64.toNat ≤
      prefixSize blocks := by
  rw [UInt32.toNat_toUInt64, UInt32.toNat_add, UInt32.toNat_mul, toNat_nBlocks hfront,
    toNat_blockListOffset hfront, Nat.add_mod_mod]
  exact Nat.mod_le _ _

include htotal in
theorem locates {front after : List Block} {b : Block}
    (hblocks : blocks = front ++ b :: after) (hnul : 0 ∉ b.name) :
    Locates (layout endianness blocks) (fileHeader endianness blocks)
      { inverseInfo front b with
        offset := .ofNat (totalSize blocks) - (inverseInfo front b).offset } b := by
  have hbody : body blocks = body after ++ (padToAlignment b.bytes ++ body front) := by
    rw [hblocks, append_cons, body_append, body_concat]
  have htable : stringTable blocks = stringTable front ++ (b.name ++ 0 :: stringTable after) := by
    rw [hblocks]
    simp [stringTable]
  have hbytes := length_le_padToAlignment b.bytes
  have htableSize := length_le_padToAlignment (stringTable blocks)
  have hbodySize := congrArg List.length hbody
  have hnameSize := congrArg List.length htable
  simp only [length_append] at hbodySize hnameSize
  have htotalEq : totalSize blocks = prefixSize blocks + (body blocks).length := rfl
  have hinverse : (inverseInfo front b).offset.toNat =
      (body front).length + (padToAlignment b.bytes).length :=
    toNat_ofNat_of_lt' (show _ < 2 ^ 64 by omega)
  have htotalNat : (UInt64.ofNat (totalSize blocks)).toNat = totalSize blocks :=
    toNat_ofNat_of_lt' htotal
  have hoffset : (UInt64.ofNat (totalSize blocks) - (inverseInfo front b).offset).toNat =
      prefixSize blocks + (body after).length := by
    rw [UInt64.toNat_sub_of_le _ _ (by rw [le_iff_toNat_le]; omega)]
    omega
  have hsize : (inverseInfo front b).size.toNat = b.bytes.length :=
    toNat_ofNat_of_lt' (show _ < 2 ^ 64 by omega)
  have hidx : (inverseInfo front b).nameIdx.toNat = headerSize + (stringTable front).length := by
    rw [inverseInfo, UInt32.toNat_add, UInt32.toNat_ofNat', UInt32.toNat_ofNat']
    omega
  refine ⟨⟨?_, ?_, ?_, ?_⟩, ?_, ?_, hsize, getFmt_getFlags b.fmt⟩
  · rw [le_iff_toNat_le, hoffset]
    exact (minValidBlockOffset_le hfront endianness).trans (Nat.le_add_right ..)
  · rw [length_layout, UInt64.toNat_add, hoffset, hsize]
    omega
  · rw [UInt32.le_iff_toNat_le, hidx, toNat_blockListOffset hfront]
    omega
  · rw [show (inverseInfo front b).flags = getFlags b.fmt from rfl, getFmt_getFlags]
    rfl
  · obtain ⟨rest, hdrop⟩ := drop_layout_stringTable endianness htable
    have hkeep : ∀ x ∈ b.name, decide (x ≠ 0) = true := fun x hx =>
      decide_eq_true fun heq => hnul (heq ▸ hx)
    rw [getBlockInfoName, hidx, hdrop, append_assoc, cString,
      takeWhile_append_of_pos hkeep]
    simp
  · rw [hoffset, drop_layout_body, hbody, drop_left, padToAlignment, append_assoc]
    exact ⟨_, rfl⟩

end

/-! ### Round trip -/

theorem forall₂_fileInfos (endianness : Endian)
    (hfront : headerSize + (padToAlignment (stringTable blocks)).length < 2 ^ 32)
    (htotal : totalSize blocks < 2 ^ 64)
    (hnul : ∀ b ∈ blocks, 0 ∉ b.name) :
    List.Forall₂ (Locates (layout endianness blocks) (fileHeader endianness blocks))
      (fileInfos blocks) blocks.reverse := by
  refine forall₂_reverse_iff.2 (forall₂_map_left_iff.2 (forall₂_inverseInfos ?_))
  intro front b after hblocks
  refine locates hfront htotal hblocks (hnul b ?_)
  rw [hblocks]
  exact mem_append_right _ mem_cons_self

variable {name : List UInt8}

theorem Context.find_eq_none (h : name ∉ ctx.stackMap.map Prod.fst) : ctx.find name = none := by
  refine lookup_eq_none_iff.2 fun item hitem => ?_
  rw [bne_iff_ne]
  rintro rfl
  exact h (mem_map_of_mem hitem)

theorem Context.find_append {front : List (List UInt8 × Stack)}
    (hfront : name ∉ front.map Prod.fst) (stack : Stack) (back : List (List UInt8 × Stack))
    (endianness : Endian) :
    Context.find ⟨front ++ (name, stack) :: back, endianness⟩ name = some stack := by
  refine lookup_eq_some_iff.2 ⟨front, back, rfl, fun item hitem => ?_⟩
  have hne : name ≠ item.1 := fun heq => hfront (heq ▸ mem_map_of_mem hitem)
  simpa using hne

/-- The bytes of a block and what stands behind them are read as a stack. -/
def Block.ReadAs (b : Block) (stack : Stack) : Prop :=
  ∃ rest, deserializeBlock b.fmt (b.bytes ++ rest) b.bytes.length = .ok stack

def Block.Readable (b : Block) : Prop :=
  ∀ rest, ∃ stack, deserializeBlock b.fmt (b.bytes ++ rest) b.bytes.length = .ok stack

theorem Block.readable_raw {b : Block} (hfmt : b.fmt = .rawBytes) : b.Readable := by
  intro rest
  rw [hfmt, deserializeBlock, deserializeRaw, readBytes_append]
  exact ⟨_, rfl⟩

theorem Block.ReadAs.raw {b : Block} (h : b.ReadAs stack)
    (hfmt : b.fmt = .rawBytes) : stack = ⟨[.scalar (.bytes b.bytes)], [0], false, .rawBytes⟩ := by
  obtain ⟨rest, h⟩ := h
  rw [hfmt, deserializeBlock, deserializeRaw, readBytes_append] at h
  exact (Except.ok.inj h).symm

section

variable {b : Block} {ts : List Tree} (hfits : ∀ t ∈ ts, t.Fits) (hfmt : b.fmt = .msgpack)
  (hbytes : b.bytes = msgPackItems ts)
include hfits hfmt hbytes

theorem Block.readable_msgPack : b.Readable := by
  intro rest
  obtain ⟨stack, hstack, -⟩ := deserializeMsgPack_eq hfits .msgpack rest
  rw [hfmt, hbytes]
  exact ⟨stack, hstack⟩

theorem Block.ReadAs.msgPack (h : b.ReadAs stack) : stack.Open .msgpack ts := by
  obtain ⟨rest, h⟩ := h
  obtain ⟨stack', hstack, hopen⟩ := deserializeMsgPack_eq hfits .msgpack rest
  rw [hfmt, hbytes] at h
  obtain rfl : stack' = stack := Except.ok.inj (hstack.symm.trans h)
  exact hopen

end

variable {binary : List UInt8}

theorem addBlockFromBlockInfo_eq
    {b : Block} (hinfo : Locates binary header info b) (hreads : b.Readable)
    (hfresh : b.name ∉ ctx.stackMap.map Prod.fst) :
    ∃ stack, ctx.addBlockFromBlockInfo info binary =
      .ok { ctx with stackMap := ctx.stackMap ++ [(b.name, stack)] } ∧ b.ReadAs stack := by
  obtain ⟨rest, hdata⟩ := hinfo.data
  obtain ⟨stack, hstack⟩ := hreads rest
  refine ⟨stack, ?_, rest, hstack⟩
  rw [Context.addBlockFromBlockInfo, hinfo.fmt]
  dsimp only
  rw [hinfo.name, hdata, hinfo.size, hstack]
  dsimp only [bind, Except.bind]
  rw [Context.insert, Context.find_eq_none hfresh]
  rfl

theorem foldlM_addBlockFromBlockInfo (hinfos : List.Forall₂ (Locates binary header) infos blocks)
    (hreads : ∀ b ∈ blocks, b.Readable) (ctx : Context)
    (hnodup : (ctx.stackMap.map Prod.fst ++ blocks.map Block.name).Nodup) :
    ∃ items, infos.foldlM (fun ctx info => ctx.addBlockFromBlockInfo info binary) ctx =
        .ok { ctx with stackMap := ctx.stackMap ++ items } ∧
      List.Forall₂ (fun b item => item.1 = b.name ∧ b.ReadAs item.2) blocks items := by
  induction hinfos generalizing ctx with
  | nil => exact ⟨[], by simp [pure, Except.pure], .nil⟩
  | @cons info b infos blocks hinfo _ ih =>
    obtain ⟨hb, hblocks⟩ := forall_mem_cons.1 hreads
    have hfresh : b.name ∉ ctx.stackMap.map Prod.fst := fun hmem =>
      (nodup_append.1 hnodup).2.2 _ hmem _ mem_cons_self rfl
    obtain ⟨stack, hadd, hread⟩ := addBlockFromBlockInfo_eq hinfo hb hfresh
    have hrest : ((ctx.stackMap ++ [(b.name, stack)]).map Prod.fst ++
        blocks.map Block.name).Nodup := by
      rwa [map_append, append_assoc]
    obtain ⟨items, hfold, hitems⟩ :=
      ih hblocks { ctx with stackMap := ctx.stackMap ++ [(b.name, stack)] } hrest
    refine ⟨(b.name, stack) :: items, ?_, .cons ⟨rfl, hread⟩ hitems⟩
    rw [append_cons, foldlM_cons, hadd]
    exact hfold

/-- A binary that is laid out from named blocks decodes to them, in the reverse order. -/
theorem decodeBinary_layout (endianness : Endian) (hne : blocks ≠ [])
    (hfront : headerSize + (padToAlignment (stringTable blocks)).length < 2 ^ 32)
    (htotal : totalSize blocks < 2 ^ 64)
    (hnul : ∀ b ∈ blocks, 0 ∉ b.name) (hnodup : (blocks.map Block.name).Nodup)
    (hreads : ∀ b ∈ blocks, b.Readable) :
    ∃ items, Context.decodeBinary (layout endianness blocks) = .ok ⟨items, endianness⟩ ∧
      List.Forall₂ (fun b item => item.1 = b.name ∧ b.ReadAs item.2) blocks.reverse items := by
  have hinfos := forall₂_fileInfos endianness hfront htotal hnul
  have hpos : 0 < blocks.length := length_pos_iff.2 hne
  have hheader : decodeMdHeader (layout endianness blocks) = .ok (fileHeader endianness blocks) := by
    have hoffset := toNat_blockListOffset hfront endianness
    refine decodeMdHeader_append (by rw [hoffset]; exact Nat.le_add_right ..) ?_
    rw [length_append, length_append, length_flatMap_serializeBlockInfo,
      length_fileInfos]
    have : 0 < blockInfoSize * blocks.length := Nat.mul_pos (by decide) hpos
    omega
  have hlist : decodeMdBlockInfoList (fileHeader endianness blocks)
      (layout endianness blocks).length (fileHeader endianness blocks).nBlocks.toNat
      ((layout endianness blocks).drop (fileHeader endianness blocks).blockListOffset.toNat) =
      .ok (fileInfos blocks) := by
    rw [toNat_nBlocks hfront, toNat_blockListOffset hfront, ← length_fileInfos, ← drop_drop]
    nth_rewrite 2 [layout]
    rw [drop_left' (length_serializeMdHeader _), drop_left]
    exact decodeMdBlockInfoList_append
      ((forall₂_and_left _ _).1 (hinfos.imp fun _ _ h => ⟨h.valid, h⟩)).1 _
  obtain ⟨items, hfold, hitems⟩ := foldlM_addBlockFromBlockInfo hinfos
    (fun b hb => hreads b (mem_reverse.1 hb)) ⟨[], endianness⟩
    (by rw [map_reverse]; exact nodup_reverse.2 hnodup)
  refine ⟨items, ?_, hitems⟩
  rw [Context.decodeBinary, hheader]
  show (do
    let infos ← Context.orInvalidBinary (decodeMdBlockInfoList _ _ _ _)
    infos.foldlM (fun (ctx : Context) info =>
      ctx.addBlockFromBlockInfo info (layout endianness blocks)) ⟨[], endianness⟩) = _
  rw [hlist]
  exact hfold

end ConstructionKit.Metadata
