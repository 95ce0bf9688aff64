import ConstructionKit.Metadata.Handler
import ConstructionKit.Metadata.Layout
import ConstructionKit.ProofKit.RecordStore

/-! The records of the metadata handlers come back in the order in which they were written.  An
index of the stack has to be a nonnegative `int`, which bounds the number of records. -/

namespace ConstructionKit.Metadata

open ProofKit List

/-! ### Stacks of scalars -/

/-- What pushes of scalars leave on an empty stack. -/
def ofScalars (values : List Scalar) (finalized : Bool) : Stack :=
  ⟨values.map .scalar, List.range values.length, finalized, .rawBytes⟩

def pushScalar (value : Scalar) (stack : Stack) : Except Err Nat × Stack :=
  stack.push (.scalar value)

theorem pushScalar_ofScalars (values : List Scalar) (value : Scalar) :
    pushScalar value (ofScalars values false) =
      (.ok values.length, ofScalars (values ++ [value]) false) := by
  simp [pushScalar, Stack.push, ofScalars, Stack.top, range_succ]

theorem pushAll_of_le (values more : List Scalar) (h : values.length + more.length ≤ 2 ^ 31) :
    pushAll (ofScalars values false) (more.map pushScalar) =
      (true, ofScalars (values ++ more) false) := by
  induction more generalizing values with
  | nil => rw [map_nil, pushAll, append_nil]
  | cons value more ih =>
    rw [length_cons] at h
    have hidx : checkErr (.ok values.length) = false := by
      rw [checkErr, decide_eq_false_iff_not]
      omega
    rw [map_cons, pushAll, pushScalar_ofScalars]
    have hrest := ih (values ++ [value]) (by
      rw [length_append, length_singleton]
      omega)
    rw [← append_cons] at hrest
    simpa only [hidx, Bool.false_eq_true, if_false] using hrest

/-- The push of the element with the index 2³¹ looks like an error. -/
theorem pushAll_of_lt (values more : List Scalar) (hvalues : values.length ≤ 2 ^ 31)
    (h : 2 ^ 31 < values.length + more.length) :
    (pushAll (ofScalars values false) (more.map pushScalar)).1 = false := by
  induction more generalizing values with
  | nil =>
    rw [length_nil] at h
    omega
  | cons value more ih =>
    rw [length_cons] at h
    rw [map_cons, pushAll, pushScalar_ofScalars]
    dsimp only
    split
    · rfl
    · rename_i hidx
      rw [checkErr, decide_eq_true_eq] at hidx
      apply ih
      all_goals
        rw [length_append, length_singleton]
        omega

theorem serializeRaw_ofScalars (values : List Scalar) (finalized : Bool) (endianness : Endian) :
    serializeRaw (ofScalars values finalized) endianness =
      .ok (values.flatMap (rawScalar endianness)) := by
  have hparts : (List.range values.length).mapM
      (rawElement (values.map .scalar) endianness (values.map Cell.scalar).length) =
        .ok (values.map (rawScalar endianness)) := by
    refine mapM_ok (forall₂_iff_get.2 ⟨by simp, fun i hi _ => ?_⟩)
    rw [length_range] at hi
    obtain ⟨depth, hdepth⟩ : ∃ depth, (values.map Cell.scalar).length = depth + 1 :=
      ⟨values.length - 1, by rw [length_map]; omega⟩
    rw [hdepth, rawElement]
    simp [hi]
  show List.flatten <$> (List.range values.length).mapM
    (rawElement (values.map .scalar) endianness (values.map Cell.scalar).length) = _
  rw [hparts, flatMap_def]
  rfl

theorem writes_ofScalars (name : List UInt8) (values : List Scalar) (endianness : Endian) :
    Writes endianness (name, ofScalars values true)
      ⟨name, values.flatMap (rawScalar endianness), .rawBytes⟩ :=
  ⟨rfl, rfl, serializeRaw_ofScalars values true endianness⟩

/-! ### Blocks of a context -/

section

variable (front : List (List UInt8 × Stack)) {back : List (List UInt8 × Stack)} {name : List UInt8}
  {stack : Stack} {endianness : Endian} (hfront : name ∉ front.map Prod.fst)
include hfront

theorem getBlock_append :
    Context.getBlock ⟨front ++ (name, stack) :: back, endianness⟩ name = .ok stack := by
  rw [Context.getBlock, Context.find_append hfront]

section

variable (hback : name ∉ back.map Prod.fst)
include hback

theorem updateBlock_append (f : Stack → Stack) :
    Context.updateBlock ⟨front ++ (name, stack) :: back, endianness⟩ name f =
      ⟨front ++ (name, f stack) :: back, endianness⟩ := by
  have hkeep : ∀ items : List (List UInt8 × Stack), name ∉ items.map Prod.fst →
      (items.map fun item => if item.1 = name then (item.1, f item.2) else item) = items := by
    intro items hitems
    refine (map_congr_left fun item hitem => if_neg ?_).trans (map_id' items)
    rintro rfl
    exact hitems (mem_map_of_mem hitem)
  rw [Context.updateBlock]
  simp only [map_append, map_cons, hkeep front hfront, hkeep back hback, if_true]

theorem pushBlock_append (pushes : List (Stack → Except Err Nat × Stack)) :
    pushBlock ⟨front ++ (name, stack) :: back, endianness⟩ name pushes =
      ((pushAll stack pushes).1,
        ⟨front ++ (name, (pushAll stack pushes).2) :: back, endianness⟩) := by
  rw [pushBlock, getBlock_append front hfront]
  dsimp only
  rw [updateBlock_append front hfront hback]

theorem freezeBlock_append (values : List Scalar) :
    freezeBlock ⟨front ++ (name, ofScalars values false) :: back, endianness⟩ name =
      some ⟨front ++ (name, ofScalars values true) :: back, endianness⟩ := by
  rw [freezeBlock, getBlock_append front hfront]
  show some (Context.updateBlock _ name _) = _
  rw [updateBlock_append front hfront hback]
  rfl

end

theorem openBlock_append : openBlock ⟨front ++ (name, stack) :: back, endianness⟩ name =
    some ⟨front ++ (name, stack) :: back, endianness⟩ := by
  rw [openBlock, getBlock_append front hfront]

theorem loadBlock_append (binary data : List UInt8) :
    loadBlock (some binary) ⟨front ++ (name, ofScalars [.bytes data] false) :: back, endianness⟩
      name = .ok (some data) := by
  rw [loadBlock, getBlock_append front hfront]
  rfl

end

variable {blocks : List Block} (q : Quantity) (value : UInt64)

theorem decodeBinary_raw (endianness : Endian) (hne : blocks ≠ [])
    (hfront : headerSize + (padToAlignment (stringTable blocks)).length < 2 ^ 32)
    (htotal : (layout endianness blocks).length < 2 ^ 64)
    (hnul : ∀ b ∈ blocks, 0 ∉ b.name) (hnodup : (blocks.map Block.name).Nodup)
    (hraw : ∀ b ∈ blocks, b.fmt = .rawBytes) :
    Context.decodeBinary (layout endianness blocks) =
      .ok ⟨blocks.reverse.map fun b => (b.name, ofScalars [.bytes b.bytes] false), endianness⟩ := by
  rw [length_layout] at htotal
  obtain ⟨items, hdecode, hitems⟩ := decodeBinary_layout endianness hne hfront htotal hnul hnodup
    fun b hb => Block.readable_raw (hraw b hb)
  have heq : items = blocks.reverse.map fun b => (b.name, ofScalars [.bytes b.bytes] false) := by
    symm
    rw [← forall₂_eq_eq_eq, forall₂_map_left_iff]
    have hall := forall₂_iff_zip.1 hitems
    refine forall₂_iff_zip.2 ⟨hall.1, fun {b item} hmem => ?_⟩
    obtain ⟨hname, hread⟩ := hall.2 hmem
    have hb := hraw b (mem_reverse.1 (of_mem_zip hmem).1)
    exact Prod.ext hname.symm (hread.raw hb).symm
  rw [hdecode, heq]

/-! ### Records as scalars -/

def Quantity.scalars (q : Quantity) : List Scalar :=
  [.uint q.knownMinValue.toUInt64, .uint (if q.scalable then 1 else 0)]

def GenericMetadata.scalars (md : GenericMetadata) : List Scalar :=
  [.zstr (cString md.kernelName), .zstr (cString md.sourceName), .uint md.localMemoryUsage] ++
    md.subGroupSize.scalars

def VectorizeInfoMetadata.factors (md : VectorizeInfoMetadata) : List Scalar :=
  md.minWorkItemFactor.scalars ++ md.prefWorkItemFactor.scalars

theorem readZstr_append {text : List UInt8} (h : 0 ∉ text) (rest : List UInt8) :
    readZstr (text ++ 0 :: rest) = .ok text := by
  rw [readZstr, if_pos (by simp), cString, takeWhile_append_of_pos]
  · simp
  · intro b hb
    have hne : b ≠ 0 := fun heq => h (heq ▸ hb)
    simpa using hne

theorem drop_zstr (text rest : List UInt8) : (text ++ 0 :: rest).drop (text.length + 1) = rest := by
  rw [append_cons, drop_left' (by rw [length_append, length_singleton])]

theorem readUint64_append (endianness : Endian) (rest : List UInt8) :
    readUint64 (rawScalar endianness (.uint value) ++ rest) endianness = .ok value := by
  have hread := readBytes_append (serializeNumber 8 value.toNat endianness) rest
  rw [length_serializeNumber] at hread
  rw [readUint64, rawScalar, hread]
  show Except.ok (UInt64.ofNat (readValue _ _)) = _
  rw [readValue_serializeNumber value.toNat_lt, UInt64.ofNat_toNat]

theorem length_rawScalar_uint (endianness : Endian) :
    (rawScalar endianness (.uint value)).length = 8 := length_serializeNumber ..

theorem readQuantity_append (endianness : Endian) (rest : List UInt8) :
    readQuantity (q.scalars.flatMap (rawScalar endianness) ++ rest) endianness = .ok q := by
  rw [Quantity.scalars, flatMap_cons, flatMap_singleton, append_assoc, readQuantity,
    readUint64_append, drop_left' (length_rawScalar_uint ..)]
  rw [readUint64_append]
  obtain ⟨value, scalable⟩ := q
  cases scalable <;> simp [pure, Except.pure, bind, Except.bind]

/-! ### `GenericMetadataHandler` -/

/-- The names have no null. -/
def GenericMetadata.NulFree (md : GenericMetadata) : Prop := 0 ∉ md.kernelName ∧ 0 ∉ md.sourceName

instance (md : GenericMetadata) : Decidable md.NulFree := inferInstanceAs (Decidable (_ ∧ _))

def genericBytes (records : List GenericMetadata) : List UInt8 :=
  (records.flatMap (·.scalars)).flatMap (rawScalar .little)

theorem genericBytes_append (front rest : List GenericMetadata) :
    genericBytes (front ++ rest) = genericBytes front ++ genericBytes rest := by
  simp only [genericBytes, flatMap_append]

theorem length_scalars (records : List GenericMetadata) :
    (records.flatMap (·.scalars)).length = 5 * records.length := by
  induction records with
  | nil => rfl
  | cons md records ih =>
    rw [flatMap_cons, length_append, ih, length_cons]
    show 5 + _ = _
    omega

variable {handler : GenericMetadataHandler}

/-- A record at the offset is read, and the offset moves behind it. -/
theorem GenericMetadataHandler.read_append
    (hctx : handler.ctx.endianness = .little) {md : GenericMetadata} (hmd : md.NulFree)
    {front rest : List GenericMetadata} (hdata : handler.data = genericBytes (front ++ md :: rest))
    (hoffset : handler.offset = (genericBytes front).length) :
    handler.read =
      .ok (some md, { handler with offset := (genericBytes (front ++ [md])).length }) := by
  obtain ⟨kernelName, sourceName, usage, size⟩ := md
  obtain ⟨hkernel, hsource⟩ : 0 ∉ kernelName ∧ 0 ∉ sourceName := hmd
  have hbytes (tail : List UInt8) : genericBytes [⟨kernelName, sourceName, usage, size⟩] ++ tail =
      kernelName ++ 0 :: (sourceName ++ 0 :: (rawScalar .little (.uint usage) ++
        (size.scalars.flatMap (rawScalar .little) ++ tail))) := by
    simp [genericBytes, GenericMetadata.scalars, rawScalar, cString_eq_self hkernel,
      cString_eq_self hsource]
  -- what stands at the offset of each field
  have hat : handler.data.drop handler.offset =
      genericBytes [⟨kernelName, sourceName, usage, size⟩] ++ genericBytes rest := by
    rw [hdata, hoffset, append_cons, append_assoc, genericBytes_append, drop_left,
      genericBytes_append]
  rw [hbytes] at hat
  have hat₁ := congrArg (List.drop (kernelName.length + 1)) hat
  rw [drop_zstr, drop_drop] at hat₁
  have hat₂ := congrArg (List.drop (sourceName.length + 1)) hat₁
  rw [drop_zstr, drop_drop] at hat₂
  have hat₃ := congrArg (List.drop 8) hat₂
  rw [drop_left' (length_rawScalar_uint ..), drop_drop] at hat₃
  have hmore : ¬ handler.offset ≥ handler.data.length := by
    intro hle
    rw [drop_eq_nil_of_le hle] at hat
    simp at hat
  have hend : handler.offset + (kernelName.length + 1) + (sourceName.length + 1) + 8 + 16 =
      (genericBytes (front ++ [⟨kernelName, sourceName, usage, size⟩])).length := by
    have hlength := congrArg List.length (hbytes [])
    rw [genericBytes_append, length_append, hoffset]
    simp [length_rawScalar_uint, Quantity.scalars] at hlength
    omega
  simp only [read, if_neg hmore, hat, readZstr_append hkernel, hat₁, readZstr_append hsource, hat₂,
    hctx, readUint64_append, hat₃, readQuantity_append, bind, Except.bind, hend]
  rfl

theorem GenericMetadataHandler.read_end
    (h : handler.offset = handler.data.length) : handler.read = .ok (none, handler) := by
  rw [read, if_pos (Nat.le_of_eq h.symm)]

section

variable {values : List Scalar} {back : List (List UInt8 × Stack)} {endianness : Endian}
  (hctx : handler.ctx = ⟨(genericMdBlockName, ofScalars values false) :: back, endianness⟩)
  (hback : genericMdBlockName ∉ back.map Prod.fst) (md : GenericMetadata)
include hctx hback

theorem GenericMetadataHandler.write_eq :
    handler.write md = ((pushAll (ofScalars values false) (md.scalars.map pushScalar)).1,
      { handler with
        ctx.stackMap := (genericMdBlockName,
          (pushAll (ofScalars values false) (md.scalars.map pushScalar)).2) :: back }) := by
  rw [write, hctx, ← nil_append (_ :: back), pushBlock_append [] not_mem_nil hback]
  rfl

theorem GenericMetadataHandler.write_of_le (h : values.length + 5 ≤ 2 ^ 31) :
    handler.write md = (true, { handler with
      ctx.stackMap := (genericMdBlockName, ofScalars (values ++ md.scalars) false) :: back }) := by
  rw [write_eq hctx hback, pushAll_of_le values md.scalars h]

theorem GenericMetadataHandler.write_of_lt (hvalues : values.length ≤ 2 ^ 31)
    (h : 2 ^ 31 < values.length + 5) : (handler.write md).1 = false := by
  rw [write_eq hctx hback]
  exact pushAll_of_lt values md.scalars hvalues h

theorem GenericMetadataHandler.finalize_eq
    (hblocks : List.Forall₂ (Writes endianness) back blocks) :
    handler.finalize = .ok (some (layout endianness
      (⟨genericMdBlockName, values.flatMap (rawScalar endianness), .rawBytes⟩ :: blocks))) := by
  have hfreeze : freezeBlock handler.ctx genericMdBlockName =
      some ⟨(genericMdBlockName, ofScalars values true) :: back, endianness⟩ := by
    rw [hctx]
    exact freezeBlock_append [] not_mem_nil hback values
  have hbinary : Context.finalize
      ⟨(genericMdBlockName, ofScalars values true) :: back, endianness⟩ = _ :=
    Metadata.finalize_eq (.cons (writes_ofScalars _ values endianness) hblocks)
  rw [finalize, hfreeze]
  dsimp only
  rw [hbinary]
  rfl

end

theorem GenericMetadataHandler.init_some {binary data : List UInt8}
    {front : List (List UInt8 × Stack)} {endianness : Endian}
    (hdecode : Context.decodeBinary binary =
      .ok ⟨front ++ [(genericMdBlockName, ofScalars [.bytes data] false)], endianness⟩)
    (hfront : genericMdBlockName ∉ front.map Prod.fst) :
    init (some binary) = .ok (some ⟨⟨front ++ [(genericMdBlockName, ofScalars [.bytes data] false)],
      endianness⟩, data, 0⟩) := by
  simp only [init, mdInit, hdecode, bind, Except.bind, openBlock_append front hfront,
    loadBlock_append front hfront]
  rfl

def genericStore : RecordStore Fault GenericMetadataHandler (List UInt8) GenericMetadata where
  init := GenericMetadataHandler.init
  write := GenericMetadataHandler.write
  finalize := GenericMetadataHandler.finalize
  read := GenericMetadataHandler.read

/-- Each record has five elements on the generic stack. -/
def maxRecords : Nat := 2 ^ 31 / 5

/-- The binary of a handler that was given records. -/
def genericBinary (records : List GenericMetadata) : List UInt8 :=
  layout .little [⟨genericMdBlockName, genericBytes records, .rawBytes⟩]

namespace GenericMetadataHandler

/-- The handler after records have been written. -/
def holding (records : List GenericMetadata) : GenericMetadataHandler :=
  ⟨⟨[(genericMdBlockName, ofScalars (records.flatMap (·.scalars)) false)], .little⟩, [], 0⟩

/-- The handler after the first records have been read. -/
def reading (front rest : List GenericMetadata) : GenericMetadataHandler :=
  ⟨⟨[(genericMdBlockName, ofScalars [.bytes (genericBytes (front ++ rest))] false)], .little⟩,
    genericBytes (front ++ rest), (genericBytes front).length⟩

theorem decodeBinary_eq {records : List GenericMetadata}
    (h : (genericBinary records).length < 2 ^ 64) :
    Context.decodeBinary (genericBinary records) =
      .ok ⟨[] ++ [(genericMdBlockName, ofScalars [.bytes (genericBytes records)] false)],
        .little⟩ := by
  apply decodeBinary_raw .little (cons_ne_nil _ _) _ h
  · exact forall_mem_singleton.2 (show 0 ∉ genericMdBlockName by decide)
  · exact nodup_singleton _
  · exact forall_mem_singleton.2 rfl
  · show headerSize + (padToAlignment (genericMdBlockName ++ [0])).length < 2 ^ 32
    decide

theorem represents : genericStore.Represents maxRecords GenericMetadata.NulFree
    (fun binary => binary.length < 2 ^ 64) holding genericBinary reading where
  init_none := rfl
  write_of_lt {records} md h := by
    have hlimit : (records.flatMap (·.scalars)).length + 5 ≤ 2 ^ 31 := by
      rw [length_scalars]
      unfold maxRecords at h
      omega
    have hwrite : (holding records).write md = _ := write_of_le rfl not_mem_nil md hlimit
    refine hwrite.trans ?_
    rw [holding, holding, flatMap_append, flatMap_singleton]
  write_of_eq {records} md h := by
    have hlimit : (records.flatMap (·.scalars)).length = 5 * maxRecords := by rw [length_scalars, h]
    apply write_of_lt rfl not_mem_nil
    all_goals
      rw [hlimit]
      decide
  finalize_eq records := by
    show (holding records).finalize = _
    exact finalize_eq rfl not_mem_nil .nil
  init_some h := init_some (decodeBinary_eq h) not_mem_nil
  read_cons front {md} rest h := by
    have hread : (reading front (md :: rest)).read = _ := read_append rfl h rfl rfl
    refine hread.trans ?_
    rw [reading, reading, ← append_cons]
  read_nil front := by
    refine read_end ?_
    rw [reading, append_nil]

end GenericMetadataHandler

/-! ### `VectorizeInfoMetadataHandler` -/

def factorBytes (records : List VectorizeInfoMetadata) : List UInt8 :=
  (records.flatMap (·.factors)).flatMap (rawScalar .little)

theorem factorBytes_append (front rest : List VectorizeInfoMetadata) :
    factorBytes (front ++ rest) = factorBytes front ++ factorBytes rest := by
  simp only [factorBytes, flatMap_append]

theorem length_factors (records : List VectorizeInfoMetadata) :
    (records.flatMap (·.factors)).length = 4 * records.length := by
  induction records with
  | nil => rfl
  | cons md records ih =>
    rw [flatMap_cons, length_append, ih, length_cons]
    show 4 + _ = _
    omega

/-- The part of the records that is in the generic block. -/
def generics (records : List VectorizeInfoMetadata) : List GenericMetadata :=
  records.map (·.toGenericMetadata)

def vectorizeStore :
    RecordStore Fault VectorizeInfoMetadataHandler (List UInt8) VectorizeInfoMetadata where
  init := VectorizeInfoMetadataHandler.init
  write := VectorizeInfoMetadataHandler.write
  finalize := VectorizeInfoMetadataHandler.finalize
  read := VectorizeInfoMetadataHandler.read

def vectorizeBinary (records : List VectorizeInfoMetadata) : List UInt8 :=
  layout .little [⟨genericMdBlockName, genericBytes (generics records), .rawBytes⟩,
    ⟨vectorizeMdBlockName, factorBytes records, .rawBytes⟩]

namespace VectorizeInfoMetadataHandler

def holding (records : List VectorizeInfoMetadata) : VectorizeInfoMetadataHandler :=
  ⟨⟨⟨[(genericMdBlockName, ofScalars ((generics records).flatMap (·.scalars)) false),
      (vectorizeMdBlockName, ofScalars (records.flatMap (·.factors)) false)], .little⟩, [], 0⟩,
    [], 0⟩

/-- The blocks are decoded in the reverse order. -/
def reading (front rest : List VectorizeInfoMetadata) : VectorizeInfoMetadataHandler :=
  ⟨⟨⟨[(vectorizeMdBlockName, ofScalars [.bytes (factorBytes (front ++ rest))] false),
      (genericMdBlockName, ofScalars [.bytes (genericBytes (generics (front ++ rest)))] false)],
      .little⟩, genericBytes (generics (front ++ rest)), (genericBytes (generics front)).length⟩,
    factorBytes (front ++ rest), (factorBytes front).length⟩

theorem generic_not_mem (stack : Stack) :
    genericMdBlockName ∉ [(vectorizeMdBlockName, stack)].map Prod.fst :=
  show genericMdBlockName ∉ [vectorizeMdBlockName] by decide

theorem vectorize_not_mem (stack : Stack) :
    vectorizeMdBlockName ∉ [(genericMdBlockName, stack)].map Prod.fst :=
  show vectorizeMdBlockName ∉ [genericMdBlockName] by decide

theorem pushFactors (generic : Stack) (values : List Scalar) (endianness : Endian)
    (md : VectorizeInfoMetadata) :
    pushBlock ⟨[(genericMdBlockName, generic), (vectorizeMdBlockName, ofScalars values false)],
        endianness⟩ vectorizeMdBlockName
        (md.minWorkItemFactor.pushes ++ md.prefWorkItemFactor.pushes) =
      ((pushAll (ofScalars values false) (md.factors.map pushScalar)).1,
        ⟨[(genericMdBlockName, generic), (vectorizeMdBlockName,
          (pushAll (ofScalars values false) (md.factors.map pushScalar)).2)], endianness⟩) :=
  pushBlock_append [(genericMdBlockName, generic)] (vectorize_not_mem _) not_mem_nil _

variable {records : List VectorizeInfoMetadata} (front : List VectorizeInfoMetadata)

theorem write_of_lt (md : VectorizeInfoMetadata) (h : records.length < maxRecords) :
    (holding records).write md = (true, holding (records ++ [md])) := by
  unfold maxRecords at h
  have hlimit : ((generics records).flatMap (·.scalars)).length + 5 ≤ 2 ^ 31 := by
    rw [length_scalars, generics, length_map]
    omega
  have hfactors : (records.flatMap (·.factors)).length + md.factors.length ≤ 2 ^ 31 := by
    rw [length_factors]
    show _ + 4 ≤ _
    omega
  have hgeneric : (holding records).toGenericMetadataHandler.write md.toGenericMetadata = _ :=
    GenericMetadataHandler.write_of_le rfl (generic_not_mem _) _ hlimit
  rw [write, hgeneric]
  dsimp only [Bool.not_true, Bool.false_eq_true, if_false]
  rw [pushFactors, pushAll_of_le _ _ hfactors]
  simp [holding, generics]

theorem write_of_eq (md : VectorizeInfoMetadata)
    (h : records.length = maxRecords) : ((holding records).write md).1 = false := by
  have hlimit : ((generics records).flatMap (·.scalars)).length = 5 * maxRecords := by
    rw [length_scalars, generics, length_map, h]
  have hgeneric :
      ((holding records).toGenericMetadataHandler.write md.toGenericMetadata).1 = false := by
    apply GenericMetadataHandler.write_of_lt rfl (generic_not_mem _)
    all_goals
      rw [hlimit]
      decide
  simp only [write, hgeneric, Bool.not_false, if_true]

theorem finalize_eq (records : List VectorizeInfoMetadata) :
    (holding records).finalize = .ok (some (vectorizeBinary records)) := by
  have hfreeze : freezeBlock (holding records).ctx vectorizeMdBlockName = some _ :=
    freezeBlock_append [(genericMdBlockName, _)] (vectorize_not_mem _) not_mem_nil _
  rw [finalize, hfreeze]
  exact GenericMetadataHandler.finalize_eq rfl (generic_not_mem _)
    (.cons (writes_ofScalars ..) .nil)

theorem decodeBinary_eq (h : (vectorizeBinary records).length < 2 ^ 64) :
    Context.decodeBinary (vectorizeBinary records) =
      .ok ⟨[(vectorizeMdBlockName, ofScalars [.bytes (factorBytes records)] false)] ++
        [(genericMdBlockName, ofScalars [.bytes (genericBytes (generics records))] false)],
        .little⟩ := by
  apply decodeBinary_raw .little (cons_ne_nil _ _) _ h
  · exact forall_mem_cons.2 ⟨show 0 ∉ genericMdBlockName by decide,
      forall_mem_singleton.2 (show 0 ∉ vectorizeMdBlockName by decide)⟩
  · show [genericMdBlockName, vectorizeMdBlockName].Nodup
    decide
  · exact forall_mem_cons.2 ⟨rfl, forall_mem_singleton.2 rfl⟩
  · show headerSize + (padToAlignment
      (genericMdBlockName ++ [0] ++ (vectorizeMdBlockName ++ [0]))).length < 2 ^ 32
    decide

theorem init_some (h : (vectorizeBinary records).length < 2 ^ 64) :
    init (some (vectorizeBinary records)) = .ok (some (reading [] records)) := by
  have hgeneric : GenericMetadataHandler.init (some (vectorizeBinary records)) =
      .ok (some (reading [] records).toGenericMetadataHandler) :=
    GenericMetadataHandler.init_some (decodeBinary_eq h) (generic_not_mem _)
  have hopen : openBlock (reading [] records).ctx vectorizeMdBlockName =
      some (reading [] records).ctx := openBlock_append [] not_mem_nil
  have hload : loadBlock (some (vectorizeBinary records)) (reading [] records).ctx
      vectorizeMdBlockName = .ok (some (factorBytes records)) :=
    loadBlock_append [] not_mem_nil _ _
  simp only [init, hgeneric, hopen, hload, bind, Except.bind]
  rfl

theorem length_flatMap_scalars (endianness : Endian) :
    (q.scalars.flatMap (rawScalar endianness)).length = 16 := by
  simp [Quantity.scalars, length_rawScalar_uint]

theorem read_cons {md : VectorizeInfoMetadata}
    (rest : List VectorizeInfoMetadata) (h : md.NulFree) :
    (reading front (md :: rest)).read = .ok (some md, reading (front ++ [md]) rest) := by
  have hgeneric : (reading front (md :: rest)).toGenericMetadataHandler.read =
      .ok (some md.toGenericMetadata, { (reading front (md :: rest)).toGenericMetadataHandler with
        offset := (genericBytes (generics (front ++ [md]))).length }) := by
    have hdata : (reading front (md :: rest)).data =
        genericBytes (generics front ++ md.toGenericMetadata :: generics rest) := by
      simp [reading, generics]
    rw [GenericMetadataHandler.read_append rfl h hdata rfl, generics, generics, map_append]
    rfl
  have hbytes (tail : List UInt8) : factorBytes [md] ++ tail =
      md.minWorkItemFactor.scalars.flatMap (rawScalar .little) ++
        (md.prefWorkItemFactor.scalars.flatMap (rawScalar .little) ++ tail) := by
    simp [factorBytes, VectorizeInfoMetadata.factors]
  have hat : (factorBytes (front ++ md :: rest)).drop (factorBytes front).length =
      factorBytes [md] ++ factorBytes rest := by
    rw [append_cons, append_assoc, factorBytes_append, drop_left, factorBytes_append]
  rw [hbytes] at hat
  have hat₁ := congrArg (List.drop 16) hat
  rw [drop_left' (length_flatMap_scalars ..), drop_drop] at hat₁
  have hmore : ¬ (factorBytes front).length ≥ (factorBytes (front ++ md :: rest)).length := by
    intro hle
    rw [drop_eq_nil_of_le hle] at hat
    have hlength := congrArg List.length hat
    rw [length_append, length_flatMap_scalars, length_nil] at hlength
    omega
  have hend : (factorBytes front).length + 32 = (factorBytes (front ++ [md])).length := by
    have hlength := congrArg List.length (hbytes [])
    rw [append_nil, append_nil, length_append, length_flatMap_scalars,
      length_flatMap_scalars] at hlength
    rw [factorBytes_append, length_append, hlength]
  simp only [read, hgeneric, bind, Except.bind]
  simp only [reading, if_neg hmore, hat, hat₁, readQuantity_append, hend, ← append_cons]
  rfl

theorem read_nil :
    (reading front []).read = .ok (none, reading front []) := by
  have hgeneric : (reading front []).toGenericMetadataHandler.read =
      .ok (none, (reading front []).toGenericMetadataHandler) := by
    apply GenericMetadataHandler.read_end
    rw [reading, append_nil]
  simp only [read, hgeneric, bind, Except.bind]
  rfl

theorem represents : vectorizeStore.Represents maxRecords (·.NulFree)
    (fun binary => binary.length < 2 ^ 64) holding vectorizeBinary reading where
  init_none := rfl
  write_of_lt := write_of_lt
  write_of_eq := write_of_eq
  finalize_eq := finalize_eq
  init_some := init_some
  read_cons := read_cons
  read_nil := read_nil

end VectorizeInfoMetadataHandler

/-! ### Round trip -/

/-- The records of both handlers come back exactly if there are at most `maxRecords`, as long as the
size of the binary is a `size_t`. -/
theorem records_roundTrip_iff :
    (∀ records : List VectorizeInfoMetadata, (∀ md ∈ records, md.NulFree) →
      (∀ binary, vectorizeStore.written records = .ok (some binary) → binary.length < 2 ^ 64) →
      (vectorizeStore.RoundTrips records ↔ records.length ≤ maxRecords)) ∧
    ∀ records : List GenericMetadata, (∀ md ∈ records, md.NulFree) →
      (∀ binary, genericStore.written records = .ok (some binary) → binary.length < 2 ^ 64) →
      (genericStore.RoundTrips records ↔ records.length ≤ maxRecords) := by
  constructor
  · intro records hvalid hfits
    exact VectorizeInfoMetadataHandler.represents.roundTrips_iff_length_le hvalid hfits
  · intro records hvalid hfits
    exact GenericMetadataHandler.represents.roundTrips_iff_length_le hvalid hfits

def fixedKernel : VectorizeInfoMetadata :=
  ⟨⟨[0x6b, 0x31], [0x73], 0x100000001, ⟨8, false⟩⟩, ⟨1, false⟩, ⟨4, false⟩⟩

/-- The source name is empty. -/
def scalableKernel : VectorizeInfoMetadata :=
  ⟨⟨[0x6b, 0x32], [], 0, ⟨0xffffffff, true⟩⟩, ⟨2, true⟩, ⟨16, true⟩⟩

theorem twoKernels_roundTrip :
    vectorizeStore.RoundTrips [fixedKernel, scalableKernel] ∧
      genericStore.RoundTrips (generics [fixedKernel, scalableKernel]) := by
  constructor
  · refine (records_roundTrip_iff.1 _ (by decide) fun binary hbinary => ?_).2 (by decide)
    have hwritten := VectorizeInfoMetadataHandler.represents.written_of_le
      (show [fixedKernel, scalableKernel].length ≤ maxRecords by decide)
    obtain rfl := Option.some.inj (Except.ok.inj (hbinary.symm.trans hwritten))
    rw [vectorizeBinary, length_layout]
    decide +kernel
  · refine (records_roundTrip_iff.2 _ (by decide) fun binary hbinary => ?_).2 (by decide)
    have hwritten := GenericMetadataHandler.represents.written_of_le
      (show (generics [fixedKernel, scalableKernel]).length ≤ maxRecords by decide)
    obtain rfl := Option.some.inj (Except.ok.inj (hbinary.symm.trans hwritten))
    rw [genericBinary, length_layout]
    decide

/-- The sub-group size of the last kernel is pushed to the index 2³¹. -/
theorem not_roundTrip_tooMany :
    (∀ md ∈ List.replicate 429496730 fixedKernel, md.NulFree) ∧
      ¬ vectorizeStore.RoundTrips (List.replicate 429496730 fixedKernel) := by
  constructor
  · intro md hmd
    rw [eq_of_mem_replicate hmd]
    decide
  · apply VectorizeInfoMetadataHandler.represents.not_roundTrips
    rw [length_replicate]
    decide

end ConstructionKit.Metadata
