import ConstructionKit.Args.ArgPack
import ConstructionKit.Args.Wrapper

/-! The compiler and the HAL lay the arguments of a kernel out alike, as long as every value of more
than 128 bytes happens to lie at a multiple of its size rounded up to a power of two. -/

namespace ConstructionKit.Args

open ProofKit List UInt64

/-! ### Kernel arguments on a 64-bit target -/

/-- A value that is passed to a kernel.  LLVM counts the bits of a type with 64 bits. -/
structure Value where
  data : List UInt8
  nonempty : 1 ≤ data.length
  bits_lt : 8 * data.length < 2 ^ 64

inductive KernelArg where
  | globalBuffer (address : UInt64)
  | value (val : Value) (byVal : Bool)
  | localBuffer (size : UInt64)

namespace KernelArg

def pointerTy (isLocalBuffer : Bool) : Ty := ⟨64, isLocalBuffer⟩

def toArgument : KernelArg → Argument
  | globalBuffer _ => ⟨pointerTy false, none, none⟩
  | value val byVal =>
    let ty : Ty := ⟨.ofNat (8 * val.data.length), false⟩
    if byVal then ⟨pointerTy false, some ty, none⟩ else ⟨ty, none, none⟩
  | localBuffer _ => ⟨pointerTy true, none, none⟩

def toHal : KernelArg → HalArg
  | globalBuffer address => ⟨.address, .globalSpace, 8, address, []⟩
  | value val _ => ⟨.value, .globalSpace, .ofNat val.data.length, 0, val.data⟩
  | localBuffer size => ⟨.address, .localSpace, size, 0, []⟩

def bytes : KernelArg → List UInt8
  | globalBuffer address => leBytes 8 address.toNat
  | value val _ => val.data
  | localBuffer size => leBytes 8 size.toNat

def size (arg : KernelArg) : Nat := arg.bytes.length

theorem size_bounds (arg : KernelArg) : 1 ≤ arg.size ∧ arg.size < 2 ^ 61 := by
  cases arg with
  | value val =>
    have := val.nonempty
    have := val.bits_lt
    show 1 ≤ val.data.length ∧ val.data.length < 2 ^ 61
    omega
  | _ => simp [size, bytes]

end KernelArg

/-- A parameter of the kernel function. -/
inductive Param where
  | packed (arg : KernelArg)
  | scheduling (idx : Nat) (ty : Ty)

def Param.toArgument : Param → Argument
  | packed arg => arg.toArgument
  | scheduling idx ty => ⟨ty, none, some idx⟩

def Param.kernelArg : Param → Option KernelArg
  | packed arg => some arg
  | scheduling _ _ => none

/-- The arguments that the host sets. -/
def kernelArgs (params : List Param) : List KernelArg := params.filterMap Param.kernelArg

/-! ### The struct of the compiler -/

/-- The alignment that the compiler gives to a size. -/
def cappedAlign (size : Nat) : Nat := min 128 (ceilPow2 size)

theorem cappedAlign_eq_pow (size : Nat) : ∃ k ≤ 7, cappedAlign size = 2 ^ k := by
  obtain ⟨k, hk⟩ := ceilPow2_eq_pow size
  rw [cappedAlign, hk]
  by_cases hle : k ≤ 7
  · have : 2 ^ k ≤ 2 ^ 7 := Nat.pow_le_pow_right (by decide) hle
    exact ⟨k, hle, Nat.min_eq_right this⟩
  · have : 2 ^ 7 ≤ 2 ^ k := Nat.pow_le_pow_right (by decide) (by omega)
    exact ⟨7, le_rfl, Nat.min_eq_left this⟩

theorem cappedAlign_dvd (size : Nat) : cappedAlign size ∣ 2 ^ 32 := by
  obtain ⟨k, hk, heq⟩ := cappedAlign_eq_pow size
  rw [heq]
  exact Nat.pow_dvd_pow 2 (by omega)

variable {size : UInt64} {ty : Ty} {state : ArgTypes} {sizes : List Nat}

theorem toNat_powerOf2Ceil (hpos : 1 ≤ size.toNat) (hlt : size.toNat < 2 ^ 61) :
    (powerOf2Ceil size).toNat = ceilPow2 size.toNat := by
  have hle := ceilPow2_le_pow hlt.le
  have hne : size ≠ 0 := by
    rintro rfl
    exact absurd hpos (by decide)
  rw [powerOf2Ceil, if_neg hne]
  exact toNat_ofNat_of_lt' (show _ < 2 ^ 64 by omega)

theorem toNat_alignSize (hpos : 1 ≤ size.toNat) (hlt : size.toNat < 2 ^ 61) :
    (alignSize size).toNat = cappedAlign size.toNat := by
  have hceil := toNat_powerOf2Ceil hpos hlt
  rw [alignSize, cappedAlign, toNat_toUInt32]
  split <;> rename_i h <;> rw [lt_iff_toNat_lt, hceil] at h
  · rw [hceil]
    replace h : ceilPow2 size.toNat < 128 := h
    omega
  · replace h : ¬ ceilPow2 size.toNat < 128 := h
    show 128 % 2 ^ 32 = _
    omega

theorem Ty.toNat_size (h : 1 ≤ (ty.allocSizeInBits / 8).toNat) :
    ty.size = ty.allocSizeInBits / 8 := by
  rw [Ty.size, if_neg]
  exact Nat.not_lt.2 h

theorem reserve_spec {cur size : Nat}
    (hindex : state.index.toNat = cur % 2 ^ 32) (hty : (ty.allocSizeInBits / 8).toNat = size)
    (hpos : 1 ≤ size) (hlt : size < 2 ^ 61) :
    ∃ fields, (state.reserve ty).packedArgTypes = state.packedArgTypes ++ fields ∧
      (fields.map Field.size).sum = roundUp (cappedAlign size) cur - cur ∧
      (state.reserve ty).argMappings = state.argMappings ∧
      (state.reserve ty).index.toNat = fieldEnd cappedAlign cur size % 2 ^ 32 := by
  subst hty
  have hsize : ty.size = ty.allocSizeInBits / 8 := Ty.toNat_size hpos
  have halign := toNat_alignSize hpos hlt
  generalize ty.allocSizeInBits / 8 = bytes at *
  have hdvd := cappedAlign_dvd bytes.toNat
  have hremainder : (state.index % alignSize bytes).toNat = cur % cappedAlign bytes.toNat := by
    rw [UInt32.toNat_mod, halign, hindex, Nat.mod_mod_of_dvd _ hdvd]
  have hbytes : bytes.toUInt32.toNat = bytes.toNat % 2 ^ 32 := toNat_toUInt32 bytes
  have hcapped : 0 < cappedAlign bytes.toNat := by
    obtain ⟨k, -, hk⟩ := cappedAlign_eq_pow bytes.toNat
    rw [hk]
    exact Nat.two_pow_pos k
  rw [ArgTypes.reserve, hsize]
  split
  · rename_i hne
    have hmod : cur % cappedAlign bytes.toNat ≠ 0 := by
      intro heq
      apply hne
      apply UInt32.toNat_inj.1
      rw [hremainder, heq]
      rfl
    have hlt' := Nat.mod_lt cur hcapped
    have hpadding : (alignSize bytes - state.index % alignSize bytes).toNat =
        cappedAlign bytes.toNat - cur % cappedAlign bytes.toNat := by
      rw [UInt32.toNat_sub_of_le _ _ (by rw [UInt32.le_iff_toNat_le]; omega), halign, hremainder]
    refine ⟨_, rfl, ?_, rfl, ?_⟩
    · show _ + 0 = _
      rw [roundUp_of_mod_ne_zero hcapped hmod, Field.size]
      omega
    · rw [UInt32.toNat_add, UInt32.toNat_add, fieldEnd,
        roundUp_of_mod_ne_zero hcapped hmod]
      omega
  · rename_i heq
    have hmod : cur % cappedAlign bytes.toNat = 0 := by
      rw [← hremainder, not_not.1 heq]
      rfl
    refine ⟨[], (append_nil _).symm, ?_, rfl, ?_⟩
    · rw [roundUp_of_mod_eq_zero hmod, Nat.sub_self]
      rfl
    · rw [UInt32.toNat_add, fieldEnd, roundUp_of_mod_eq_zero hmod]
      omega

/-- The struct holds fields of some sizes. -/
structure Laid (state : ArgTypes) (sizes : List Nat) : Prop where
  index : state.index.toNat = placeEnd cappedAlign 0 sizes % 2 ^ 32
  total : (state.packedArgTypes.map Field.size).sum = placeEnd cappedAlign 0 sizes
  offsets : state.offsets = place cappedAlign 0 sizes
  bound : ∀ mapping ∈ state.argMappings,
    mapping.packedStructFieldIdx ≤ state.packedArgTypes.length

theorem Laid.init : Laid .init [] :=
  ⟨rfl, rfl, rfl, fun _ hmem => absurd hmem not_mem_nil⟩

/-- Mappings to no field leave the offsets as they are. -/
theorem Laid.skip (h : Laid state sizes)
    {mapping : KernelArgMapping} (hmapping : mapping.packedStructFieldIdx = -1) (unpacked : Nat)
    (types : List Ty) :
    Laid ⟨state.index, unpacked, state.packedArgTypes, state.argMappings ++ [mapping], types⟩
      sizes := by
  refine ⟨h.index, h.total, ?_, ?_⟩
  · rw [← h.offsets]
    simp [hmapping, ArgTypes.offsets]
  · intro m hm
    rcases mem_append.1 hm with hm | hm
    · exact h.bound m hm
    · rw [mem_singleton.1 hm, hmapping]
      exact Int.le_trans (by decide) (Int.natCast_nonneg _)

theorem fieldOffset_append {fields : List Field} {idx : Nat} (h : idx ≤ fields.length)
    (more : List Field) : fieldOffset (fields ++ more) idx = fieldOffset fields idx := by
  rw [fieldOffset, fieldOffset, take_append_of_le_length h]

theorem Laid.packed (h : Laid state sizes)
    {size : Nat} (hty : (ty.allocSizeInBits / 8).toNat = size) (hpos : 1 ≤ size)
    (hlt : size < 2 ^ 61) (old : Nat) :
    Laid { state.reserve ty with
        argMappings := (state.reserve ty).argMappings ++
          [⟨old, 0, -1, (state.reserve ty).packedArgTypes.length⟩]
        packedArgTypes := (state.reserve ty).packedArgTypes ++ [.packed ty] } (sizes ++ [size]) := by
  obtain ⟨fields, hfields, hsum, hmappings, hindex⟩ := reserve_spec h.index hty hpos hlt
  have hle := le_roundUp (cappedAlign size) (placeEnd cappedAlign 0 sizes)
  have hsum' : ((state.reserve ty).packedArgTypes.map Field.size).sum =
      roundUp (cappedAlign size) (placeEnd cappedAlign 0 sizes) := by
    rw [hfields, map_append, sum_append, h.total]
    omega
  refine ⟨?_, ?_, ?_, ?_⟩
  · rw [placeEnd_append]
    exact hindex
  · rw [placeEnd_append]
    rw [map_append, sum_append, hsum']
    show _ + ((ty.allocSizeInBits / 8).toNat + 0) = fieldEnd cappedAlign _ size
    rw [hty, fieldEnd, Nat.add_zero]
  · -- the old offsets lie in the old fields, the new one is the size of all fields before it
    have hold : (state.argMappings.filterMap fun mapping =>
        if 0 ≤ mapping.packedStructFieldIdx then
          some (fieldOffset (state.packedArgTypes ++ (fields ++ [.packed ty]))
            mapping.packedStructFieldIdx.toNat)
        else none) = state.offsets := by
      refine filterMap_congr fun mapping hmem => ?_
      have := h.bound mapping hmem
      rw [fieldOffset_append (by omega)]
    have hnew : fieldOffset ((state.reserve ty).packedArgTypes ++ [.packed ty])
        (state.reserve ty).packedArgTypes.length =
          roundUp (cappedAlign size) (placeEnd cappedAlign 0 sizes) := by
      rw [fieldOffset, take_left, hsum']
    rw [place_append, ← h.offsets, ArgTypes.offsets]
    rw [hmappings, filterMap_append, hfields, append_assoc, hold, ← append_assoc,
      ← hfields]
    show state.offsets ++ [fieldOffset _ (state.reserve ty).packedArgTypes.length] = _
    rw [hnew]
    rfl
  · intro mapping hmem
    have hlength : ((state.reserve ty).packedArgTypes ++ [Field.packed ty]).length =
        state.packedArgTypes.length + fields.length + 1 := by
      rw [hfields, length_append, length_append]
      rfl
    rw [hlength]
    rw [hmappings] at hmem
    rcases mem_append.1 hmem with hm | hm
    · have := h.bound mapping hm
      omega
    · rw [mem_singleton.1 hm]
      dsimp only
      rw [hfields, length_append]
      omega

/-- `size_t` of a 64-bit target. -/
def sizeTy : Ty := ⟨64, false⟩

theorem size_addType (pass : AddKernelWrapperPass) (arg : KernelArg) :
    ((pass.addType sizeTy arg.toArgument).allocSizeInBits / 8).toNat = arg.size := by
  obtain ⟨isPacked, bySize⟩ := pass
  have hpointer : ((64 : UInt64) / 8).toNat = 8 := by decide
  cases arg with
  | globalBuffer | localBuffer => cases bySize <;> exact hpointer
  | value val byVal =>
    have hbits : (UInt64.ofNat (8 * val.data.length)).toNat = 8 * val.data.length :=
      toNat_ofNat_of_lt' val.bits_lt
    have hbytes : (UInt64.ofNat (8 * val.data.length) / 8).toNat = val.data.length := by
      rw [UInt64.toNat_div, hbits]
      exact Nat.mul_div_cancel_left _ (by decide)
    cases bySize <;> cases byVal <;> exact hbytes

section

variable {pass : AddKernelWrapperPass} (hpass : pass.isPacked = false) (schedParamInfo : List Bool)
include hpass

theorem Laid.addArgument (h : Laid state sizes) (param : Param) (old : Nat) :
    Laid (pass.addArgument sizeTy schedParamInfo state (param.toArgument, old))
      (sizes ++ (kernelArgs [param]).map KernelArg.size) := by
  cases param with
  | scheduling idx ty =>
    rw [show kernelArgs [Param.scheduling idx ty] = [] from rfl,
      map_nil, append_nil]
    show Laid (if schedParamInfo.getD idx true then _ else _) sizes
    split <;> exact h.skip rfl _ _
  | packed arg =>
    obtain ⟨hpos, hlt⟩ := arg.size_bounds
    have hsched : (Param.packed arg).toArgument.schedParam = none := by
      cases arg with
      | value val byVal => cases byVal <;> rfl
      | _ => rfl
    rw [AddKernelWrapperPass.addArgument]
    rw [hsched, hpass]
    exact h.packed (size_addType pass arg) hpos hlt old

theorem laid_createNewFunctionArgTypes (params : List Param) :
    Laid (pass.createNewFunctionArgTypes sizeTy schedParamInfo (params.map Param.toArgument))
      ((kernelArgs params).map KernelArg.size) := by
  have hfold : ∀ (params : List Param) (state : ArgTypes) (sizes : List Nat) (old : Nat),
      Laid state sizes →
      Laid (((params.map Param.toArgument).zipIdx old).foldl
        (pass.addArgument sizeTy schedParamInfo) state)
        (sizes ++ (kernelArgs params).map KernelArg.size) := by
    intro params
    induction params with
    | nil =>
      intro state sizes old h
      show Laid state (sizes ++ [])
      rwa [append_nil]
    | cons param params ih =>
      intro state sizes old h
      have hstep := ih _ _ (old + 1) (h.addArgument hpass schedParamInfo param old)
      rw [append_assoc, ← map_append, kernelArgs, kernelArgs, ← filterMap_append]
        at hstep
      exact hstep
  exact hfold params .init [] 0 .init

end

/-! ### The pack of the host -/

theorem toNat_roundUpPower2 (size : UInt64) (hpos : 1 ≤ size.toNat) (hlt : size.toNat < 2 ^ 61) :
    (roundUpPower2 size).toNat = ceilPow2 size.toNat := by
  have hpred : (size - 1).toNat = size.toNat - 1 := by
    rw [UInt64.toNat_sub_of_le _ _ (by rw [le_iff_toNat_le]; exact hpos)]
    rfl
  have hsmear := (((((Smears.one (size - 1).toNat).double.double).double).double).double).double
  have hceil := hsmear.succ_eq_ceilPow2 (size - 1).toNat_lt
  have hle := ceilPow2_le_pow hlt.le
  rw [hpred, show size.toNat - 1 + 1 = size.toNat by omega] at hceil
  rw [roundUpPower2, UInt64.toNat_add]
  simp only [UInt64.toNat_or, UInt64.toNat_shiftRight, hpred]
  rw [Nat.mod_eq_of_lt]
  · exact hceil
  · exact lt_of_eq_of_lt hceil (by omega)

theorem toNat_roundToMultipleP2 {val mult : UInt64} {k : Nat} (hmult : mult.toNat = 2 ^ k)
    (hlt : val.toNat + 2 ^ k ≤ 2 ^ 64) :
    (roundToMultipleP2 val mult).toNat = roundUp (2 ^ k) val.toNat := by
  have hpos := Nat.two_pow_pos k
  have hk : k < 64 := (Nat.pow_lt_pow_iff_right (by decide)).1 (hmult ▸ mult.toNat_lt)
  have hpred : (mult - 1).toNat = 2 ^ k - 1 := by
    rw [UInt64.toNat_sub_of_le _ _ (by rw [le_iff_toNat_le, hmult]; exact hpos), hmult]
    rfl
  have hmask : (~~~(mult - 1)).toNat = 2 ^ 64 - 2 ^ k := by
    rw [toNat_not, hpred]
    show 2 ^ 64 - 1 - (2 ^ k - 1) = _
    omega
  have hsum : (val + (mult - 1)).toNat = val.toNat + (2 ^ k - 1) := by
    rw [UInt64.toNat_add, hpred, Nat.mod_eq_of_lt (by omega)]
  rw [roundToMultipleP2, UInt64.toNat_and, hmask, hsum, and_not_mask (by omega) hk.le]
  have hsplit := Nat.div_add_mod (val.toNat + (2 ^ k - 1)) (2 ^ k)
  exact eq_roundUp (Nat.dvd_mul_right ..) (by omega) (by omega)

/-- Bytes are added at the next multiple of their alignment. -/
theorem addBytes_eq {pack src pack' : List UInt8} {alignSize : UInt64} {k writePoint : Nat}
    (hpack : pack.length < 2 ^ 63) (halign : alignSize.toNat = 2 ^ k) (hk : k ≤ 61)
    (hsize : size.toNat = src.length) (hsrc : src.length < 2 ^ 61)
    (h : addBytes pack alignSize size src = some (writePoint, pack')) :
    writePoint = roundUp (2 ^ k) pack.length ∧
      pack' = pack ++ .replicate (writePoint - pack.length) 0 ++ src ∧ pack'.length < 2 ^ 63 := by
  have hle : 2 ^ k ≤ 2 ^ 61 := Nat.pow_le_pow_right (by decide) hk
  have hlength : (UInt64.ofNat pack.length).toNat = pack.length :=
    toNat_ofNat_of_lt' (show _ < 2 ^ 64 by omega)
  have hround : (roundToMultipleP2 (.ofNat pack.length) alignSize).toNat =
      roundUp (2 ^ k) pack.length := by
    rw [toNat_roundToMultipleP2 halign (by omega), hlength]
  have hup := le_roundUp (2 ^ k) pack.length
  have hlt := roundUp_lt (Nat.two_pow_pos k) pack.length
  generalize hpoint : roundUp (2 ^ k) pack.length = point at *
  have hpadding : (calcPadding (.ofNat pack.length) alignSize).toNat = point - pack.length := by
    rw [calcPadding, UInt64.toNat_sub_of_le _ _ (by rw [le_iff_toNat_le]; omega), hround,
      hlength]
  have hwrite : (UInt64.ofNat pack.length + calcPadding (.ofNat pack.length) alignSize).toNat =
      point := by
    rw [UInt64.toNat_add]
    omega
  have hsum : (UInt64.ofNat pack.length + (size + calcPadding (.ofNat pack.length) alignSize)).toNat
      = point + src.length := by
    rw [UInt64.toNat_add, UInt64.toNat_add]
    omega
  rw [addBytes] at h
  rw [hwrite, expand, hsum] at h
  split at h
  · rename_i hmax
    have hexpanded : pack.take (point + src.length) ++
        .replicate (point + src.length - pack.length) 0 =
        pack ++ .replicate (point - pack.length) 0 ++ .replicate src.length 0 := by
      rw [take_of_length_le (by omega), append_assoc, replicate_append_replicate]
      congr 2
      omega
    have hfront : (pack ++ List.replicate (point - pack.length) (0 : UInt8)).length = point := by
      rw [length_append, length_replicate]
      omega
    rw [hexpanded] at h
    have hcopy : memcpy (pack ++ .replicate (point - pack.length) 0 ++ .replicate src.length 0)
        point src = some (pack ++ .replicate (point - pack.length) 0 ++ src) := by
      rw [memcpy, if_pos (by rw [length_append, hfront, length_replicate]),
        take_left' hfront, drop_of_length_le, append_nil]
      rw [length_append, hfront, length_replicate]
    replace h : (do return (point, ← memcpy _ point src)) = some (writePoint, pack') := h
    rw [hcopy] at h
    cases h
    refine ⟨rfl, rfl, ?_⟩
    rw [length_append, hfront]
    exact hmax
  · cases h

theorem addArg_eq {pack pack' : List UInt8} {arg : KernelArg} {writePoint : Nat}
    (hpack : pack.length < 2 ^ 63)
    (h : addArg 64 pack arg.toHal = some (writePoint, pack')) :
    writePoint = roundUp (ceilPow2 arg.size) pack.length ∧
      pack' = pack ++ .replicate (writePoint - pack.length) 0 ++ arg.bytes ∧
      pack'.length < 2 ^ 63 := by
  obtain ⟨hpos, hlt⟩ := arg.size_bounds
  cases arg with
  | value val =>
    have hsize : (UInt64.ofNat val.data.length).toNat = val.data.length :=
      toNat_ofNat_of_lt' (show _ < 2 ^ 64 from lt_trans hlt (by decide))
    have halign := toNat_roundUpPower2 (.ofNat val.data.length) (by rwa [hsize])
      (by rwa [hsize])
    obtain ⟨k, hk⟩ := ceilPow2_eq_pow val.data.length
    have hk61 : k ≤ 61 := by
      have := ceilPow2_le_pow (show val.data.length ≤ 2 ^ 61 from hlt.le)
      rw [hk] at this
      exact (Nat.pow_le_pow_iff_right (by decide)).1 this
    rw [hsize, hk] at halign
    replace h : (if (UInt64.ofNat val.data.length).toNat ≤ val.data.length then
      addBytes pack (roundUpPower2 (.ofNat val.data.length)) (.ofNat val.data.length)
        (val.data.take (UInt64.ofNat val.data.length).toNat) else none) = some (writePoint, pack') := h
    rw [hsize, if_pos le_rfl, take_length] at h
    show writePoint = roundUp (ceilPow2 val.data.length) pack.length ∧ _
    rw [hk]
    exact addBytes_eq hpack halign hk61 hsize hlt h
  | globalBuffer | localBuffer =>
    rw [KernelArg.size, KernelArg.bytes, length_leBytes]
    exact addBytes_eq (k := 3) hpack rfl (by decide) (length_leBytes ..).symm
      (by rw [length_leBytes]; decide) h

/-- The bytes of an argument lie at an offset. -/
def KernelArg.LiesAt (pack : List UInt8) (arg : KernelArg) (offset : Nat) : Prop :=
  (pack.drop offset).take arg.size = arg.bytes

theorem build_eq {args : List KernelArg} {writePoints : List Nat} {pack : List UInt8}
    (h : build 64 (args.map KernelArg.toHal) = some (writePoints, pack)) :
    writePoints = place ceilPow2 0 (args.map KernelArg.size) ∧
      List.Forall₂ (KernelArg.LiesAt pack) args writePoints := by
  have hfold : ∀ (args : List KernelArg) (points : List Nat) (start : List UInt8),
      start.length < 2 ^ 63 →
      (args.map KernelArg.toHal).foldlM (fun built arg => do
        let added ← addArg 64 built.2 arg
        return (built.1 ++ [added.1], added.2)) (points, start) = some (writePoints, pack) →
      ∃ new rest, writePoints = points ++ new ∧ pack = start ++ rest ∧
        new = place ceilPow2 start.length (args.map KernelArg.size) ∧
        List.Forall₂ (KernelArg.LiesAt pack) args new := by
    intro args
    induction args with
    | nil =>
      intro points start _ h
      cases h
      exact ⟨[], [], (append_nil _).symm, (append_nil _).symm, rfl, .nil⟩
    | cons arg args ih =>
      intro points start hstart h
      obtain ⟨⟨points', pack'⟩, hstep, h⟩ := Option.bind_eq_some_iff.1 h
      obtain ⟨⟨writePoint, pack''⟩, hadd, hpair⟩ := Option.bind_eq_some_iff.1 hstep
      cases hpair
      obtain ⟨hpoint, hpack', hlt⟩ := addArg_eq hstart hadd
      obtain ⟨new, rest, hpoints, hpack, hnew, hlies⟩ := ih _ _ hlt h
      have hfront : (start ++ List.replicate (writePoint - start.length) (0 : UInt8)).length =
          writePoint := by
        have := le_roundUp (ceilPow2 arg.size) start.length
        rw [length_append, length_replicate]
        omega
      refine ⟨writePoint :: new, _, by rw [hpoints, append_assoc]; rfl,
        by rw [hpack, hpack', append_assoc, append_assoc], ?_, .cons ?_ hlies⟩
      · rw [map_cons, place, hnew, hpack', length_append, hfront, fieldEnd,
          ← hpoint]
        rfl
      · rw [KernelArg.LiesAt, hpack, hpack', append_assoc, drop_left' hfront]
        exact take_left' rfl
  obtain ⟨new, rest, hpoints, -, hnew, hlies⟩ := hfold args [] [] (by decide) h
  rw [hpoints]
  exact ⟨hnew, hlies⟩

/-! ### Agreement -/

/-- The bytes before an argument, rounded up to 128, are a multiple of its size rounded up to a power
of two, if it has more than 128 bytes. -/
def MeetsAlignment (before : List KernelArg) (arg : KernelArg) : Prop :=
  128 < arg.size →
    ceilPow2 arg.size ∣ roundUp 128 (placeEnd cappedAlign 0 (before.map KernelArg.size))

theorem roundUp_capped_iff (size n : Nat) :
    roundUp (cappedAlign size) n = roundUp (ceilPow2 size) n ↔
      (128 < size → ceilPow2 size ∣ roundUp 128 n) := by
  by_cases hsize : 128 < size
  · have hle := le_ceilPow2 size
    have hcap : cappedAlign size = 128 := Nat.min_eq_left (by omega)
    have hdvd : 128 ∣ ceilPow2 size := pow_dvd_ceilPow2 (k := 7) (by omega)
    rw [hcap, roundUp_eq_roundUp_iff (ceilPow2_pos size) hdvd]
    exact ⟨fun h _ => h, fun h => h hsize⟩
  · have hcap : cappedAlign size = ceilPow2 size :=
      Nat.min_eq_right (ceilPow2_le_pow (k := 7) (by omega))
    rw [hcap]
    exact ⟨fun _ h => absurd h hsize, fun _ => rfl⟩

theorem offsets_agree_iff (pass : AddKernelWrapperPass) (hpass : pass.isPacked = false)
    (schedParamInfo : List Bool) (params : List Param) {writePoints : List Nat} {pack : List UInt8}
    (hbuild : build 64 ((kernelArgs params).map KernelArg.toHal) = some (writePoints, pack)) :
    List.Forall₂ (KernelArg.LiesAt pack) (kernelArgs params) writePoints ∧
      ((pass.createNewFunctionArgTypes sizeTy schedParamInfo
          (params.map Param.toArgument)).offsets = writePoints ↔
        ∀ before arg after, kernelArgs params = before ++ arg :: after →
          MeetsAlignment before arg) := by
  obtain ⟨hpoints, hlies⟩ := build_eq hbuild
  refine ⟨hlies, ?_⟩
  rw [(laid_createNewFunctionArgTypes hpass schedParamInfo params).offsets, hpoints,
    place_eq_place_iff]
  constructor
  · intro h before arg after heq
    have := h (before.map KernelArg.size) arg.size (after.map KernelArg.size)
      (by rw [heq, map_append, map_cons])
    exact (roundUp_capped_iff _ _).1 this
  · intro h before size after heq
    obtain ⟨front, back, hargs, rfl, hback⟩ := map_eq_append_iff.1 heq
    obtain ⟨arg, back, rfl, rfl, rfl⟩ := map_eq_cons_iff.1 hback
    exact (roundUp_capped_iff _ _).2 (h front arg back hargs)

/-- A byte, two buffers and a scheduling parameter. -/
def bufferParams : List Param :=
  [.packed (.value ⟨[7], by decide, by decide⟩ false), .packed (.globalBuffer 4096),
    .packed (.localBuffer 64), .scheduling 0 ⟨64, false⟩]

theorem offsets_agree_buffers :
    (AddKernelWrapperPass.createNewFunctionArgTypes ⟨false, true⟩ sizeTy [true]
      (bufferParams.map Param.toArgument)).offsets = [0, 8, 16] := by
  have hbuild : build 64 ((kernelArgs bufferParams).map KernelArg.toHal) = some ([0, 8, 16],
      [7, 0, 0, 0, 0, 0, 0, 0, 0, 16, 0, 0, 0, 0, 0, 0, 64, 0, 0, 0, 0, 0, 0, 0]) := by
    decide
  refine (offsets_agree_iff ⟨false, true⟩ rfl [true] bufferParams hbuild).2.2 ?_
  intro before arg after heq hsize
  have hmem : arg ∈ kernelArgs bufferParams := by
    rw [heq]
    exact mem_append_right _ mem_cons_self
  simp only [kernelArgs, bufferParams, filterMap_cons, Param.kernelArg, filterMap_nil,
    mem_cons, not_mem_nil, or_false] at hmem
  rcases hmem with rfl | rfl | rfl <;> exact absurd hsize (by decide)

/-- A value of 1 byte and one of 129 bytes. -/
def wideParams : List Param :=
  [.packed (.value ⟨[7], by decide, by decide⟩ false),
    .packed (.value ⟨.replicate 129 0, by simp, by simp⟩ true)]

theorem offsets_differ :
    (AddKernelWrapperPass.createNewFunctionArgTypes ⟨false, true⟩ sizeTy []
        (wideParams.map Param.toArgument)).offsets = [0, 128] ∧
      (build 64 ((kernelArgs wideParams).map KernelArg.toHal)).map Prod.fst = some [0, 256] :=
  ⟨by decide +kernel, by decide +kernel⟩

end ConstructionKit.Args
