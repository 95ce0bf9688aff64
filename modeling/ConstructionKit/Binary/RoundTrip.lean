import ConstructionKit.Binary.Reading

/-! The round trip of a program binary.  An executable program comes back with everything but its
strings, which have grown by a null, so that only a program without strings comes back as it was. -/

namespace ConstructionKit.Binary

open Compiler Metadata ProofKit List

def roundTrip (program : Program) (kernelArgInfo : Bool) : Result (Program × Bool) := do
  deserializeBinary (← serializeBinary program kernelArgInfo none)

/-! ### The limits of the format -/

/-- A length that is stored in 16 bits. -/
def Short {α : Type} (l : List α) : Prop := l.length < 65536

structure Descriptor.Short (call : Descriptor) : Prop where
  formatString : Binary.Short call.formatString
  types : Binary.Short call.types
  strings : Binary.Short call.strings
  text : ∀ str ∈ call.strings, Binary.Short str

structure ArgumentInfo.Short (info : ArgumentInfo) : Prop where
  typeName : Binary.Short info.typeName
  name : Binary.Short info.name

structure KernelInfo.Short (kernel : KernelInfo) (kernelArgInfo : Bool) : Prop where
  name : Binary.Short kernel.name
  arguments : Binary.Short ((kernel.arguments kernelArgInfo).flatMap argumentTrees)
  infos : ∀ arg ∈ kernel.arguments kernelArgInfo, ∀ info ∈ arg.2, info.Short
  full : kernel.InfoFull

structure Program.Short (program : Program) (kernelArgInfo : Bool) : Prop where
  printfCalls : Binary.Short (program.printfCalls.flatMap Descriptor.trees)
  calls : ∀ call ∈ program.printfCalls, call.Short
  kernels : Binary.Short program.kernels
  kernel : ∀ kernel ∈ program.kernels, kernel.Short kernelArgInfo
  total : totalSize (program.blocks kernelArgInfo) < 2 ^ 64

theorem fits_uintTree (value : UInt64) : (uintTree value).Fits := .scalar trivial

variable {text : List UInt8} {call : Descriptor} {kernel : KernelInfo} {kernelArgInfo : Bool}

theorem fits_zstrTree (h : Short text) : (zstrTree text).Fits := by
  refine .scalar ⟨?_, fun hmem => ?_⟩
  · have := (takeWhile_sublist (p := fun b : UInt8 => b ≠ 0) (l := text)).length_le
    have : text.length < 65536 := h
    show (text.takeWhile _).length ≤ 0xffff
    omega
  · have := mem_takeWhile_imp hmem
    simp at this

theorem fits_array {items : List Tree} (h : Short items) (hitems : ∀ t ∈ items, t.Fits) :
    (Tree.array items).Fits :=
  .array (Nat.le_of_lt_succ h) hitems

theorem Descriptor.Short.fits (h : call.Short) : ∀ t ∈ call.trees, t.Fits := by
  simp only [trees, forall_mem_cons, not_mem_nil, false_implies, implies_true, and_true]
  refine ⟨fits_zstrTree h.formatString, fits_array ?_ ?_, fits_array ?_ ?_⟩
  · rw [Binary.Short, length_map]
    exact h.types
  · exact forall_mem_map.2 fun type _ => fits_uintTree _
  · rw [Binary.Short, length_map]
    exact h.strings
  · exact forall_mem_map.2 fun str hmem => fits_zstrTree (h.text str hmem)

theorem fits_argumentTrees {arg : ArgumentType × Option ArgumentInfo}
    (h : ∀ info ∈ arg.2, info.Short) : ∀ t ∈ argumentTrees arg, t.Fits := by
  obtain ⟨arg, _ | info⟩ := arg
  · simp [argumentTrees, fits_uintTree]
  · have hinfo := h info rfl
    simp [argumentTrees, ArgumentInfo.trees, fits_uintTree, fits_zstrTree hinfo.typeName,
      fits_zstrTree hinfo.name]

theorem KernelInfo.Short.fits
    (h : kernel.Short kernelArgInfo) : (kernel.tree kernelArgInfo).Fits := by
  have hargs : (Tree.array ((kernel.arguments kernelArgInfo).flatMap argumentTrees)).Fits := by
    refine fits_array h.arguments fun t ht => ?_
    obtain ⟨arg, hmem, ht⟩ := mem_flatMap.1 ht
    exact fits_argumentTrees (h.infos arg hmem) t ht
  have hsizes : (Tree.array [uintTree kernel.getReqdWGSizeOrZero.1,
      uintTree kernel.getReqdWGSizeOrZero.2.1, uintTree kernel.getReqdWGSizeOrZero.2.2]).Fits :=
    fits_array (show 3 < 65536 by decide) (by simp [fits_uintTree])
  refine fits_array (show 6 < 65536 by decide) ?_
  simp [fits_uintTree, hargs, hsizes, fits_zstrTree h.name]

/-! ### Blocks -/

theorem getValue_zero {stack : Stack} {t : Tree} (h : stack.Open .msgpack [t]) :
    ∃ val, getValue stack 0 = some val ∧ Denotes stack.heap val t := by
  have htop := h.top_eq (cons_ne_nil _ _)
  obtain ⟨_, _, tidy, hdenotes⟩ := h
  generalize helems : stack.elems = elems at hdenotes
  obtain _ | ⟨ht, ⟨⟩⟩ := hdenotes
  refine ⟨_, ?_, ht⟩
  rw [getValue, htop]
  show (if 0 > 0 then none else stack.elems[0]?) = _
  rw [helems]
  rfl

theorem prefixSize_blocks (program : Program) (kernelArgInfo : Bool) :
    prefixSize (program.blocks kernelArgInfo) = 192 := by
  show headerSize + (padToAlignment ([executableBlock, isExecutableBlock, printfInfoBlock,
    programInfoBlock].flatMap (· ++ [0]))).length + blockInfoSize * 4 = 192
  decide +kernel

/-- The context that a program is read from: its blocks stand in the reverse order. -/
structure Decoded (program : Program) (kernelArgInfo : Bool) (ctx : Context) : Prop where
  executable : ctx.getBlock executableBlock =
    .ok ⟨[.scalar (.bytes program.executable)], [0], false, .rawBytes⟩
  isExecutable : ∃ stack, ctx.getBlock isExecutableBlock = .ok stack ∧
    stack.Open .msgpack [uintTree 1]
  printfInfo : ∃ stack, ctx.getBlock printfInfoBlock = .ok stack ∧
    stack.Open .msgpack [.array (program.printfCalls.flatMap Descriptor.trees)]
  programInfo : ∃ stack, ctx.getBlock programInfoBlock = .ok stack ∧
    stack.Open .msgpack [.array (program.kernels.map (·.tree kernelArgInfo))]

section

variable {program : Program} (h : program.Short kernelArgInfo)
include h

theorem Program.Short.fits_printfInfo :
    ∀ t ∈ [Tree.array (program.printfCalls.flatMap Descriptor.trees)], t.Fits := by
  refine forall_mem_singleton.2 (fits_array h.printfCalls fun t ht => ?_)
  obtain ⟨call, hmem, ht⟩ := mem_flatMap.1 ht
  exact (h.calls call hmem).fits t ht

theorem Program.Short.fits_programInfo :
    ∀ t ∈ [Tree.array (program.kernels.map (·.tree kernelArgInfo))], t.Fits := by
  refine forall_mem_singleton.2 (fits_array ?_ ?_)
  · rw [Binary.Short, length_map]
    exact h.kernels
  · exact forall_mem_map.2 fun kernel hmem => (h.kernel kernel hmem).fits

theorem decodeBinary_eq :
    ∃ ctx, Context.decodeBinary (layout .little (program.blocks kernelArgInfo)) = .ok ctx ∧
      Decoded program kernelArgInfo ctx := by
  have huint : ∀ t ∈ [uintTree 1], t.Fits := forall_mem_singleton.2 (fits_uintTree 1)
  have hreads : ∀ b ∈ program.blocks kernelArgInfo, b.Readable := by
    simp only [Program.blocks, forall_mem_cons, not_mem_nil, false_implies, implies_true,
      and_true]
    exact ⟨Block.readable_raw rfl, Block.readable_msgPack huint rfl rfl,
      Block.readable_msgPack h.fits_printfInfo rfl rfl,
      Block.readable_msgPack h.fits_programInfo rfl rfl⟩
  have hnames : (program.blocks kernelArgInfo).map Block.name =
    [executableBlock, isExecutableBlock, printfInfoBlock, programInfoBlock] := rfl
  have hnul : ∀ b ∈ program.blocks kernelArgInfo, 0 ∉ b.name := by
    intro b hb
    have : ∀ name ∈ (program.blocks kernelArgInfo).map Block.name, 0 ∉ name := by
      rw [hnames]
      decide
    exact this b.name (mem_map_of_mem hb)
  have hne : program.blocks kernelArgInfo ≠ [] := cons_ne_nil _ _
  have hfront := prefixSize_blocks program kernelArgInfo
  rw [prefixSize] at hfront
  have hnodup : ((program.blocks kernelArgInfo).map Block.name).Nodup := by
    exact nodup_blockNames
  obtain ⟨items, hdecode, hitems⟩ :=
    decodeBinary_layout .little hne (by omega) h.total hnul hnodup hreads
  refine ⟨_, hdecode, ?_⟩
  obtain ⟨⟨_, stack₄⟩, _, ⟨rfl, hread₄⟩, hitems₃, rfl⟩ := forall₂_cons_left_iff.1 hitems
  obtain ⟨⟨_, stack₃⟩, _, ⟨rfl, hread₃⟩, hitems₂, rfl⟩ := forall₂_cons_left_iff.1 hitems₃
  obtain ⟨⟨_, stack₂⟩, _, ⟨rfl, hread₂⟩, hitems₁, rfl⟩ := forall₂_cons_left_iff.1 hitems₂
  obtain ⟨⟨_, stack₁⟩, _, ⟨rfl, hread₁⟩, hitems₀, rfl⟩ := forall₂_cons_left_iff.1 hitems₁
  obtain rfl := hread₁.raw rfl
  exact ⟨rfl, ⟨stack₂, rfl, hread₂.msgPack huint rfl rfl⟩,
    ⟨stack₃, rfl, hread₃.msgPack h.fits_printfInfo rfl rfl⟩,
    ⟨stack₄, rfl, hread₄.msgPack h.fits_programInfo rfl rfl⟩⟩

end

/-! ### Programs -/

section

variable {program : Program} {ctx : Context}

section

variable (h : Decoded program kernelArgInfo ctx)
include h

theorem Decoded.deserializeExecutable :
    deserializeExecutable ctx = .ok program.executable := by
  rw [Binary.deserializeExecutable, Binary.getBlock, h.executable]
  rfl

theorem Decoded.deserializeIsExecutable :
    deserializeIsExecutable ctx = .ok true := by
  obtain ⟨stack, hblock, hopen⟩ := h.isExecutable
  obtain ⟨val, hval, ⟨hcell⟩⟩ := getValue_zero hopen
  have hload : loadf stack ['u'] = .ok [.uint 1] := by
    simp [loadf, loadChar, LoadState.getValue, hval, getUint, getScalar, hcell, LoadState.store,
      bind, Except.bind, pure, Except.pure, hopen.top_eq]
  simp only [Binary.deserializeIsExecutable, Binary.getBlock, hblock, hload, bind, Except.bind]
  rfl

theorem Decoded.deserializePrintfCalls :
    deserializePrintfCalls ctx = .ok (program.printfCalls.map Descriptor.decoded) := by
  obtain ⟨stack, hblock, hopen⟩ := h.printfInfo
  obtain ⟨arr, harr, hdenotes⟩ := getValue_zero hopen
  have hfuel : program.printfCalls.length ≤ (program.printfCalls.flatMap Descriptor.trees).length :=
    length_le_flatMap fun _ _ => cons_ne_nil _ _
  rw [Binary.deserializePrintfCalls, Binary.getBlock, hblock]
  dsimp only [bind, Except.bind]
  rw [harr]
  show (do
    let size ← getArraySize stack.heap arr
    printfLoop stack.heap arr size (size + 1) 0) = _
  rw [getArraySize_eq hdenotes]
  exact printfLoop_eq hdenotes rfl (Nat.lt_succ_of_le hfuel)

theorem Decoded.deserializeProgramInfo (hshort : program.Short kernelArgInfo) :
    deserializeProgramInfo ctx = .ok (program.kernels.map (·.decoded kernelArgInfo)) := by
  obtain ⟨stack, hblock, hopen⟩ := h.programInfo
  obtain ⟨arr, harr, hdenotes⟩ := getValue_zero hopen
  rw [Binary.deserializeProgramInfo, Binary.getBlock, hblock]
  dsimp only [bind, Except.bind]
  rw [harr]
  refine readArray_eq hdenotes fun j kernel hj => ?_
  have hkernel := hshort.kernel kernel (mem_of_getElem? hj)
  have hcount : kernel.argumentTypes.length < 2 ^ 64 := by
    have hargs : (kernel.arguments kernelArgInfo).length ≤
        ((kernel.arguments kernelArgInfo).flatMap argumentTrees).length :=
      length_le_flatMap fun _ _ => cons_ne_nil _ _
    have hshort : ((kernel.arguments kernelArgInfo).flatMap argumentTrees).length < 65536 :=
      hkernel.arguments
    have hfst : (kernel.arguments kernelArgInfo).map Prod.fst = kernel.argumentTypes :=
      map_fst_arguments hkernel.full
    rw [← hfst, length_map]
    omega
  obtain ⟨val, hval, hdenotes⟩ := getArrayIdx_eq hdenotes j (by rw [getElem?_map, hj]; rfl)
  rw [hval]
  exact deserializeKernel_eq hkernel.full hcount hdenotes

end

/-- Within the limits of the format a program comes back with a null at the end of every string. -/
theorem roundTrip_eq (h : program.Short kernelArgInfo) :
    roundTrip program kernelArgInfo = .ok (program.decoded kernelArgInfo, true) := by
  obtain ⟨ctx, hctx, hdecoded⟩ := decodeBinary_eq h
  rw [roundTrip, serializeBinary_eq fun kernel hmem => (h.kernel kernel hmem).full]
  dsimp only [bind, Except.bind]
  rw [deserializeBinary, hctx]
  show (do
    let executable ← Binary.deserializeExecutable ctx
    let isExecutable ← Binary.deserializeIsExecutable ctx
    if isExecutable then
      let printfCalls ← Binary.deserializePrintfCalls ctx
      let kernels ← Binary.deserializeProgramInfo ctx
      return (Program.mk executable printfCalls kernels, true)
    else return (Program.mk executable [] [], false)) = _
  rw [hdecoded.deserializeExecutable, hdecoded.deserializeIsExecutable,
    hdecoded.deserializePrintfCalls, hdecoded.deserializeProgramInfo h]
  rfl

end

/-! ### The null at the end of a string

Whatever is read, the buffer of a string holds its null. -/

theorem zero_mem_strncpy (text : List UInt8) : 0 ∈ strncpy text (text.length + 1) := by
  have hle : (cString text).length ≤ text.length :=
    (takeWhile_sublist (fun b : UInt8 => decide (b ≠ 0))).length_le
  refine mem_append_right _ (mem_replicate.2 ⟨?_, rfl⟩)
  rw [length_take]
  omega

section

variable {heap : List Cell} {val : Nat}

theorem zero_mem_getZstr (h : getZstr heap val = .ok text) : 0 ∈ text := by
  rw [getZstr, getScalar] at h
  split at h
  · rename_i value _
    cases value with
    | zstr stored =>
      obtain rfl : strncpy stored (stored.length + 1) = text := Except.ok.inj h
      exact zero_mem_strncpy stored
    | _ => cases h
  · cases h
  · cases h

theorem zero_mem_arrayZstr {arr idx : Nat} (h : arrayZstr heap arr idx = .ok text) : 0 ∈ text := by
  obtain ⟨val, _, h⟩ := bind_eq_ok h
  exact zero_mem_getZstr h

theorem zero_mem_formatString {arr idx : Nat}
    (h : deserializePrintfCall heap arr idx = .ok call) : 0 ∈ call.formatString := by
  obtain ⟨formatString, hformat, h⟩ := bind_eq_ok h
  iterate 4 obtain ⟨_, _, h⟩ := bind_eq_ok h
  cases h
  exact zero_mem_arrayZstr hformat

theorem zero_mem_of_printfLoop {arr size fuel idx : Nat} {calls : List Descriptor}
    (h : printfLoop heap arr size fuel idx = .ok calls) :
    ∀ call ∈ calls, 0 ∈ call.formatString := by
  induction fuel generalizing idx calls with
  | zero => cases h
  | succ fuel ih =>
    rw [printfLoop] at h
    split at h
    · obtain ⟨call, hcall, h⟩ := bind_eq_ok h
      obtain ⟨calls', hcalls, h⟩ := bind_eq_ok h
      cases h
      exact forall_mem_cons.2 ⟨zero_mem_formatString hcall, ih hcalls⟩
    · cases h
      exact fun _ hmem => absurd hmem not_mem_nil

theorem zero_mem_name (h : deserializeKernel heap val = .ok kernel) : 0 ∈ kernel.name := by
  iterate 10 obtain ⟨_, _, h⟩ := bind_eq_ok h
  obtain ⟨_, hname, h⟩ := bind_eq_ok h
  cases h
  exact zero_mem_arrayZstr hname

end

theorem zero_mem_of_deserializePrintfCalls {ctx : Context} {calls : List Descriptor}
    (h : deserializePrintfCalls ctx = .ok calls) : ∀ call ∈ calls, 0 ∈ call.formatString := by
  obtain ⟨stack, _, h⟩ := bind_eq_ok h
  split at h
  · cases h
  · obtain ⟨size, _, h⟩ := bind_eq_ok h
    exact zero_mem_of_printfLoop h

theorem zero_mem_of_deserializeProgramInfo {ctx : Context} {kernels : List KernelInfo}
    (h : deserializeProgramInfo ctx = .ok kernels) : ∀ kernel ∈ kernels, 0 ∈ kernel.name := by
  obtain ⟨stack, _, h⟩ := bind_eq_ok h
  split at h
  · cases h
  · obtain ⟨size, _, h⟩ := bind_eq_ok h
    intro kernel hmem
    obtain ⟨idx, _, hidx⟩ := exists_of_mem_mapM h hmem
    obtain ⟨val, _, hval⟩ := bind_eq_ok hidx
    exact zero_mem_name hval

variable {program : Program}

theorem zero_mem_of_deserializeBinary {binary : List UInt8}
    (h : deserializeBinary binary = .ok (program, true)) :
    (∀ call ∈ program.printfCalls, 0 ∈ call.formatString) ∧
      ∀ kernel ∈ program.kernels, 0 ∈ kernel.name := by
  obtain ⟨ctx, _, h⟩ := bind_eq_ok h
  obtain ⟨executable, _, h⟩ := bind_eq_ok h
  obtain ⟨isExecutable, _, h⟩ := bind_eq_ok h
  split at h
  · obtain ⟨calls, hcalls, h⟩ := bind_eq_ok h
    obtain ⟨kernels, hkernels, h⟩ := bind_eq_ok h
    cases Except.ok.inj h
    exact ⟨zero_mem_of_deserializePrintfCalls hcalls, zero_mem_of_deserializeProgramInfo hkernels⟩
  · cases Except.ok.inj h

/-! ### Programs that come back unchanged -/

theorem short_of_empty (hkernels : program.kernels = [])
    (hcalls : program.printfCalls = []) (hsize : program.executable.length < 2 ^ 63)
    (kernelArgInfo : Bool) : program.Short kernelArgInfo := by
  obtain ⟨executable, calls, kernels⟩ := program
  obtain rfl : kernels = [] := hkernels
  obtain rfl : calls = [] := hcalls
  refine ⟨show 0 < 65536 by decide, by simp, show 0 < 65536 by decide, by simp, ?_⟩
  have hbody : body (Program.blocks ⟨executable, [], []⟩ kernelArgInfo) =
      body [msgPackBlock isExecutableBlock [uintTree 1], msgPackBlock printfInfoBlock [.array []],
        msgPackBlock programInfoBlock [.array []]] ++ body [rawBlock executable] :=
    body_append [rawBlock executable] [_, _, _]
  have hraw : body [rawBlock executable] = padToAlignment executable := by
    simp [body, rawBlock]
  have hrest : (body [msgPackBlock isExecutableBlock [uintTree 1],
      msgPackBlock printfInfoBlock [.array []],
      msgPackBlock programInfoBlock [.array []]]).length = 32 := by
    decide +kernel
  have hpad : (padToAlignment executable).length < executable.length + 8 := by
    rw [padToAlignment, length_append, length_replicate]
    omega
  rw [totalSize, prefixSize_blocks, hbody, length_append, hraw]
  replace hsize : executable.length < 2 ^ 63 := hsize
  omega

theorem decoded_of_empty (hkernels : program.kernels = [])
    (hcalls : program.printfCalls = []) (kernelArgInfo : Bool) :
    program.decoded kernelArgInfo = program := by
  obtain ⟨executable, calls, kernels⟩ := program
  cases hkernels
  cases hcalls
  rfl

theorem roundTrip_eq_self_iff (program : Program) (kernelArgInfo : Bool)
    (hnames : ∀ kernel ∈ program.kernels, 0 ∉ kernel.name)
    (hformats : ∀ call ∈ program.printfCalls, 0 ∉ call.formatString)
    (hsize : program.executable.length < 2 ^ 63) :
    roundTrip program kernelArgInfo = .ok (program, true) ↔
      program.kernels = [] ∧ program.printfCalls = [] := by
  constructor
  · intro h
    obtain ⟨binary, _, hbinary⟩ := bind_eq_ok h
    obtain ⟨hcalls, hkernels⟩ := zero_mem_of_deserializeBinary hbinary
    constructor
    · exact eq_nil_iff_forall_not_mem.2 fun kernel hmem =>
        hnames kernel hmem (hkernels kernel hmem)
    · exact eq_nil_iff_forall_not_mem.2 fun call hmem =>
        hformats call hmem (hcalls call hmem)
  · rintro ⟨hkernels, hcalls⟩
    rw [roundTrip_eq (short_of_empty hkernels hcalls hsize kernelArgInfo),
      decoded_of_empty hkernels hcalls]

theorem roundTrip_eq_self_executable :
    roundTrip ⟨[1, 2, 3], [], []⟩ true = .ok (⟨[1, 2, 3], [], []⟩, true) :=
  (roundTrip_eq_self_iff ⟨[1, 2, 3], [], []⟩ true (by simp) (by simp) (by decide)).2 ⟨rfl, rfl⟩

/-- A kernel without arguments. -/
def oneKernel : Program := ⟨[1, 2, 3], [], [⟨bytesOf "k", [], none, none, none⟩]⟩

theorem short_oneKernel : oneKernel.Short true := by
  refine ⟨show 0 < 65536 by decide, by simp [oneKernel], show 1 < 65536 by decide, ?_, ?_⟩
  · refine forall_mem_singleton.2 ⟨show 1 < 65536 by decide, show 0 < 65536 by decide, ?_, ?_⟩
    · simp [KernelInfo.arguments, KernelInfo.storedInfo]
    · simp [KernelInfo.InfoFull]
  · decide +kernel

theorem roundTrip_oneKernel :
    roundTrip oneKernel true =
        .ok (⟨[1, 2, 3], [], [⟨bytesOf "k" ++ [0], [], none, none, none⟩]⟩, true) ∧
      roundTrip oneKernel true ≠ .ok (oneKernel, true) := by
  rw [roundTrip_eq short_oneKernel]
  exact ⟨by decide, by decide⟩

end ConstructionKit.Binary
