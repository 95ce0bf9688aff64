import ConstructionKit.Binary.Program
import ConstructionKit.Metadata.Layout

/-! What is written for a program: the trees of its blocks and the layout of the binary. -/

namespace ConstructionKit.Binary

open Compiler Metadata List

/-! ### The trees of a program -/

def uintTree (value : UInt64) : Tree := .scalar (.uint value)

def zstrTree (text : List UInt8) : Tree := .scalar (.zstr (cString text))

def Descriptor.trees (call : Descriptor) : List Tree :=
  [zstrTree call.formatString, .array (call.types.map fun type => uintTree type.toInt64.toUInt64),
    .array (call.strings.map zstrTree)]

def ArgumentInfo.trees (info : ArgumentInfo) : List Tree :=
  [uintTree info.addressQual.toUInt64, uintTree info.accessQual.toInt64.toUInt64,
    uintTree info.typeQual.toUInt64, zstrTree info.typeName, zstrTree info.name]

/-- An argument with its information, if that is stored. -/
def argumentTrees (arg : ArgumentType × Option ArgumentInfo) : List Tree :=
  [uintTree arg.1.kind.value.toUInt64, uintTree arg.1.addressSpace.toUInt64] ++
    arg.2.elim [] ArgumentInfo.trees

namespace KernelInfo

/-- The argument information that is stored. -/
def storedInfo (kernel : KernelInfo) (hasKernelArgInfo : Bool) : Option (List ArgumentInfo) :=
  if hasKernelArgInfo then kernel.argumentInfo else none

/-- The arguments with what is stored of their information. -/
def arguments (kernel : KernelInfo) (hasKernelArgInfo : Bool) :
    List (ArgumentType × Option ArgumentInfo) :=
  match kernel.storedInfo hasKernelArgInfo with
  | none => kernel.argumentTypes.map (·, none)
  | some infos => kernel.argumentTypes.zip (infos.map some)

def tree (kernel : KernelInfo) (hasKernelArgInfo : Bool) : Tree := .array [
  uintTree (.ofNat kernel.argumentTypes.length),
  uintTree (if (kernel.storedInfo hasKernelArgInfo).isSome then 1 else 0),
  .array ((kernel.arguments hasKernelArgInfo).flatMap argumentTrees),
  .array [uintTree kernel.getReqdWGSizeOrZero.1, uintTree kernel.getReqdWGSizeOrZero.2.1,
    uintTree kernel.getReqdWGSizeOrZero.2.2],
  uintTree (kernel.reqdSubGroupSize.getD 0),
  zstrTree kernel.name]

end KernelInfo

/-! ### Appending -/

/-- A step appends trees to the array on top of the stack. -/
def Appends (step : Nat → Stack → Result Stack) (items : List Tree) : Prop :=
  ∀ (stack : Stack) (ts old : List Tree), stack.Open .msgpack (ts ++ [.array old]) →
    ∃ stack', step ts.length stack = .ok stack' ∧
      stack'.Open .msgpack (ts ++ [.array (old ++ items)])

theorem Appends.nil : Appends (fun _ stack => .ok stack) [] := fun stack _ old h =>
  ⟨stack, rfl, by rwa [append_nil]⟩

variable {items : List Tree} {fill : Nat → Stack → Result Stack}

theorem Appends.bind {step step' : Nat → Stack → Result Stack} {items' : List Tree}
    (h : Appends step items) (h' : Appends step' items') :
    Appends (fun arr stack => step arr stack >>= step' arr) (items ++ items') := by
  intro stack ts old hopen
  obtain ⟨stack₁, hstep, hopen⟩ := h _ _ _ hopen
  obtain ⟨stack₂, hstep', hopen⟩ := h' _ _ _ hopen
  refine ⟨stack₂, ?_, by rwa [← append_assoc]⟩
  show step ts.length stack >>= step' ts.length = _
  rw [hstep]
  exact hstep'

theorem Appends.foldlM {α : Type} {step : Nat → Stack → α → Result Stack} {items : α → List Tree}
    {xs : List α} (h : ∀ x ∈ xs, Appends (fun arr stack => step arr stack x) (items x)) :
    Appends (fun arr stack => xs.foldlM (step arr) stack) (xs.flatMap items) := by
  induction xs with
  | nil => exact Appends.nil
  | cons x xs ih =>
    obtain ⟨hx, hxs⟩ := forall_mem_cons.1 h
    exact hx.bind (ih hxs)

theorem Appends.pushed {push : Stack → Except Err Nat × Stack} {t : Tree}
    (h : ∀ {stack : Stack} {ts : List Tree}, stack.Open .msgpack ts →
      ∃ stack', push stack = (.ok ts.length, stack') ∧ stack'.Open .msgpack (ts ++ [t])) :
    Appends (fun arr stack => appendPushed arr (push stack)) [t] := by
  intro stack ts old hopen
  obtain ⟨stack₁, hpush, hopen⟩ := h hopen
  rw [append_assoc] at hopen
  obtain ⟨stack₂, happend, hopen⟩ := hopen.append_pop
  refine ⟨_, ?_, hopen⟩
  show appendPushed ts.length (push stack) = _
  rw [hpush, length_append]
  show (do
    let appended ← check (stack₁.arrAppend ts.length (ts.length + 1))
    return appended.2.pop.2) = _
  rw [happend]
  rfl

theorem Appends.uint (value : UInt64) :
    Appends (fun arr stack => appendUint stack arr value) [uintTree value] :=
  .pushed fun h => h.push_scalar (.uint value)

theorem Appends.zstr (text : List UInt8) :
    Appends (fun arr stack => appendZstr stack arr text) [zstrTree text] :=
  .pushed fun h => h.push_scalar (.zstr (cString text))

theorem Appends.array (h : Appends fill items) :
    Appends (fun arr stack => appendArray stack arr fill) [.array items] := by
  intro stack ts old hopen
  obtain ⟨stack₁, hpush, hopen⟩ := hopen.push_arr
  obtain ⟨stack₂, hfill, hopen⟩ := h _ _ _ hopen
  rw [append_assoc] at hopen
  obtain ⟨stack₃, happend, hopen⟩ := hopen.append_pop
  refine ⟨_, ?_, hopen⟩
  show appendArray stack ts.length fill = _
  rw [appendArray, hpush]
  show (do
    let stack ← fill (ts ++ [Tree.array old]).length stack₁
    let appended ← check (stack.arrAppend ts.length (ts ++ [Tree.array old]).length)
    return appended.2.pop.2) = _
  rw [hfill, length_append]
  show (do
    let appended ← check (stack₂.arrAppend ts.length (ts.length + 1))
    return appended.2.pop.2) = _
  rw [happend]
  rfl

theorem appends_serializePrintfCall (call : Descriptor) :
    Appends (fun arr stack => serializePrintfCall arr stack call) call.trees := by
  have htypes : Appends (fun idx stack => call.types.foldlM
      (fun stack type => appendUint stack idx type.toInt64.toUInt64) stack)
      (call.types.map fun type => uintTree type.toInt64.toUInt64) := by
    rw [map_eq_flatMap]
    exact .foldlM fun type _ => .uint _
  have hstrings : Appends (fun idx stack => call.strings.foldlM
      (fun stack str => appendZstr stack idx str) stack) (call.strings.map zstrTree) := by
    rw [map_eq_flatMap]
    exact .foldlM fun str _ => .zstr _
  exact (Appends.zstr call.formatString).bind (htypes.array.bind hstrings.array)

theorem appends_info (info : ArgumentInfo) :
    Appends (fun arr stack => do
      let stack ← appendUint stack arr info.addressQual.toUInt64
      let stack ← appendUint stack arr info.accessQual.toInt64.toUInt64
      let stack ← appendUint stack arr info.typeQual.toUInt64
      let stack ← appendZstr stack arr info.typeName
      appendZstr stack arr info.name) info.trees :=
  (Appends.uint _).bind ((Appends.uint _).bind ((Appends.uint _).bind
    ((Appends.zstr _).bind (.zstr _))))

section

variable {kernel : KernelInfo}

theorem appends_serializeArgument_false (arg : ArgumentType × Nat) :
    Appends (fun arr stack => serializeArgument kernel false arr stack arg)
      (argumentTrees (arg.1, none)) := by
  exact (Appends.uint _).bind ((Appends.uint _).bind .nil)

theorem appends_serializeArgument_true {arg : ArgumentType × Nat} {info : ArgumentInfo}
    (hinfo : kernel.argumentInfo.bind (·[arg.2]?) = some info) :
    Appends (fun arr stack => serializeArgument kernel true arr stack arg)
      (argumentTrees (arg.1, some info)) := by
  simp only [serializeArgument, hinfo]
  exact (Appends.uint _).bind ((Appends.uint _).bind (appends_info info))

/-- Information that is given covers every argument. -/
def KernelInfo.InfoFull (kernel : KernelInfo) : Prop :=
  ∀ infos, kernel.argumentInfo = some infos → infos.length = kernel.argumentTypes.length

theorem zip_some_eq {types : List ArgumentType} {infos : List ArgumentInfo}
    (h : infos.length = types.length) :
    types.zip (infos.map some) = types.zipIdx.map fun arg => (arg.1, infos[arg.2]?) := by
  refine ext_getElem (by simp [h]) fun i hi _ => ?_
  simp only [length_zip] at hi
  simp [show i < infos.length by omega]

theorem appends_arguments (hinfo : kernel.InfoFull) (hasKernelArgInfo : Bool) :
    Appends (fun args stack => kernel.argumentTypes.zipIdx.foldlM
      (serializeArgument kernel (hasKernelArgInfo && kernel.argumentInfo.isSome) args) stack)
      ((kernel.arguments hasKernelArgInfo).flatMap argumentTrees) := by
  rcases hstored : kernel.storedInfo hasKernelArgInfo with _ | infos
  · have hstore : (hasKernelArgInfo && kernel.argumentInfo.isSome) = false := by
      cases hasKernelArgInfo <;> simp_all [KernelInfo.storedInfo]
    have hflat : (kernel.arguments hasKernelArgInfo).flatMap argumentTrees =
        kernel.argumentTypes.zipIdx.flatMap fun arg => argumentTrees (arg.1, none) := by
      rw [KernelInfo.arguments, hstored]
      nth_rewrite 1 [← zipIdx_map_fst 0 kernel.argumentTypes]
      rw [map_map, flatMap_map]
      rfl
    rw [hstore, hflat]
    exact .foldlM fun arg _ => appends_serializeArgument_false arg
  · obtain ⟨rfl, harg⟩ : hasKernelArgInfo = true ∧ kernel.argumentInfo = some infos := by
      cases hasKernelArgInfo <;> simp_all [KernelInfo.storedInfo]
    have hlength := hinfo infos harg
    have hflat : (kernel.arguments true).flatMap argumentTrees =
        kernel.argumentTypes.zipIdx.flatMap fun arg => argumentTrees (arg.1, infos[arg.2]?) := by
      rw [KernelInfo.arguments, hstored]
      dsimp only
      rw [zip_some_eq hlength, flatMap_map]
    rw [hflat, show (true && kernel.argumentInfo.isSome) = true by rw [harg]; rfl]
    refine .foldlM fun arg hmem => ?_
    have hlt : arg.2 < infos.length := by
      rw [hlength]
      exact (mem_zipIdx' hmem).1
    have hget : infos[arg.2]? = some infos[arg.2] := getElem?_eq_getElem hlt
    rw [hget]
    exact appends_serializeArgument_true (by rw [harg]; exact hget)

theorem appends_serializeKernel (hinfo : kernel.InfoFull) (hasKernelArgInfo : Bool) :
    Appends (fun arr stack => serializeKernel hasKernelArgInfo arr stack kernel)
      [kernel.tree hasKernelArgInfo] := by
  have hstore : (kernel.storedInfo hasKernelArgInfo).isSome =
      (hasKernelArgInfo && kernel.argumentInfo.isSome) := by
    cases hasKernelArgInfo <;> rfl
  have hsizes := (Appends.uint kernel.getReqdWGSizeOrZero.1).bind
    ((Appends.uint kernel.getReqdWGSizeOrZero.2.1).bind (.uint kernel.getReqdWGSizeOrZero.2.2))
  rw [KernelInfo.tree, hstore]
  exact .array ((Appends.uint _).bind ((Appends.uint _).bind
    ((appends_arguments hinfo hasKernelArgInfo).array.bind (hsizes.array.bind
      ((Appends.uint _).bind (.zstr _))))))

end

/-! ### Blocks -/

theorem nodup_blockNames :
    [executableBlock, isExecutableBlock, printfInfoBlock, programInfoBlock].Nodup := by
  decide

/-- A block whose stack holds trees in MessagePack. -/
def msgPackBlock (name : List UInt8) (ts : List Tree) : Block := ⟨name, msgPackItems ts, .msgpack⟩

variable {stack : Stack} {ctx : Context} {ts : List Tree}

theorem writes_msgPackBlock (hopen : stack.Open .msgpack ts)
    (name : List UInt8) : Writes .little (name, stack) (msgPackBlock name ts) := by
  refine ⟨rfl, hopen.outFmt, ?_⟩
  rw [Context.finalizeStack, hopen.outFmt]
  exact serializeMsgPack_eq hopen.tidy.ordered hopen.denotes

theorem writes_finalized (hopen : stack.Open .msgpack ts) (name : List UInt8) :
    Writes .little (name, { stack with finalized := true }) (msgPackBlock name ts) := by
  obtain ⟨-, hfmt, hbytes⟩ := writes_msgPackBlock hopen name
  exact ⟨rfl, hfmt, hbytes⟩

theorem finalizeBlock_eq (h : stack.finalized = false) :
    finalizeBlock stack = .ok { stack with finalized := true } := by
  rw [finalizeBlock, Stack.freezeStack, h]
  rfl

/-- A context whose stacks are written as blocks. -/
structure Holds (ctx : Context) (blocks : List Block) : Prop where
  endianness : ctx.endianness = .little
  writes : List.Forall₂ (Writes .little) ctx.stackMap blocks

theorem Holds.names {blocks : List Block} (h : Holds ctx blocks) :
    ctx.stackMap.map Prod.fst = blocks.map Block.name := by
  have := forall₂_map_left_iff.2 (forall₂_map_right_iff.2 (h.writes.imp fun _ _ h => h.1))
  rwa [forall₂_eq_eq_eq] at this

theorem Holds.createBlock {blocks : List Block} (h : Holds ctx blocks) {b : Block}
    (hfresh : b.name ∉ blocks.map Block.name) {fill : Stack → Result Stack} (stack : Stack)
    (hfill : fill (.empty .rawBytes) = .ok stack) (hwrites : Writes .little (b.name, stack) b) :
    ∃ ctx', ctx.createBlock b.name fill = .ok ctx' ∧ Holds ctx' (blocks ++ [b]) := by
  rw [← h.names] at hfresh
  refine ⟨{ ctx with stackMap := ctx.stackMap ++ [(b.name, stack)] }, ?_, h.endianness,
    rel_append h.writes (.cons hwrites .nil)⟩
  rw [Context.createBlock, Context.insert, Context.find_eq_none hfresh]
  rw [hfill]
  rfl

theorem open_setOutFmt {fmt : Fmt} (h : stack.Open fmt ts)
    (fmt' : Fmt) : (stack.setOutFmt fmt').Open fmt' ts :=
  ⟨h.opened, rfl, h.tidy, h.denotes⟩

theorem Holds.createArrayBlock {blocks : List Block} (h : Holds ctx blocks)
    {name : List UInt8} (hfresh : name ∉ blocks.map Block.name)
    (hfill : Appends fill items) :
    ∃ ctx', (ctx.createBlock name fun stack => do
        let stack := stack.setOutFmt .msgpack
        let (arr, stack) ← check stack.pushArr
        let stack ← fill arr stack
        finalizeBlock stack) = .ok ctx' ∧
      Holds ctx' (blocks ++ [msgPackBlock name [.array items]]) := by
  obtain ⟨stack₁, hpush, hopen⟩ := (open_setOutFmt (Stack.open_empty .rawBytes) .msgpack).push_arr
  obtain ⟨stack₂, hfilled, hopen⟩ := hfill _ _ _ hopen
  refine h.createBlock (b := msgPackBlock name [.array items]) hfresh
    { stack₂ with finalized := true } ?_ (writes_finalized hopen name)
  dsimp only
  rw [hpush]
  show (do
    let stack ← fill 0 stack₁
    finalizeBlock stack) = _
  rw [show fill 0 stack₁ = _ from hfilled]
  exact finalizeBlock_eq hopen.opened

/-- The block of an executable. -/
def rawBlock (data : List UInt8) : Block := ⟨executableBlock, data, .rawBytes⟩

theorem Holds.serializeExecutable (muxBinary : List UInt8) :
    ∃ ctx, serializeExecutable .init muxBinary none = .ok ctx ∧
      Holds ctx [rawBlock muxBinary] := by
  have hinit : Holds .init [] := ⟨rfl, .nil⟩
  exact hinit.createBlock (b := rawBlock muxBinary) not_mem_nil
    ⟨[.scalar (.bytes muxBinary)], [0], true, .rawBytes⟩ rfl
    ⟨rfl, rfl, by simp [Context.finalizeStack, serializeRaw, rawElement, rawScalar, rawBlock]⟩

theorem Holds.serializeIsExecutable {blocks : List Block} (h : Holds ctx blocks)
    (hfresh : isExecutableBlock ∉ blocks.map Block.name) :
    ∃ ctx', serializeIsExecutable ctx true = .ok ctx' ∧
      Holds ctx' (blocks ++ [msgPackBlock isExecutableBlock [uintTree 1]]) := by
  obtain ⟨stack, hpush, hopen⟩ :=
    (open_setOutFmt (Stack.open_empty .rawBytes) .msgpack).push_scalar (.uint 1)
  refine h.createBlock (b := msgPackBlock isExecutableBlock [uintTree 1]) hfresh stack ?_
    (writes_msgPackBlock hopen _)
  show (do
    let (_, stack) ← check (((Stack.empty .rawBytes).setOutFmt .msgpack).push (.scalar (.uint 1)))
    return stack) = _
  rw [hpush]
  rfl

/-- The blocks of an executable program, in the order in which they are created. -/
def Program.blocks (program : Program) (kernelArgInfo : Bool) : List Block :=
  [rawBlock program.executable, msgPackBlock isExecutableBlock [uintTree 1],
    msgPackBlock printfInfoBlock [.array (program.printfCalls.flatMap Descriptor.trees)],
    msgPackBlock programInfoBlock [.array (program.kernels.map (·.tree kernelArgInfo))]]

theorem serializeBinary_eq {program : Program} (hinfo : ∀ kernel ∈ program.kernels, kernel.InfoFull)
    (kernelArgInfo : Bool) :
    serializeBinary program kernelArgInfo none =
      .ok (layout .little (program.blocks kernelArgInfo)) := by
  have hcalls : Appends (fun arr stack => program.printfCalls.foldlM (serializePrintfCall arr) stack)
      (program.printfCalls.flatMap Descriptor.trees) :=
    .foldlM fun call _ => appends_serializePrintfCall call
  have hkernels : Appends (fun arr stack =>
      program.kernels.foldlM (serializeKernel kernelArgInfo arr) stack)
      (program.kernels.map (·.tree kernelArgInfo)) := by
    rw [map_eq_flatMap]
    exact .foldlM fun kernel hmem => appends_serializeKernel (hinfo kernel hmem) kernelArgInfo
  obtain ⟨ctx₁, hctx₁, hholds₁⟩ := Holds.serializeExecutable program.executable
  obtain ⟨ctx₂, hctx₂, hholds₂⟩ := hholds₁.serializeIsExecutable
    (show isExecutableBlock ∉ [executableBlock] by decide)
  obtain ⟨ctx₃, hctx₃, hholds₃⟩ := hholds₂.createArrayBlock
    (show printfInfoBlock ∉ [executableBlock, isExecutableBlock] by decide) hcalls
  obtain ⟨ctx₄, hctx₄, hholds₄⟩ := hholds₃.createArrayBlock
    (show programInfoBlock ∉ [executableBlock, isExecutableBlock, printfInfoBlock] by decide)
    hkernels
  have hfinal : ctx₄.finalize = .ok (layout ctx₄.endianness _) :=
    finalize_eq (by rw [hholds₄.endianness]; exact hholds₄.writes)
  rw [hholds₄.endianness] at hfinal
  rw [serializeBinary, hctx₁]
  show (do
    let ctx ← serializeIsExecutable ctx₁ true
    let ctx ← serializePrintfInfo ctx program.printfCalls
    let ctx ← serializeProgramInfo ctx program.kernels kernelArgInfo
    ctx.finalize) = _
  rw [hctx₂]
  show (do
    let ctx ← serializePrintfInfo ctx₂ program.printfCalls
    let ctx ← serializeProgramInfo ctx program.kernels kernelArgInfo
    ctx.finalize) = _
  rw [show serializePrintfInfo ctx₂ program.printfCalls = .ok ctx₃ from hctx₃]
  show (do
    let ctx ← serializeProgramInfo ctx₃ program.kernels kernelArgInfo
    ctx.finalize) = _
  rw [show serializeProgramInfo ctx₃ program.kernels kernelArgInfo = .ok ctx₄ from hctx₄]
  exact hfinal

end ConstructionKit.Binary
