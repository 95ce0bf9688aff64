import ConstructionKit.Compiler.PassFunctions

/-! The work-item loops of `work_item_loops_pass.cpp`.  `mainTailPair` is the choice of
`WorkItemLoopsPass::run`, `scheduleGenerator` holds the values that `makeWrapperFunction` computes in
the entry block of a wrapper, and `makeWorkItemLoops` and `makeLinearWorkItemLoops` build the loops
of one barrier region.  What they build is given as it runs: a function on the state that the calls
of the builtins and of the region change. -/

namespace ConstructionKit.WorkItemLoops

open Compiler

variable {w : Nat} {M : Type}

/-! ### The choice of the kernels -/

/-- `VectorizationFactor`.  `knownMin` is a value of the size type, as `materializeVF` makes it. -/
structure VectorizationFactor (w : Nat) where
  knownMin : BitVec w
  isScalable : Bool
deriving DecidableEq

/-- The factor at run time: the known minimum, times `vscale` if it is scalable. -/
def materializeVF (vscale : BitVec w) (vf : VectorizationFactor w) : BitVec w :=
  if vf.isScalable then vscale * vf.knownMin else vf.knownMin

structure VectorizationInfo (w : Nat) where
  vf : VectorizationFactor w
  isVectorPredicated : Bool

def scalarTailInfo : VectorizationInfo w := ⟨⟨1#w, false⟩, false⟩

/-- What the pass reads of a kernel entry point and its metadata. -/
structure Kernel (w : Nat) where
  reqdWorkGroupSize : Option (Fin 3 → BitVec w)
  maxWorkDim : Option UInt32
  /-- The link of a vectorized kernel: whether the original function exists, and how the kernel was
  vectorized. -/
  veczToOrig : Option (Bool × VectorizationInfo w)
  /-- The vectorized versions of the original function: whether each is this kernel itself, and how
  it was vectorized. -/
  linkedFns : List (Bool × VectorizationInfo w)

/-- The tail for a kernel: a vector-predicated version of the original with the same factor, if there
is one, and the scalar original otherwise. -/
def tailInfoFor (kernel : Kernel w) (tailFunc : Bool) (mainInfo : VectorizationInfo w) :
    VectorizationInfo w :=
  if !mainInfo.isVectorPredicated && tailFunc then
    match kernel.linkedFns.find? fun link =>
        !link.1 && link.2.vf == mainInfo.vf && link.2.isVectorPredicated with
    | some link => link.2
    | none => scalarTailInfo
  else scalarTailInfo

/-- The vectorization factor is known to divide the required local size. -/
def fitsLocalSize (kernel : Kernel w) (mainInfo : VectorizationInfo w) : Bool :=
  match kernel.reqdWorkGroupSize with
  | some wgs => !mainInfo.vf.isScalable && wgs 0 % mainInfo.vf.knownMin == 0#w
  | none => false

/-- The kernel and the tail that `run` wraps together. -/
def mainTailPair (forceNoTail : Bool) (kernel : Kernel w) :
    VectorizationInfo w × Option (VectorizationInfo w) :=
  match kernel.veczToOrig with
  | none => (scalarTailInfo, none)
  | some (tailFunc, mainInfo) =>
    if !tailFunc || mainInfo.isVectorPredicated || forceNoTail || fitsLocalSize kernel mainInfo then
      (mainInfo, none)
    else (mainInfo, some (tailInfoFor kernel tailFunc mainInfo))

/-! ### The entry block of the wrapper -/

/-- A value of the size type: whether it is a `Constant`, and what it is at run time. -/
structure SizeValue (w : Nat) where
  isConstant : Bool
  value : BitVec w

/-- What a launch brings: `__mux_get_local_size` and `vscale`. -/
structure Launch (w : Nat) where
  getLocalSize : Fin 3 → BitVec w
  vscale : BitVec w

def localSizeDim (kernel : Kernel w) (launch : Launch w) (i : Fin 3) : SizeValue w :=
  match kernel.reqdWorkGroupSize with
  | some wgs => ⟨true, wgs i⟩
  | none =>
    if i = 0 ∨ i.val < (kernel.maxWorkDim.getD 3).toNat then ⟨false, launch.getLocalSize i⟩
    else ⟨true, 1#w⟩

/-- The values that the loops use. -/
structure ScheduleGenerator (w : Nat) where
  localSizeDim : Fin 3 → SizeValue w
  mainInfo : VectorizationInfo w
  tailInfo : Option (VectorizationInfo w)
  VF : BitVec w
  /-- The number of work-items left for the tail in each row, if there is a tail. -/
  peel : Option (SizeValue w)
  mainLoopLimit : SizeValue w

def scheduleGenerator (mainInfo : VectorizationInfo w) (tailInfo : Option (VectorizationInfo w))
    (kernel : Kernel w) (launch : Launch w) : ScheduleGenerator w :=
  let size := WorkItemLoops.localSizeDim kernel launch
  let VF := materializeVF launch.vscale mainInfo.vf
  let isConstant := (size 0).isConstant && !mainInfo.vf.isScalable
  -- with a tail, the remainder of a signed division is peeled off
  let peel := tailInfo.map fun _ => (⟨isConstant, (size 0).value.srem VF⟩ : SizeValue w)
  { localSizeDim := size, mainInfo, tailInfo, VF, peel
    mainLoopLimit := match peel with
      | some peel => ⟨(size 0).isConstant && peel.isConstant, (size 0).value - peel.value⟩
      | none => size 0 }

/-- The schedule of the wrapper that `run` makes for a kernel. -/
def wrapperSchedule (forceNoTail : Bool) (kernel : Kernel w) (launch : Launch w) :
    ScheduleGenerator w :=
  let pair := mainTailPair forceNoTail kernel
  scheduleGenerator pair.1 pair.2 kernel launch

namespace ScheduleGenerator

variable (g : ScheduleGenerator w)

def emitTail : Bool := g.tailInfo.isSome

def tailIsVectorPredicated : Bool := g.tailInfo.any (·.isVectorPredicated)

/-- The number of iterations of the loops of the tail in a row. -/
def peelValue : BitVec w := (g.peel.map (·.value)).getD 0#w

/-- What `__mux_set_num_sub_groups` is called with. -/
def numSubGroups : BitVec 32 :=
  let numSubgroupsZY := (g.localSizeDim 2).value * (g.localSizeDim 1).value
  let numSubgroupsX := g.mainLoopLimit.value / g.VF
  let numSubgroupsX :=
    match g.peel with
    | some peel => numSubgroupsX + peel.value
    | none =>
      if g.mainInfo.isVectorPredicated then
        numSubgroupsX + if g.mainLoopLimit.value.srem g.VF ≠ 0#w then 1#w else 0#w
      else numSubgroupsX
  (numSubgroupsZY * numSubgroupsX).setWidth 32

/-- The number of live variable structs in a row, for the main kernel and for the tail. -/
def size0 (tail : Bool) : BitVec w :=
  if tail then
    if g.tailIsVectorPredicated then (if g.peelValue ≠ 0#w then 1#w else 0#w) else g.peelValue
  else if g.mainInfo.isVectorPredicated then (g.mainLoopLimit.value + (g.VF - 1#w)) / g.VF
  else g.mainLoopLimit.value / g.VF

/-- The index of the live variables of a call.  Only a call of the main kernel divides by `VF`. -/
def createLiveVarsPtr (tail : Bool) (dim_0 dim_1 dim_2 : BitVec w) : BitVec w :=
  let i_offset := dim_2 * (g.localSizeDim 1).value
  let j_offset := (i_offset + dim_1) * g.size0 tail
  let k_offset := if tail then dim_0 else dim_0 / g.VF
  j_offset + k_offset

end ScheduleGenerator

/-! ### The calls of a region -/

/-- A work-group scan.  The operand of a call is read from its live variables. -/
structure Scan (w : Nat) (M : Type) where
  op : M → M → M
  identity : M
  isExclusive : Bool → Bool
  operand : Bool → BitVec w → M

/-- What `makeWorkGroupCollectiveLoops` returns for the barrier before a region: no collective, the
result of a reduction or a broadcast, or a scan, whose accumulator starts with the identity. -/
inductive Collective (w : Nat) (M : Type) where
  | none
  | uniform (accum : M)
  | scan (info : Scan w M)

def Collective.accum : Collective w M → Option M
  | .none => Option.none
  | .uniform accum => some accum
  | .scan info => some info.identity

/-- A call of the region: of the tail or of the main kernel, with the local id and the sub-group id
that the builtins have set, the accumulator and the index of the live variables. -/
structure Call (w : Nat) (M : Type) where
  tail : Bool
  localId : Fin 3 → BitVec w
  subGroupId : BitVec 32
  accum : Option M
  liveVars : BitVec w

/-- What the loops change: the local id and the sub-group id that are set, the calls that have been
made, and the induction variables. -/
structure LoopState (w : Nat) (M : Type) where
  localId : Fin 3 → BitVec w
  subGroupId : BitVec 32
  calls : List (Call w M)
  subgroupIV : BitVec 32
  scanIV : Option M

def LoopState.setLocalId (s : LoopState w M) (dim : Fin 3) (value : BitVec w) : LoopState w M :=
  { s with localId := Function.update s.localId dim value }

/-- The induction variables as they are before the first loop. -/
def LoopState.initIVs (s : LoopState w M) (collective : Collective w M) : LoopState w M :=
  { s with subgroupIV := 0#32, scanIV := collective.accum }

/-- The innermost body: the sub-group id, the accumulator of a scan, `createWorkItemLoopBody` and the
next values of the induction variables. -/
def ScheduleGenerator.regionCall (g : ScheduleGenerator w) (collective : Collective w M)
    (tail : Bool) (dim_2 dim_1 dim_0 : BitVec w) (s : LoopState w M) : LoopState w M :=
  let s := { s with subGroupId := s.subgroupIV }
  let liveVars := g.createLiveVarsPtr tail dim_0 dim_1 dim_2
  let nextScanIV :=
    match collective with
    | .scan info => s.scanIV.map (info.op · (info.operand tail liveVars))
    | _ => s.scanIV
  let accum :=
    match collective with
    | .scan info => if info.isExclusive tail then s.scanIV else nextScanIV
    | _ => collective.accum
  -- the offset of the tail is the main loop limit
  let s := s.setLocalId 0 (if tail then g.mainLoopLimit.value + dim_0 else dim_0)
  { s with
    calls := s.calls ++ [⟨tail, s.localId, s.subGroupId, accum, liveVars⟩]
    subgroupIV := s.subgroupIV + 1#32
    scanIV := nextScanIV }

/-! ### Blocks -/

inductive BuildError where
  /-- A branch to a block that has not been created. -/
  | nullBlock
deriving DecidableEq

/-- The blocks around a loop.  A block that is absent is a null pointer. -/
inductive Block where
  | block
  | mainPreheader
  | mainExit
  | tailPreheader
  | tailExit
  | exitIR

/-- The preheader and the exit of a loop before it is made, and whether a branch skips the loop when
its limit is zero at run time. -/
structure LoopBlocks where
  preheader : Option Block
  exit : Option Block
  guarded : Bool

/-- The block that `createLoop` returns. -/
def createLoopExit (exit : Option Block) : Block := exit.getD .exitIR

namespace ScheduleGenerator

variable (g : ScheduleGenerator w)

def mainBlocks : LoopBlocks :=
  if g.emitTail then
    if g.mainLoopLimit.isConstant then
      if g.mainLoopLimit.value = 0#w then ⟨none, some .block, false⟩
      else ⟨some .block, none, false⟩
    else ⟨some .mainPreheader, some .mainExit, true⟩
  else ⟨some .block, none, false⟩

/-- The exit of the main loop once it is made, if it is. -/
def mainExitBB : Option Block :=
  match g.mainBlocks.preheader with
  | some _ => some (createLoopExit g.mainBlocks.exit)
  | none => g.mainBlocks.exit

def tailBlocks : LoopBlocks :=
  match g.peel with
  | some peel =>
    if peel.isConstant then
      if peel.value = 0#w then ⟨none, g.mainExitBB, false⟩
      else ⟨g.mainExitBB, none, false⟩
    else ⟨some .tailPreheader, some .tailExit, true⟩
  | none => ⟨none, g.mainExitBB, false⟩

/-- The block behind the loops of `makeWorkItemLoops`. -/
def tailExitBB : Option Block :=
  match g.tailBlocks.preheader with
  | some _ => some (createLoopExit g.tailBlocks.exit)
  | none => g.tailBlocks.exit

/-- The block behind a row of the linear loops.  A predicated tail branches to the exit, and does not
create it as a loop does. -/
def linearTailExitBB : Option Block :=
  match g.tailBlocks.preheader with
  | some _ =>
    if g.tailIsVectorPredicated then g.tailBlocks.exit
    else some (createLoopExit g.tailBlocks.exit)
  | none => g.tailBlocks.exit

end ScheduleGenerator

/-- A loop with its blocks, at run time. -/
def LoopBlocks.run (blocks : LoopBlocks) (limit : BitVec w) (absent : LoopState w M)
    (loop : LoopState w M → Option (LoopState w M)) (s : LoopState w M) :
    Option (LoopState w M) :=
  match blocks.preheader with
  | none => some absent
  | some _ => if blocks.guarded && limit == 0#w then some s else loop s

/-! ### The loops of a region -/

/-- Code for a region, at run time; the number bounds the iterations of each loop. -/
abbrev RegionCode (w : Nat) (M : Type) := Nat → LoopState w M → Option (LoopState w M)

namespace ScheduleGenerator

variable (g : ScheduleGenerator w) (collective : Collective w M)

/-- The loops over the third and the second dimension, which set the local id. -/
def outerLoops (fuel : Nat)
    (row : BitVec w → BitVec w → LoopState w M → Option (LoopState w M)) (s : LoopState w M) :
    Option (LoopState w M) :=
  createLoop fuel 0#w (g.localSizeDim 2).value defaultInc (fun dim_2 s =>
    createLoop fuel 0#w (g.localSizeDim 1).value defaultInc (fun dim_1 s =>
      row dim_2 dim_1 (s.setLocalId 1 dim_1)) (s.setLocalId 2 dim_2)) s

def mainLoop (fuel : Nat) (dim_2 dim_1 : BitVec w) (s : LoopState w M) : Option (LoopState w M) :=
  createLoop fuel 0#w g.mainLoopLimit.value g.VF (fun dim_0 s =>
    some (g.regionCall collective false dim_2 dim_1 dim_0 s)) s

def tailLoop (fuel : Nat) (dim_2 dim_1 : BitVec w) (s : LoopState w M) : Option (LoopState w M) :=
  createLoop fuel 0#w g.peelValue defaultInc (fun dim_0 s =>
    some (g.regionCall collective true dim_2 dim_1 dim_0 s)) s

/-- Loops over all the main work-items, and then over all that are left for the tail. -/
def makeWorkItemLoops : Except BuildError (RegionCode w M) :=
  match g.tailExitBB with
  | none => .error .nullBlock
  | some _ => .ok fun fuel s => do
    let s := s.initIVs collective
    let s ← g.mainBlocks.run g.mainLoopLimit.value s
      (g.outerLoops fuel (g.mainLoop collective fuel)) s
    g.tailBlocks.run g.peelValue s (g.outerLoops fuel (g.tailLoop collective fuel)) s

/-- One row of the linear loops.  Without a main loop, `nextSubgroupIV` and `nextScanIV` still are
what they were before the loops when the tail takes its induction variables from them. -/
def linearRow (fuel : Nat) (dim_2 dim_1 : BitVec w) (s : LoopState w M) :
    Option (LoopState w M) := do
  let s ← g.mainBlocks.run g.mainLoopLimit.value (s.initIVs collective)
    (g.mainLoop collective fuel dim_2 dim_1) s
  g.tailBlocks.run g.peelValue s (fun s =>
    if g.tailIsVectorPredicated then some (g.regionCall collective true dim_2 dim_1 0#w s)
    else g.tailLoop collective fuel dim_2 dim_1 s) s

/-- Loops over all work-items in the order of their local linear ids. -/
def makeLinearWorkItemLoops : Except BuildError (RegionCode w M) :=
  match g.linearTailExitBB with
  | none => .error .nullBlock
  | some _ => .ok fun fuel s =>
    g.outerLoops fuel (g.linearRow collective fuel) (s.initIVs collective)

end ScheduleGenerator

/-- `BarrierSchedule`, without the regions that run only once. -/
inductive BarrierSchedule where
  | unordered
  | scalarTail
  | linear
deriving DecidableEq

/-- The loops of a region. -/
def ScheduleGenerator.makeLoops (g : ScheduleGenerator w) (collective : Collective w M) :
    BarrierSchedule → Except BuildError (RegionCode w M)
  | .unordered | .scalarTail =>
    if g.tailIsVectorPredicated then g.makeLinearWorkItemLoops collective
    else g.makeWorkItemLoops collective
  | .linear => g.makeLinearWorkItemLoops collective

end ConstructionKit.WorkItemLoops
