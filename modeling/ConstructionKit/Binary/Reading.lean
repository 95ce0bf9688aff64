import ConstructionKit.Binary.Written

/-! What is read from the trees of a program.  Each string comes back with a null at its end. -/

namespace ConstructionKit.Binary

open Compiler Metadata ProofKit List

/-! ### What a program is read as -/

def terminated (text : List UInt8) : List UInt8 := cString text ++ [0]

def Descriptor.decoded (call : Descriptor) : Descriptor :=
  ⟨terminated call.formatString, call.types, call.strings.map terminated⟩

def ArgumentInfo.decoded (info : ArgumentInfo) : ArgumentInfo :=
  { info with typeName := terminated info.typeName, name := terminated info.name }

/-- Sizes that are zero are read as no sizes. -/
def KernelInfo.decoded (kernel : KernelInfo) (hasKernelArgInfo : Bool) : KernelInfo where
  name := terminated kernel.name
  argumentTypes := kernel.argumentTypes
  argumentInfo := (kernel.storedInfo hasKernelArgInfo).map (·.map ArgumentInfo.decoded)
  reqdWorkGroupSize := kernel.reqdWorkGroupSize.filter (· ≠ (0, 0, 0))
  reqdSubGroupSize := kernel.reqdSubGroupSize.filter (· ≠ 0)

def Program.decoded (program : Program) (kernelArgInfo : Bool) : Program where
  executable := program.executable
  printfCalls := program.printfCalls.map Descriptor.decoded
  kernels := program.kernels.map (·.decoded kernelArgInfo)

/-! ### Elements of arrays -/

section

variable {heap : List Cell} {arr : Nat} {ts : List Tree} (text : List UInt8)

theorem getArraySize_eq (h : Denotes heap arr (.array ts)) :
    getArraySize heap arr = .ok ts.length := by
  obtain ⟨items, hcell, hitems⟩ := denotes_array_iff.1 h
  rw [getArraySize, hcell, ← hitems.length_eq]

theorem getArrayIdx_eq (h : Denotes heap arr (.array ts)) (idx : Nat) {t : Tree}
    (ht : ts[idx]? = some t) :
    ∃ val, getArrayIdx heap arr idx = .ok val ∧ Denotes heap val t := by
  obtain ⟨items, hcell, hitems⟩ := denotes_array_iff.1 h
  obtain ⟨hlt, rfl⟩ := List.getElem?_eq_some_iff.1 ht
  have hlt' : idx < items.length := hitems.length_eq ▸ hlt
  refine ⟨items[idx], ?_, hitems.get hlt' hlt⟩
  rw [getArrayIdx, hcell]
  dsimp only
  rw [getElem?_eq_getElem hlt']

theorem cString_cString : cString (cString text) = cString text :=
  cString_eq_self fun h => by
    have := mem_takeWhile_imp h
    simp at this

theorem strncpy_cString :
    strncpy (cString text) ((cString text).length + 1) = terminated text := by
  rw [strncpy, cString_cString, take_of_length_le (by omega), Nat.add_sub_cancel_left]
  rfl

theorem arrayUint_eq (h : Denotes heap arr (.array ts)) (idx : Nat) {value : UInt64}
    (ht : ts[idx]? = some (uintTree value)) : arrayUint heap arr idx = .ok value := by
  obtain ⟨val, hval, ⟨hcell⟩⟩ := getArrayIdx_eq h idx ht
  rw [arrayUint, hval]
  show getUint heap val = _
  rw [getUint, getScalar, hcell]

theorem arrayZstr_eq (h : Denotes heap arr (.array ts)) (idx : Nat) {text : List UInt8}
    (ht : ts[idx]? = some (zstrTree text)) : arrayZstr heap arr idx = .ok (terminated text) := by
  obtain ⟨val, hval, ⟨hcell⟩⟩ := getArrayIdx_eq h idx ht
  rw [arrayZstr, hval]
  show getZstr heap val = _
  rw [getZstr, getScalar, hcell]
  dsimp only
  rw [strncpy_cString]

theorem readArray_eq {α β : Type} {xs : List α} {tree : α → Tree}
    (h : Denotes heap arr (.array (xs.map tree))) {read : Nat → Result β} {f : α → β}
    (hread : ∀ j x, xs[j]? = some x → read j = .ok (f x)) :
    readArray heap arr read = .ok (xs.map f) := by
  rw [readArray, getArraySize_eq h, length_map]
  refine mapM_ok (forall₂_iff_get.2 ⟨by simp, fun j hj _ => ?_⟩)
  rw [length_range] at hj
  simpa using hread j xs[j] (getElem?_eq_getElem hj)

end

/-! ### `printf` descriptors -/

section

variable {heap : List Cell} {arr idx fuel : Nat} {ts rest : List Tree} {α : Type}

theorem getElem?_of_drop {xs ys : List α} (h : xs.drop idx = ys) (j : Nat) :
    xs[idx + j]? = ys[j]? := by
  rw [← h, getElem?_drop]

theorem deserializePrintfCall_eq (h : Denotes heap arr (.array ts)) {call : Descriptor}
    (hdrop : ts.drop idx = call.trees ++ rest) :
    deserializePrintfCall heap arr idx = .ok call.decoded := by
  have hget := getElem?_of_drop hdrop
  obtain ⟨types, htypes, hdenotes⟩ := getArrayIdx_eq h _ (hget 1)
  obtain ⟨strings, hstrings, hdenotes'⟩ := getArrayIdx_eq h _ (hget 2)
  have htypes' : readArray heap types (fun j => do
      return (← arrayUint heap types j).toInt64.toInt32) = .ok (call.types.map id) := by
    refine readArray_eq hdenotes fun j type hj => ?_
    rw [arrayUint_eq hdenotes j (by rw [getElem?_map, hj]; rfl)]
    simp [bind, Except.bind, pure, Except.pure]
  have hstrings' : readArray heap strings (arrayZstr heap strings) =
      .ok (call.strings.map terminated) :=
    readArray_eq hdenotes' fun j text hj =>
      arrayZstr_eq hdenotes' j (by rw [getElem?_map, hj]; rfl)
  rw [deserializePrintfCall, show arrayZstr heap arr idx = _ from arrayZstr_eq h _ (hget 0), htypes,
    hstrings]
  show (do
    let types ← readArray heap types fun j => do
      return (← arrayUint heap types j).toInt64.toInt32
    let strings ← readArray heap strings (arrayZstr heap strings)
    return Descriptor.mk (terminated call.formatString) types strings) = _
  rw [htypes', hstrings', map_id]
  rfl

theorem printfLoop_eq (h : Denotes heap arr (.array ts)) {calls : List Descriptor}
    (hdrop : ts.drop idx = calls.flatMap Descriptor.trees) (hfuel : calls.length < fuel) :
    printfLoop heap arr ts.length fuel idx = .ok (calls.map Descriptor.decoded) := by
  induction calls generalizing fuel idx with
  | nil =>
    rcases fuel with _ | fuel
    · omega
    have hle : ts.length ≤ idx := drop_eq_nil_iff.1 hdrop
    rw [printfLoop, if_neg (by omega)]
    rfl
  | cons call calls ih =>
    rw [length_cons] at hfuel
    rcases fuel with _ | fuel
    · omega
    have hlt : idx < ts.length := by
      by_contra hge
      rw [drop_eq_nil_of_le (by omega)] at hdrop
      exact cons_ne_nil _ _ hdrop.symm
    have hdrop' : ts.drop (idx + 3) = calls.flatMap Descriptor.trees := by
      rw [← drop_drop, hdrop]
      rfl
    rw [printfLoop, if_pos hlt, deserializePrintfCall_eq h hdrop, ih hdrop' (by omega)]
    rfl

/-! ### Arguments -/

theorem setAt_append (done : List α) (old new : α) (rest : List α) :
    setAt (done ++ old :: rest) done.length new = .ok (done ++ new :: rest) := by
  rw [setAt, if_pos (by simp), set_append_right _ _ le_rfl, Nat.sub_self, set_cons_zero]

theorem getD_append (done : List α) (item : α) (rest : List α) (default : α) :
    (done ++ item :: rest).getD done.length default = item := by
  simp

section

variable {cur : Nat} {arg : ArgumentType} (done : List ArgumentType) (later : List ArgumentType)

theorem deserializeArgument_types (h : Denotes heap arr (.array ts))
    {info : Option ArgumentInfo} (hdrop : ts.drop cur = argumentTrees (arg, info) ++ rest)
    (hasArgMetadata : Bool) (infos : List ArgumentInfo) :
    deserializeArgument heap arr hasArgMetadata cur done.length
        ⟨done ++ .default :: later, infos⟩ =
      (if hasArgMetadata then do
        let addressQual := (← arrayUint heap arr (cur + 2)).toUInt32
        let accessQual := (← arrayUint heap arr (cur + 3)).toInt64.toInt32
        let typeQual := (← arrayUint heap arr (cur + 4)).toUInt32
        let typeName ← arrayZstr heap arr (cur + 5)
        let name ← arrayZstr heap arr (cur + 6)
        let infos ← setAt infos done.length ⟨addressQual, accessQual, typeQual, typeName, name⟩
        return (cur + 7, ⟨done ++ arg :: later, infos⟩)
      else return (cur + 2, ⟨done ++ arg :: later, infos⟩)) := by
  have hget := getElem?_of_drop hdrop
  have hkind : arrayUint heap arr cur = .ok arg.kind.value.toUInt64 := arrayUint_eq h _ (hget 0)
  have hspace : arrayUint heap arr (cur + 1) = .ok arg.addressSpace.toUInt64 :=
    arrayUint_eq h _ (hget 1)
  rw [deserializeArgument, hkind, hspace]
  simp only [bind, Except.bind, setAt_append, getD_append, UInt32.toUInt32_toUInt64]

theorem deserializeArgument_none (h : Denotes heap arr (.array ts))
    (hdrop : ts.drop cur = argumentTrees (arg, none) ++ rest) (infos : List ArgumentInfo) :
    deserializeArgument heap arr false cur done.length ⟨done ++ .default :: later, infos⟩ =
      .ok (cur + 2, ⟨done ++ arg :: later, infos⟩) := by
  rw [deserializeArgument_types done later h hdrop]
  rfl

theorem deserializeArgument_some (h : Denotes heap arr (.array ts)) {info : ArgumentInfo}
    (hdrop : ts.drop cur = argumentTrees (arg, some info) ++ rest)
    {doneInfos : List ArgumentInfo} (hdone : doneInfos.length = done.length)
    (laterInfos : List ArgumentInfo) :
    deserializeArgument heap arr true cur done.length
        ⟨done ++ .default :: later, doneInfos ++ .default :: laterInfos⟩ =
      .ok (cur + 7, ⟨done ++ arg :: later, doneInfos ++ info.decoded :: laterInfos⟩) := by
  have hget := getElem?_of_drop hdrop
  have hqual : arrayUint heap arr (cur + 2) = .ok info.addressQual.toUInt64 :=
    arrayUint_eq h _ (hget 2)
  have haccess : arrayUint heap arr (cur + 3) = .ok info.accessQual.toInt64.toUInt64 :=
    arrayUint_eq h _ (hget 3)
  have htype : arrayUint heap arr (cur + 4) = .ok info.typeQual.toUInt64 := arrayUint_eq h _ (hget 4)
  have htypeName : arrayZstr heap arr (cur + 5) = .ok (terminated info.typeName) :=
    arrayZstr_eq h _ (hget 5)
  have hname : arrayZstr heap arr (cur + 6) = .ok (terminated info.name) := arrayZstr_eq h _ (hget 6)
  rw [deserializeArgument_types done later h hdrop, hqual, haccess, htype, htypeName,
    hname]
  simp only [bind, Except.bind, ← hdone, setAt_append, UInt32.toUInt32_toUInt64,
    Int64.toInt64_toUInt64, Int32.toInt32_toInt64]
  rfl

end

theorem argumentLoop_eq (h : Denotes heap arr (.array ts))
    {args : List (ArgumentType × Option ArgumentInfo)} {hasArgMetadata : Bool}
    (hargs : ∀ arg ∈ args, arg.2.isSome = hasArgMetadata) {cur : Nat}
    (hdrop : ts.drop cur = args.flatMap argumentTrees) (hfuel : args.length < fuel)
    (done : List ArgumentType) (doneInfos : List ArgumentInfo)
    (hdone : hasArgMetadata = true → doneInfos.length = done.length) :
    argumentLoop heap arr ts.length hasArgMetadata fuel cur done.length
        ⟨done ++ .replicate args.length .default,
          doneInfos ++ if hasArgMetadata then .replicate args.length .default else []⟩ =
      .ok ⟨done ++ args.map Prod.fst,
        doneInfos ++ (args.filterMap Prod.snd).map ArgumentInfo.decoded⟩ := by
  induction args generalizing fuel cur done doneInfos with
  | nil =>
    rcases fuel with _ | fuel
    · omega
    have hle : ts.length ≤ cur := drop_eq_nil_iff.1 hdrop
    rw [argumentLoop, if_neg (by omega)]
    simp
  | cons arg args ih =>
    obtain ⟨harg, hrest⟩ := forall_mem_cons.1 hargs
    rw [length_cons] at hfuel
    rcases fuel with _ | fuel
    · omega
    have hlt : cur < ts.length := by
      by_contra hge
      rw [drop_eq_nil_of_le (by omega)] at hdrop
      exact cons_ne_nil _ _ hdrop.symm
    rw [argumentLoop, if_pos hlt, length_cons, replicate_succ]
    obtain ⟨arg, _ | info⟩ := arg
    · obtain rfl : false = hasArgMetadata := harg
      have hdrop' : ts.drop (cur + 2) = args.flatMap argumentTrees := by
        rw [← drop_drop, hdrop]
        rfl
      have hloop := ih hrest hdrop' (show args.length < fuel by omega) (done ++ [arg]) doneInfos
        (fun h => absurd h (by decide))
      rw [length_append, append_assoc, append_assoc] at hloop
      rw [deserializeArgument_none done _ h hdrop]
      exact hloop
    · obtain rfl : true = hasArgMetadata := harg
      have hdrop' : ts.drop (cur + 7) = args.flatMap argumentTrees := by
        rw [← drop_drop, hdrop]
        rfl
      have hloop := ih hrest hdrop' (show args.length < fuel by omega) (done ++ [arg])
        (doneInfos ++ [info.decoded]) (fun _ => by simp [hdone rfl])
      simp only [length_append, append_assoc] at hloop
      rw [if_pos rfl, replicate_succ, deserializeArgument_some done _ h hdrop (hdone rfl)]
      exact hloop

/-! ### Kernels -/

section

variable {kernel : KernelInfo} {hasKernelArgInfo : Bool}

theorem isSome_arguments :
    ∀ arg ∈ kernel.arguments hasKernelArgInfo,
      arg.2.isSome = (kernel.storedInfo hasKernelArgInfo).isSome := by
  intro arg hmem
  rw [KernelInfo.arguments] at hmem
  rcases hstored : kernel.storedInfo hasKernelArgInfo with _ | infos <;> rw [hstored] at hmem
  · obtain ⟨_, -, rfl⟩ := mem_map.1 hmem
    rfl
  · obtain ⟨_, -, hinfo⟩ := mem_map.1 (of_mem_zip hmem).2
    rw [← hinfo]
    rfl

theorem length_storedInfo (hinfo : kernel.InfoFull) {infos : List ArgumentInfo}
    (hstored : kernel.storedInfo hasKernelArgInfo = some infos) :
    infos.length = kernel.argumentTypes.length := by
  cases hasKernelArgInfo with
  | false => exact absurd hstored (by simp [KernelInfo.storedInfo])
  | true => exact hinfo infos hstored

theorem map_fst_arguments (hinfo : kernel.InfoFull) :
    (kernel.arguments hasKernelArgInfo).map Prod.fst = kernel.argumentTypes := by
  rw [KernelInfo.arguments]
  rcases hstored : kernel.storedInfo hasKernelArgInfo with _ | infos
  · simp [Function.comp_def]
  · exact map_fst_zip (by rw [length_map, length_storedInfo hinfo hstored])

theorem filterMap_snd_arguments (hinfo : kernel.InfoFull) :
    (kernel.arguments hasKernelArgInfo).filterMap Prod.snd =
      (kernel.storedInfo hasKernelArgInfo).getD [] := by
  rw [KernelInfo.arguments]
  rcases hstored : kernel.storedInfo hasKernelArgInfo with _ | infos
  · simp
  · have hsnd : (kernel.argumentTypes.zip (infos.map some)).map Prod.snd = infos.map some :=
      map_snd_zip (by rw [length_map, length_storedInfo hinfo hstored])
    rw [← Function.id_comp Prod.snd, ← filterMap_map, hsnd]
    simp

theorem length_le_flatMap {β : Type} {f : α → List β} {xs : List α} (h : ∀ x ∈ xs, f x ≠ []) :
    xs.length ≤ (xs.flatMap f).length := by
  induction xs with
  | nil => exact Nat.zero_le _
  | cons x xs ih =>
    obtain ⟨hx, hxs⟩ := forall_mem_cons.1 h
    have := length_pos_iff.2 hx
    have := ih hxs
    rw [flatMap_cons, length_append, length_cons]
    omega

theorem argumentLoop_arguments (hinfo : kernel.InfoFull)
    (h : Denotes heap arr (.array ((kernel.arguments hasKernelArgInfo).flatMap argumentTrees))) :
    argumentLoop heap arr ((kernel.arguments hasKernelArgInfo).flatMap argumentTrees).length
        (kernel.storedInfo hasKernelArgInfo).isSome
        (((kernel.arguments hasKernelArgInfo).flatMap argumentTrees).length + 1) 0 0
        ⟨.replicate kernel.argumentTypes.length .default,
          if (kernel.storedInfo hasKernelArgInfo).isSome then
            .replicate kernel.argumentTypes.length .default else []⟩ =
      .ok ⟨kernel.argumentTypes,
        ((kernel.storedInfo hasKernelArgInfo).getD []).map ArgumentInfo.decoded⟩ := by
  have hfst : (kernel.arguments hasKernelArgInfo).map Prod.fst = kernel.argumentTypes :=
    map_fst_arguments hinfo
  have hlength : (kernel.arguments hasKernelArgInfo).length = kernel.argumentTypes.length := by
    rw [← hfst, length_map]
  have hfuel : (kernel.arguments hasKernelArgInfo).length ≤
      ((kernel.arguments hasKernelArgInfo).flatMap argumentTrees).length :=
    length_le_flatMap fun _ _ => cons_ne_nil _ _
  have := argumentLoop_eq h isSome_arguments (drop_zero ..)
    (Nat.lt_succ_of_le hfuel) [] [] (fun _ => rfl)
  rwa [hfst, filterMap_snd_arguments hinfo, hlength] at this

theorem filter_reqdWorkGroupSize (sizes : Option (UInt64 × UInt64 × UInt64)) :
    (if (sizes.getD (0, 0, 0)).1 = 0 ∧ (sizes.getD (0, 0, 0)).2.1 = 0 ∧
        (sizes.getD (0, 0, 0)).2.2 = 0 then none
      else some ((sizes.getD (0, 0, 0)).1, (sizes.getD (0, 0, 0)).2.1,
        (sizes.getD (0, 0, 0)).2.2)) = sizes.filter (· ≠ (0, 0, 0)) := by
  obtain _ | ⟨x, y, z⟩ := sizes
  · rfl
  · simp only [Option.getD_some, Option.filter_some, Prod.mk.injEq, decide_not,
      Bool.not_eq_true', decide_eq_false_iff_not, ite_not]

theorem filter_reqdSubGroupSize (size : Option UInt64) :
    (if size.getD 0 = 0 then none else some (size.getD 0)) = size.filter (· ≠ 0) := by
  cases size with
  | none => rfl
  | some => simp [Option.filter_some]

theorem deserializeKernel_eq {val : Nat} (hinfo : kernel.InfoFull)
    (hcount : kernel.argumentTypes.length < 2 ^ 64)
    (h : Denotes heap val (kernel.tree hasKernelArgInfo)) :
    deserializeKernel heap val = .ok (kernel.decoded hasKernelArgInfo) := by
  obtain ⟨args, hargs, hargsDenotes⟩ := getArrayIdx_eq h 2 rfl
  obtain ⟨sizes, hsizes, hsizesDenotes⟩ := getArrayIdx_eq h 3 rfl
  have hmeta : ((if (kernel.storedInfo hasKernelArgInfo).isSome then 1 else 0 : UInt64) == 1) =
      (kernel.storedInfo hasKernelArgInfo).isSome := by
    cases (kernel.storedInfo hasKernelArgInfo).isSome <;> rfl
  have hnum : (UInt64.ofNat kernel.argumentTypes.length).toNat = kernel.argumentTypes.length :=
    UInt64.toNat_ofNat_of_lt' hcount
  have h0 := arrayUint_eq h 0 rfl
  have h1 := arrayUint_eq h 1 rfl
  have h4 := arrayUint_eq h 4 rfl
  have h5 := arrayZstr_eq h 5 rfl
  have hx := arrayUint_eq hsizesDenotes 0 rfl
  have hy := arrayUint_eq hsizesDenotes 1 rfl
  have hz := arrayUint_eq hsizesDenotes 2 rfl
  rw [deserializeKernel]
  simp only [h0, h1, h4, h5, hargs, hsizes, hx, hy, hz, bind, Except.bind, hmeta, hnum,
    getArraySize_eq hargsDenotes, argumentLoop_arguments hinfo hargsDenotes,
    KernelInfo.getReqdWGSizeOrZero, filter_reqdWorkGroupSize, filter_reqdSubGroupSize]
  rw [KernelInfo.decoded]
  cases kernel.storedInfo hasKernelArgInfo <;> rfl

end

end

end ConstructionKit.Binary
