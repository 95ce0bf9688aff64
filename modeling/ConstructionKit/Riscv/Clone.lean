import ConstructionKit.Riscv.CommandBuffer

/-! A command buffer of the RISC-V target and its clone share the plain old data of their arguments,
and nothing else. -/

namespace ConstructionKit.Riscv.CommandBuffer

open ProofKit Mux List

variable {h h' h'' : Heap} {n n' : NDRange} {arg : HalArg} {wordSize : UInt32}
variable {index array block offset block' : Nat} {args : List HalArg} {descriptor : Descriptor}
  {bytes : List UInt8} {value : ArgValue} {writePoint : UInt32}

namespace Heap

/-- The arguments of an ND-range, each with its value. -/
def view (h : Heap) (n : NDRange) : List (HalArg × ArgValue) :=
  (h.args n).map fun arg => (arg, h.value arg)

theorem map_snd_view (h : Heap) (n : NDRange) : (h.view n).map (·.2) = h.values n := by
  rw [view, map_map]
  rfl

theorem getElem?_view (hview : (h.view n)[index]? = some (arg, value)) :
    (h.args n)[index]? = some arg ∧ h.value arg = value := by
  rw [view, getElem?_map, Option.map_eq_some_iff] at hview
  obtain ⟨arg', harg, heq⟩ := hview
  cases heq
  exact ⟨harg, rfl⟩

/-- The arguments point to plain old data that is allocated. -/
def PodsAllocated (h : Heap) : Prop :=
  ∀ args ∈ h.kernelArgs, ∀ arg ∈ args, ∀ block offset,
    arg.payload = .podData block offset → block < h.podData.length

def ArgsAllocated (h : Heap) (n : NDRange) : Prop := n.kernelArgs < h.kernelArgs.length

theorem mem_of_mem_args (harg : arg ∈ h.args n) : ∃ args ∈ h.kernelArgs, arg ∈ args := by
  rw [args] at harg
  cases hargs : h.kernelArgs[n.kernelArgs]? with
  | none =>
    rw [hargs, Option.getD_none, take_nil] at harg
    cases harg
  | some args =>
    rw [hargs] at harg
    exact ⟨args, mem_of_getElem? hargs, mem_of_mem_take harg⟩

end Heap

/-! ### Allocations -/

theorem value_append (args : List HalArg) (pod : List UInt8)
    (hpod : ∀ block offset, arg.payload = .podData block offset → block < h.podData.length) :
    (Heap.mk (h.kernelArgs ++ [args]) (h.podData ++ [pod])).value arg = h.value arg := by
  have hload : (Heap.mk (h.kernelArgs ++ [args]) (h.podData ++ [pod])).load arg.payload arg.size =
      h.load arg.payload arg.size := by
    cases hpayload : arg.payload with
    | unset => rfl
    | address => rfl
    | podData block offset =>
      simp only [Heap.load, loadAt, getElem?_append_left (hpod block offset hpayload)]
  rw [Heap.value, Heap.value, hload]

theorem keeps_append (hpods : h.PodsAllocated) (args : List HalArg) (pod : List UInt8) :
    Keeps Heap.view Heap.ArgsAllocated h ⟨h.kernelArgs ++ [args], h.podData ++ [pod]⟩ := by
  intro n hn
  constructor
  · rw [Heap.ArgsAllocated, length_append]
    exact Nat.lt_add_right _ hn
  · rw [Heap.view, Heap.args, getElem?_append_left hn]
    apply map_congr_left
    intro arg harg
    obtain ⟨args', hargs', hmem⟩ := Heap.mem_of_mem_args harg
    rw [value_append args pod (hpods args' hargs' arg hmem)]

theorem podsAllocated_append {pod : List UInt8} (hpods : h.PodsAllocated)
    (hargs : ∀ arg ∈ args, ∀ block offset, arg.payload = .podData block offset →
      block ≤ h.podData.length) :
    (Heap.mk (h.kernelArgs ++ [args]) (h.podData ++ [pod])).PodsAllocated := by
  intro args' hargs' arg harg block offset hpayload
  rw [length_append]
  rcases mem_append.1 hargs' with hargs' | hargs'
  · exact Nat.lt_succ_of_lt (hpods args' hargs' arg harg block offset hpayload)
  · rw [mem_singleton.1 hargs'] at harg
    exact Nat.lt_succ_of_le (hargs arg harg block offset hpayload)

theorem argsAllocated_append {pods : List (List UInt8)} (hn : n.kernelArgs = h.kernelArgs.length) :
    (Heap.mk (h.kernelArgs ++ [args]) pods).ArgsAllocated n := by
  rw [Heap.ArgsAllocated, hn, length_append]
  exact Nat.lt_succ_self _

theorem podData_of_setHALArg {pod pod' : List UInt8} {writePoint' : UInt32}
    (hset : setHALArg wordSize block pod writePoint descriptor = some (arg, pod', writePoint'))
    (hpayload : arg.payload = .podData block' offset) : block' = block := by
  cases descriptor with
  | plainOldData =>
    obtain ⟨src, -, hset⟩ := Option.bind_eq_some_iff.1 hset
    obtain ⟨pod'', -, hset⟩ := Option.bind_eq_some_iff.1 hset
    cases hset
    cases hpayload
    rfl
  | _ =>
    cases hset
    cases hpayload

theorem podData_of_setHALArgs {pod pod' : List UInt8} {descriptors : List Descriptor}
    (hset : setHALArgs wordSize block pod writePoint descriptors = some (args, pod'))
    (harg : arg ∈ args) (hpayload : arg.payload = .podData block' offset) :
    block' = block := by
  induction descriptors generalizing pod writePoint args with
  | nil =>
    cases hset
    cases harg
  | cons descriptor descriptors ih =>
    obtain ⟨⟨first, pod₁, writePoint₁⟩, hfirst, hset⟩ := Option.bind_eq_some_iff.1 hset
    obtain ⟨⟨rest, pod₂⟩, hrest, hset⟩ := Option.bind_eq_some_iff.1 hset
    cases hset
    rcases mem_cons.1 harg with rfl | hmem
    · exact podData_of_setHALArg hfirst hpayload
    · exact ih hrest hmem

/-! ### Clones -/

theorem podsAllocated_cloneNDRangeCommand (hpods : h.PodsAllocated) (n : NDRange) :
    (h.cloneNDRangeCommand n).1.PodsAllocated := by
  apply podsAllocated_append hpods
  intro arg harg block offset hpayload
  obtain ⟨args, hargs, hmem⟩ := Heap.mem_of_mem_args harg
  exact (hpods args hargs arg hmem block offset hpayload).le

theorem args_cloneNDRangeCommand (h : Heap) (n : NDRange) :
    (h.cloneNDRangeCommand n).1.args (h.cloneNDRangeCommand n).2 = h.args n := by
  simp only [Heap.cloneNDRangeCommand, Heap.args, getElem?_append_right (Nat.le_refl _),
    Nat.sub_self, getElem?_cons_zero, Option.getD_some, take_take, Nat.min_self]

theorem view_cloneNDRangeCommand (hpods : h.PodsAllocated) (n : NDRange) :
    (h.cloneNDRangeCommand n).1.view (h.cloneNDRangeCommand n).2 = h.view n := by
  rw [Heap.view, args_cloneNDRangeCommand]
  apply map_congr_left
  intro arg harg
  obtain ⟨args, hargs, hmem⟩ := Heap.mem_of_mem_args harg
  rw [Heap.cloneNDRangeCommand, value_append _ _ (hpods args hargs arg hmem)]

/-! ### Updates -/

/-- What an update of the arguments in an array changes. -/
structure Heap.Updated (array : Nat) (h h' : Heap) : Prop where
  length : h'.kernelArgs.length = h.kernelArgs.length
  others : ∀ other, other ≠ array → h'.kernelArgs[other]? = h.kernelArgs[other]?
  podData : h'.podData.map List.length = h.podData.map List.length
  pods : h.PodsAllocated → h'.PodsAllocated

theorem Heap.Updated.refl (array : Nat) (h : Heap) : h.Updated array h :=
  ⟨rfl, fun _ _ => rfl, rfl, id⟩

theorem Heap.Updated.trans (h1 : h.Updated array h') (h2 : h'.Updated array h'') :
    h.Updated array h'' :=
  ⟨h2.length.trans h1.length, fun other hne => (h2.others other hne).trans (h1.others other hne),
    h2.podData.trans h1.podData, fun h => h2.pods (h1.pods h)⟩

theorem mem_setArg {args' : List HalArg} (hargs' : args' ∈ (h.setArg array index arg).kernelArgs) :
    args' ∈ h.kernelArgs ∨
      ∃ args, h.kernelArgs[array]? = some args ∧ args' = args.set index arg := by
  obtain ⟨i, hi⟩ := mem_iff_getElem?.1 hargs'
  rw [Heap.setArg, getElem?_modify] at hi
  split at hi
  · next heq =>
    subst heq
    obtain ⟨args, hargs, rfl⟩ := Option.map_eq_some_iff.1 hi
    exact .inr ⟨args, hargs, rfl⟩
  · obtain ⟨args, hargs, rfl⟩ := Option.map_eq_some_iff.1 hi
    exact .inl (mem_of_getElem? hargs)

theorem updated_setArg {old : HalArg}
    (hargs : h.kernelArgs[array]? = some args) (hold : args[index]? = some old)
    (hpayload : arg.payload = old.payload ∨ ∃ a, arg.payload = .address a) :
    h.Updated array (h.setArg array index arg) := by
  refine ⟨length_modify .., fun other hne => ?_, rfl, fun hpods => ?_⟩
  · exact getElem?_modify_ne _ _ (Ne.symm hne)
  · intro args' hargs' arg' harg' block offset hpod
    rcases mem_setArg hargs' with hmem' | ⟨args'', hargs'', rfl⟩
    · exact hpods args' hmem' arg' harg' block offset hpod
    · cases hargs.symm.trans hargs''
      have hmem := mem_of_getElem? hargs
      rcases mem_or_eq_of_mem_set harg' with hmem' | rfl
      · exact hpods _ hmem arg' hmem' block offset hpod
      · rcases hpayload with heq | ⟨a, heq⟩
        · exact hpods _ hmem old (mem_of_getElem? hold) block offset (heq.symm.trans hpod)
        · cases heq.symm.trans hpod

theorem updated_storeAt {src : List UInt8} {podData : List (List UInt8)}
    (array : Nat) (hstore : storeAt h.podData block offset src = some podData) :
    h.Updated array { h with podData } := by
  have hlengths := map_length_of_storeAt hstore
  refine ⟨rfl, fun _ _ => rfl, hlengths, fun hpods args hargs arg harg block offset hpayload => ?_⟩
  have hlength := congrArg List.length hlengths
  rw [length_map, length_map] at hlength
  exact hlength ▸ hpods args hargs arg harg block offset hpayload

theorem updated_of_updateArg
    {result : Option Result} (hupdate : h.updateArg array index descriptor = some (h', result)) :
    h.Updated array h' := by
  obtain ⟨args, hargs, hupdate⟩ := Option.bind_eq_some_iff.1 hupdate
  obtain ⟨arg, harg, hupdate⟩ := Option.bind_eq_some_iff.1 hupdate
  cases descriptor with
  | buffer | nullBuffer =>
    cases hupdate
    exact updated_setArg hargs harg (.inr ⟨_, rfl⟩)
  | plainOldData =>
    cases hpayload : arg.payload with
    | unset | address => simp [hpayload] at hupdate
    | podData =>
      simp only [hpayload] at hupdate
      obtain ⟨src, -, hupdate⟩ := Option.bind_eq_some_iff.1 hupdate
      obtain ⟨podData, hstore, hupdate⟩ := Option.bind_eq_some_iff.1 hupdate
      cases hupdate
      exact updated_storeAt array hstore
  | sharedLocalBuffer =>
    cases hupdate
    exact updated_setArg hargs harg (.inl rfl)
  | _ =>
    cases hupdate
    exact .refl array h

theorem updated_of_updateArgs {args : List (Nat × Descriptor)} {result : Result}
    (hupdate : h.updateArgs n args = some (h', result)) : h.Updated n.kernelArgs h' := by
  induction args generalizing h with
  | nil =>
    cases hupdate
    exact .refl _ _
  | cons indexed args ih =>
    obtain ⟨⟨h₁, result₁⟩, hone, hupdate⟩ := Option.bind_eq_some_iff.1 hupdate
    have hupdated := updated_of_updateArg hone
    cases result₁ with
    | some =>
      cases hupdate
      exact hupdated
    | none => exact hupdated.trans (ih hupdate)

/-! ### Values that do not depend on plain old data -/

/-- No argument is read as plain old data of some bytes. -/
def NoPlainOldData (values : List ArgValue) : Prop :=
  ∀ bytes, ArgValue.bytes (some bytes) ∈ values → bytes = []

theorem load_of_map_length_eq {payload : Payload} {size : UInt64}
    (hlengths : h'.podData.map List.length = h.podData.map List.length)
    (hnone : ∀ bytes, h.load payload size = some bytes → bytes = []) :
    h'.load payload size = h.load payload size := by
  cases payload with
  | unset => rfl
  | address => rfl
  | podData block offset =>
    have hsizes := loadAt_length_of_map_length_eq hlengths block offset size.toNat
    simp only [Heap.load] at hnone ⊢
    cases hload : loadAt h.podData block offset size.toNat with
    | none =>
      rw [hload, Option.map_none, Option.map_eq_none_iff] at hsizes
      exact hsizes
    | some bytes =>
      rw [hload, hnone bytes hload, Option.map_some, Option.map_eq_some_iff] at hsizes
      obtain ⟨bytes', hload', hzero⟩ := hsizes
      rw [hload', length_eq_zero_iff.1 hzero, hnone bytes hload]

theorem value_of_updated (hupdated : h.Updated array h')
    (hnone : ∀ bytes, h.value arg = .bytes (some bytes) → bytes = []) :
    h'.value arg = h.value arg := by
  obtain ⟨kind, space, size, payload⟩ := arg
  cases space <;> cases kind
  · rfl
  · rfl
  · rfl
  · have hload : h'.load payload size = h.load payload size := by
      apply load_of_map_length_eq hupdated.podData
      intro bytes hload
      apply hnone
      simp only [Heap.value, hload]
    simp only [Heap.value, hload]

theorem view_of_updated (hupdated : h.Updated array h') (hne : n.kernelArgs ≠ array)
    (hnone : NoPlainOldData ((h.view n).map (·.2))) : h'.view n = h.view n := by
  have hargs : h'.args n = h.args n := by
    rw [Heap.args, Heap.args, hupdated.others _ hne]
  rw [Heap.view, hargs]
  apply map_congr_left
  intro arg harg
  rw [value_of_updated hupdated]
  intro bytes hbytes
  apply hnone
  rw [Heap.map_snd_view]
  exact mem_map.2 ⟨arg, harg, hbytes⟩

theorem ownsBlocks (wordSize : UInt32) :
    (target wordSize).OwnsBlocks Heap.view Heap.PodsAllocated Heap.ArgsAllocated
      NDRange.kernelArgs (fun view => NoPlainOldData (view.map (·.2))) where
  empty := fun args hargs => absurd hargs not_mem_nil
  commandNDRange := by
    intro h h' n kernel options hpods hnew
    obtain ⟨⟨args, pod⟩, hset, hnew⟩ := Option.bind_eq_some_iff.1 hnew
    cases hnew
    refine ⟨podsAllocated_append hpods ?_, keeps_append hpods args pod, argsAllocated_append rfl⟩
    intro arg harg block offset hpayload
    exact (podData_of_setHALArgs hset harg hpayload).le
  cloneNDRange := by
    rintro h h' n n' hpods hn ⟨⟩
    refine ⟨podsAllocated_cloneNDRangeCommand hpods n, keeps_append hpods _ _,
      argsAllocated_append rfl, view_cloneNDRangeCommand hpods n, fun m hm => ?_⟩
    exact Nat.ne_of_lt hm
  updateArgs := by
    intro h h' n args result hpods hn hupdate
    have hupdated := updated_of_updateArgs hupdate
    refine ⟨hupdated.pods hpods, fun m hm => ⟨?_, view_of_updated hupdated⟩⟩
    rw [Heap.ArgsAllocated, hupdated.length]
    exact hm

/-! ### An update of shared plain old data -/

theorem value_eq_bytes (hvalue : h.value arg = .bytes (some bytes)) :
    arg.space = .globalSpace ∧ arg.kind = .value ∧ ∃ block offset,
      arg.payload = .podData block offset ∧
        loadAt h.podData block offset arg.size.toNat = some bytes := by
  obtain ⟨kind, space, size, payload⟩ := arg
  cases space <;> cases kind <;> simp only [Heap.value, ArgValue.bytes.injEq, reduceCtorEq] at hvalue
  cases payload with
  | unset | address => cases hvalue
  | podData block offset => exact ⟨rfl, rfl, block, offset, rfl, hvalue⟩

theorem getElem?_of_args (harg : (h.args n)[index]? = some arg) :
    ∃ args, h.kernelArgs[n.kernelArgs]? = some args ∧ args[index]? = some arg := by
  rw [Heap.args, getElem?_take] at harg
  split at harg
  · cases hargs : h.kernelArgs[n.kernelArgs]? with
    | none =>
      rw [hargs] at harg
      cases harg
    | some args =>
      rw [hargs] at harg
      exact ⟨args, rfl, harg⟩
  · cases harg

/-- A store through one pointer to plain old data is seen through a copy of the pointer. -/
theorem updateArgs_plainOldData (data : List UInt8)
    (harg : (h.args n)[index]? = some arg) (hvalue : h.value arg = .bytes (some bytes))
    (hpos : 0 < bytes.length) (hdata : data.length = bytes.length) :
    ∃ h', h.updateArgs n [(index, .plainOldData data arg.size)] = some (h', .success) ∧
      h'.kernelArgs = h.kernelArgs ∧ h'.value arg = .bytes (some data) := by
  obtain ⟨hspace, hkind, block, offset, hpayload, hload⟩ := value_eq_bytes hvalue
  obtain ⟨args, hargs, hindex⟩ := getElem?_of_args harg
  have hsize : bytes.length = arg.size.toNat := by
    obtain ⟨content, -, hroom, rfl⟩ := loadAt_eq_some_iff.1 hload
    exact length_take_of_le hroom
  obtain ⟨podData, hstore⟩ := storeAt_of_loadAt hload (hdata.trans hsize) (hsize ▸ hpos)
  have htake : takeExactly data arg.size.toNat = some data := by
    rw [takeExactly, if_pos (by omega), take_of_length_le (by omega)]
  refine ⟨{ h with podData }, ?_, rfl, ?_⟩
  · simp only [Heap.updateArgs, Heap.updateArg, hargs, hindex, hpayload, htake, hstore,
      Option.bind_eq_bind, Option.bind_some, Option.pure_def]
  · have hloaded := loadAt_of_storeAt hstore
    rw [hdata, hsize] at hloaded
    simp only [Heap.value, hspace, hkind, hpayload, Heap.load, hloaded]

variable {w w' : World Heap NDRange} {buffer : Nat} {commands : List (Command NDRange)}
  {values : List ArgValue}

theorem getElem?_values {i : Nat}
    (hcommands : w.buffers[buffer]? = some commands) (hcommand : commands[i]? = some (.ndrange n))
    (harg : (w.heap.args n)[index]? = some arg) :
    ((w.values Heap.values buffer)[i]?.bind id).bind (·[index]?) = some (w.heap.value arg) := by
  simp only [World.values, hcommands, Option.getD_some, getElem?_map, hcommand, Option.map_some,
    Option.bind_some, Command.values, id, Heap.values, harg]

theorem mem_values (hcommands : w.buffers[buffer]? = some commands)
    (hvalues : some values ∈ w.values Heap.values buffer) (hvalue : value ∈ values) :
    ∃ (i : Nat) (n : NDRange) (index : Nat) (arg : HalArg), commands[i]? = some (.ndrange n) ∧
      (w.heap.args n)[index]? = some arg ∧ w.heap.value arg = value := by
  rw [World.values, hcommands] at hvalues
  obtain ⟨command, hcommand, heq⟩ := mem_map.1 hvalues
  obtain ⟨i, hi⟩ := mem_iff_getElem?.1 hcommand
  cases command with
  | other => cases heq
  | ndrange n =>
    cases heq
    obtain ⟨arg, harg, rfl⟩ := mem_map.1 hvalue
    obtain ⟨index, hindex⟩ := mem_iff_getElem?.1 harg
    exact ⟨i, n, index, arg, hi, hindex, rfl⟩

/-- The clone stores another first byte of plain old data, and the original reads it. -/
theorem noPlainOldData_of_independentClone (hinv : w.Inv Heap.PodsAllocated Heap.ArgsAllocated)
    (hclone : (target wordSize).cloneCommandBuffer w buffer = some w')
    (hindependent :
      IndependentClone (target wordSize) Heap.values w' buffer w.buffers.length)
    (hvalues : some values ∈ w.values Heap.values buffer) :
    NoPlainOldData values := by
  intro bytes hbytes
  obtain ⟨commands, cloned, hcommands, hbuffers, -, hkeeps, hcloned⟩ :=
    (ownsBlocks wordSize).cloneCommandBuffer hinv hclone
  obtain ⟨horiginal, hlast⟩ := getElem?_buffers_of_append hcommands hbuffers
  obtain ⟨i, n, index, arg, hcommand, harg, hvalue⟩ := mem_values hcommands hvalues hbytes
  obtain ⟨n', hcommand', hview'⟩ := getElem?_of_cloned hcloned hcommand
  have hview := (hkeeps n (hinv.of_getElem? hcommands n (mem_of_getElem? hcommand))).2
  have hposition : (w.heap.view n)[index]? = some (arg, .bytes (some bytes)) := by
    rw [Heap.view, getElem?_map, harg, Option.map_some, hvalue]
  obtain ⟨harg₁, hvalue₁⟩ := Heap.getElem?_view (hview ▸ hposition)
  obtain ⟨harg₂, hvalue₂⟩ := Heap.getElem?_view (hview' ▸ hposition)
  cases bytes with
  | nil => rfl
  | cons byte rest =>
    obtain ⟨h', hupdate, hkernelArgs, hvalue'⟩ :=
      updateArgs_plainOldData ((byte + 1) :: rest) harg₂ hvalue₂ (Nat.succ_pos _) rfl
    have hstep : (target wordSize).updateDescriptors w.buffers.length w'
        ⟨i, [(index, .plainOldData ((byte + 1) :: rest) arg.size)]⟩ = some { w' with heap := h' } := by
      simp only [Target.updateDescriptors, hlast, hcommand', target, hupdate, Option.bind_eq_bind,
        Option.bind_some, Option.pure_def]
    have hunchanged := hindependent.original_unchanged _ (Runs.refl.tail trivial hstep)
    have hafter := getElem?_values (w := { w' with heap := h' }) horiginal hcommand
      (by rw [Heap.args, hkernelArgs]; exact harg₁)
    rw [hunchanged, getElem?_values horiginal hcommand harg₁, hvalue₁, hvalue'] at hafter
    simp at hafter

theorem independentClone_iff (hreach : (target wordSize).Reachable w)
    (hclone : (target wordSize).cloneCommandBuffer w buffer = some w') :
    IndependentClone (target wordSize) Heap.values w' buffer w.buffers.length ↔
      ∀ values, some values ∈ w.values Heap.values buffer → NoPlainOldData values := by
  have hinv := (ownsBlocks wordSize).inv hreach
  constructor
  · intro hindependent values hvalues
    exact noPlainOldData_of_independentClone hinv hclone hindependent hvalues
  · intro hnone
    have hquiet : ∀ view, some view ∈ w.values Heap.view buffer →
        NoPlainOldData (view.map (·.2)) := by
      intro view hview
      obtain ⟨command, hcommand, heq⟩ := mem_map.1 hview
      apply hnone
      apply mem_map.2
      refine ⟨command, hcommand, ?_⟩
      cases command with
      | other => cases heq
      | ndrange =>
        cases heq
        rw [Command.values, Heap.map_snd_view]
    have hviews := (ownsBlocks wordSize).independentClone hinv hclone hquiet
    have hvalues := hviews.map (fun view => view.map (·.2))
    simp only [Heap.map_snd_view] at hvalues
    exact hvalues

end ConstructionKit.Riscv.CommandBuffer
