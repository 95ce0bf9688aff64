import ConstructionKit.Usm.Allocations
import ConstructionKit.ProofKit.Lists
import ConstructionKit.ProofKit.Runs

/-! A blocking free and the commands that use the allocation. -/

namespace ConstructionKit.Usm

open ProofKit List

/-! ### Uses -/

/-- The flag with which a kernel may use every allocation of a kind. -/
def Kernel.indirectAccess (k : Kernel) : Placement → Bool
  | .host => k.indirectHostAccess
  | .device _ => k.indirectDeviceAccess
  | .shared _ => k.indirectSharedAccess

/-- A pointer to the allocation is an argument of the kernel. -/
def Kernel.HasArg (k : Kernel) (a : AllocationInfo) : Prop :=
  ∃ i ptr, k.savedArgs i = some ptr ∧ a.isOwnerOf ptr

def Kernel.Uses (k : Kernel) (a : AllocationInfo) : Prop :=
  k.HasArg a ∨ some a.id ∈ k.indirectUsmAllocs ∨ k.indirectAccess a.placement

/-- The uses for which no event is recorded: through an argument or the flag for shared allocations,
if the allocation is not listed, and the flag that counts, for its having a device or not, is not
set. -/
def Kernel.UsesUnrecorded (k : Kernel) (a : AllocationInfo) : Prop :=
  (k.HasArg a ∨ (∃ device, a.placement = .shared device) ∧ k.indirectSharedAccess) ∧
    some a.id ∉ k.indirectUsmAllocs ∧
    ¬(if a.getDevice.isNone then k.indirectHostAccess else k.indirectDeviceAccess)

/-- The allocations that the command of a step uses. -/
def Step.Uses (s : Context) (a : AllocationInfo) : Step → Prop
  | .ndRangeKernel kernel _ => (s.kernels kernel).Uses a
  | .memFill _ dstPtr _ => a.isOwnerOf dstPtr
  | .memcpy _ dstPtr srcPtr _ _ => a.isOwnerOf dstPtr ∨ a.isOwnerOf srcPtr
  | .migrateMem ptr _ => a.isOwnerOf ptr
  | .memAlloc .. | .memFree _ | .memBlockingFree _ | .setKernelArg .. | .setUsmPtrs ..
  | .setIndirectAccess .. | .complete _ => False

def Step.UsesUnrecorded (s : Context) (a : AllocationInfo) : Step → Prop
  | .ndRangeKernel kernel _ => (s.kernels kernel).UsesUnrecorded a
  | .memFill .. | .memcpy .. | .migrateMem .. | .memAlloc .. | .memFree _ | .memBlockingFree _
  | .setKernelArg .. | .setUsmPtrs .. | .setIndirectAccess .. | .complete _ => False

/-! ### What happened -/

/-- The context, with the events of the commands that use an allocation, and of those among them that
were not recorded. -/
structure History where
  context : Context
  uses : Nat → Nat → Prop
  unrecorded : Nat → Nat → Prop

namespace History

def init (supportsHost : Nat → Bool) : History :=
  ⟨.create supportsHost, fun _ _ => False, fun _ _ => False⟩

/-- A step; a blocking free that still waits does nothing. -/
def next (h : History) (label : Step) : History :=
  match h.context.step label with
  | none => h
  | some (enqueued, context) =>
    { context
      uses := fun event id => h.uses event id ∨ enqueued = true ∧ event = h.context.nextEvent ∧
        ∃ a ∈ h.context.usmAllocations, a.id = id ∧ label.Uses h.context a
      unrecorded := fun event id => h.unrecorded event id ∨ enqueued = true ∧
        event = h.context.nextEvent ∧
        ∃ a ∈ h.context.usmAllocations, a.id = id ∧ label.UsesUnrecorded h.context a }

/-- A blocking free of `ptr` returns, and the allocation is gone. -/
def Frees (h : History) (ptr : Nat) (a : AllocationInfo) : Prop :=
  ∃ context, h.context.memBlockingFree ptr = some context ∧ a ∈ h.context.usmAllocations ∧
    a ∉ context.usmAllocations

/-- What a blocking free frees is used by no command that is not finished. -/
def Works (h : History) : Step → Prop
  | .memBlockingFree ptr => ∀ a, h.Frees ptr a → ∀ event, h.uses event a.id → h.context.finished event
  | .ndRangeKernel .. | .memFill .. | .memcpy .. | .migrateMem .. | .memAlloc .. | .memFree _
  | .setKernelArg .. | .setUsmPtrs .. | .setIndirectAccess .. | .complete _ => True

/-- What a blocking free frees is used unrecorded by no command that is not finished. -/
def Handled (h : History) : Step → Prop
  | .memBlockingFree ptr =>
    ∀ a, h.Frees ptr a → ∀ event, h.unrecorded event a.id → h.context.finished event
  | .ndRangeKernel .. | .memFill .. | .memcpy .. | .migrateMem .. | .memAlloc .. | .memFree _
  | .setKernelArg .. | .setUsmPtrs .. | .setIndirectAccess .. | .complete _ => True

end History

/-! ### Recorded events -/

variable {s : Context} {h : History} {label : Step}

theorem Context.mem_recordEvent (s : Context) (id id' event event' : Nat) :
    event' ∈ (s.recordEvent id event).queuedCommands id' ↔
      event' ∈ s.queuedCommands id' ∨ event' = event ∧ id' = id := by
  by_cases hid : id' = id <;> simp [recordEvent, hid]

theorem Context.mem_recordEvents (s : Context) (ids : List Nat) (id event event' : Nat) :
    event' ∈ (s.recordEvents ids event).queuedCommands id ↔
      event' ∈ s.queuedCommands id ∨ event' = event ∧ id ∈ ids := by
  induction ids generalizing s with
  | nil => simp [recordEvents]
  | cons first ids ih =>
    change event' ∈ ((s.recordEvent first event).recordEvents ids event).queuedCommands id ↔ _
    rw [ih, mem_recordEvent]
    simp only [mem_cons]
    tauto

theorem Context.usmAllocations_recordEvents (s : Context) (ids : List Nat) (event : Nat) :
    (s.recordEvents ids event).usmAllocations = s.usmAllocations := by
  induction ids generalizing s with
  | nil => rfl
  | cons first ids ih => exact ih (s.recordEvent first event)

/-- No address is in two allocations. -/
def Context.Disjoint (s : Context) : Prop :=
  ∀ a ∈ s.usmAllocations, ∀ b ∈ s.usmAllocations, ∀ ptr, a.isOwnerOf ptr → b.isOwnerOf ptr → a = b

variable {a : AllocationInfo} {context : Context} {k : Kernel} {ptr : Nat}

theorem Context.Disjoint.findAllocation (hs : s.Disjoint)
    (ha : a ∈ s.usmAllocations) (howns : a.isOwnerOf ptr) : s.findAllocation ptr = some a := by
  unfold Context.findAllocation
  cases hfind : s.usmAllocations.find? (·.isOwnerOf ptr) with
  | none => exact absurd howns (find?_eq_none.1 hfind a ha)
  | some b =>
    have hb := mem_of_find?_eq_some hfind
    have howns' := find?_some hfind
    rw [hs b hb a ha ptr howns' howns]

/-- A call that keeps the allocations and the recorded events. -/
structure Context.Keeps (s s' : Context) : Prop where
  usmAllocations : s'.usmAllocations = s.usmAllocations
  queuedCommands : ∀ id, s.queuedCommands id ⊆ s'.queuedCommands id

theorem Context.Keeps.refl (s : Context) : s.Keeps s := ⟨rfl, fun _ => List.Subset.refl _⟩

theorem Context.Keeps.trans {s₁ s₂ s₃ : Context} (h : s₁.Keeps s₂) (h' : s₂.Keeps s₃) : s₁.Keeps s₃ :=
  ⟨h'.usmAllocations.trans h.usmAllocations,
    fun id => List.Subset.trans (h.queuedCommands id) (h'.queuedCommands id)⟩

theorem Context.keeps_createEvent (s : Context) : s.Keeps s.createEvent.2 :=
  ⟨rfl, fun _ => List.Subset.refl _⟩

theorem Context.keeps_complete (s : Context) (event : Nat) : s.Keeps (s.complete event) :=
  ⟨rfl, fun _ => List.Subset.refl _⟩

theorem Context.keeps_recordEvents (s : Context) (ids : List Nat) (event : Nat) :
    s.Keeps (s.recordEvents ids event) :=
  ⟨usmAllocations_recordEvents s ids event, fun _ _ hevent => (mem_recordEvents ..).2 (.inl hevent)⟩

theorem Context.keeps_examineOperand (s : Context) (ptr queueDevice event : Nat) :
    s.Keeps (s.examineOperand ptr queueDevice event).2 := by
  unfold examineOperand
  split
  · exact .refl s
  · next a _ => exact s.keeps_recordEvents [a.id] event

theorem Context.Disjoint.mem_examineOperand (hs : s.Disjoint)
    (ha : a ∈ s.usmAllocations) (howns : a.isOwnerOf ptr) (queueDevice event : Nat) :
    event ∈ (s.examineOperand ptr queueDevice event).2.queuedCommands a.id := by
  rw [examineOperand, hs.findAllocation ha howns]
  exact (s.mem_recordEvent ..).2 (.inr ⟨rfl, rfl⟩)

/-! ### Kernels -/

theorem Context.keeps_createBlockingEventForKernel (s : Context) (kernel event : Nat) :
    s.Keeps (s.createBlockingEventForKernel kernel event) := by
  have hlisted := s.keeps_recordEvents ((s.kernels kernel).indirectUsmAllocs.filterMap id) event
  unfold createBlockingEventForKernel
  dsimp only
  split
  · exact hlisted.trans (keeps_recordEvents ..)
  · exact hlisted

/-- The event of a kernel is recorded for the listed allocations, and for those of a flag. -/
theorem Context.mem_createBlockingEventForKernel (s : Context)
    (ha : a ∈ s.usmAllocations) (kernel event : Nat)
    (hused : some a.id ∈ (s.kernels kernel).indirectUsmAllocs ∨ isIndirectAlloc (s.kernels kernel) a) :
    event ∈ (s.createBlockingEventForKernel kernel event).queuedCommands a.id := by
  unfold createBlockingEventForKernel
  dsimp only
  rcases hused with hlisted | hflag
  · have hmem : a.id ∈ (s.kernels kernel).indirectUsmAllocs.filterMap fun alloc => alloc :=
      mem_filterMap.2 ⟨_, hlisted, rfl⟩
    have hrecorded := (s.mem_recordEvents _ a.id event event).2 (.inr ⟨rfl, hmem⟩)
    split
    · exact (keeps_recordEvents ..).queuedCommands _ hrecorded
    · exact hrecorded
  · rw [if_pos]
    · refine (mem_recordEvents ..).2 (.inr ⟨rfl, mem_map_of_mem (mem_filter.2 ⟨?_, hflag⟩)⟩)
      rwa [usmAllocations_recordEvents]
    · unfold isIndirectAlloc at hflag
      simp only [Bool.or_eq_true, Bool.and_eq_true] at hflag ⊢
      tauto

theorem Kernel.Uses.recorded_or (huses : k.Uses a) :
    some a.id ∈ k.indirectUsmAllocs ∨ Context.isIndirectAlloc k a ∨ k.UsesUnrecorded a := by
  by_cases hlisted : some a.id ∈ k.indirectUsmAllocs
  · exact .inl hlisted
  · refine .inr ?_
    by_cases hflag : Context.isIndirectAlloc k a
    · exact .inl hflag
    · refine .inr ⟨?_, hlisted, ?_⟩
      · rcases huses with harg | hlisted' | haccess
        · exact .inl harg
        · exact absurd hlisted' hlisted
        · cases hplacement : a.placement with
          | shared device =>
            rw [hplacement] at haccess
            exact .inr ⟨⟨device, rfl⟩, haccess⟩
          | host | device =>
            simp_all [Context.isIndirectAlloc, AllocationInfo.getDevice, Kernel.indirectAccess]
      · unfold Context.isIndirectAlloc at hflag
        cases hdevice : a.getDevice.isNone <;> simp_all

theorem Kernel.UsesUnrecorded.uses (h : k.UsesUnrecorded a) : k.Uses a := by
  obtain ⟨harg | ⟨⟨device, hshared⟩, hflag⟩, -⟩ := h
  · exact .inl harg
  · refine .inr (.inr ?_)
    rw [hshared]
    exact hflag

/-! ### Steps -/

theorem Context.Keeps.disjoint {s s' : Context} (h : s.Keeps s') (hs : s.Disjoint) : s'.Disjoint := by
  unfold Disjoint
  rw [h.usmAllocations]
  exact hs

theorem Context.Disjoint.of_subset {s s' : Context} (hs : s.Disjoint)
    (h : s'.usmAllocations ⊆ s.usmAllocations) : s'.Disjoint :=
  fun a ha b hb => hs a (h ha) b (h hb)

theorem Context.Disjoint.memAlloc (hs : s.Disjoint) (placement : Placement) (basePtr size : Nat) :
    (s.memAlloc placement basePtr size).Disjoint := by
  unfold Context.memAlloc
  split
  · exact hs
  · next hnew =>
    simp only [not_or, not_not, all_eq_true, Bool.or_eq_true, decide_eq_true_iff] at hnew
    intro a ha b hb ptr howns howns'
    simp only [AllocationInfo.isOwnerOf, Bool.and_eq_true, decide_eq_true_iff] at howns howns'
    rcases mem_append.1 ha with ha | ha <;> rcases mem_append.1 hb with hb | hb
    · exact hs a ha b hb ptr (by simp [AllocationInfo.isOwnerOf, howns])
        (by simp [AllocationInfo.isOwnerOf, howns'])
    · have := hnew.2.2 a ha
      obtain rfl := mem_singleton.1 hb
      simp only at howns'
      omega
    · have := hnew.2.2 b hb
      obtain rfl := mem_singleton.1 ha
      simp only at howns
      omega
    · rw [mem_singleton.1 ha, mem_singleton.1 hb]

/-- What a command's call does to the allocations and their events. -/
structure Context.Records (s s' : Context) (enqueued : Bool) (label : Step) : Prop where
  keeps : s.Keeps s'
  mem : enqueued = true → ∀ a ∈ s.usmAllocations, label.Uses s a →
    s.nextEvent ∈ s'.queuedCommands a.id ∨ label.UsesUnrecorded s a

theorem Context.records_ndRangeKernel (s : Context) (kernel : Nat) (accepted : Bool) :
    s.Records (s.enqueueNDRangeKernel kernel accepted).2 (s.enqueueNDRangeKernel kernel accepted).1
      (.ndRangeKernel kernel accepted) where
  keeps := s.keeps_createEvent.trans (keeps_createBlockingEventForKernel ..)
  mem _ a ha huses := by
    have hrecorded := s.createEvent.2.mem_createBlockingEventForKernel ha kernel s.nextEvent
    rcases huses.recorded_or with hlisted | hflag | hunrecorded
    · exact .inl (hrecorded (.inl hlisted))
    · exact .inl (hrecorded (.inr hflag))
    · exact .inr hunrecorded

theorem Context.Disjoint.records_memFill (hs : s.Disjoint) (queueDevice dstPtr : Nat) (accepted : Bool) :
    s.Records (s.memFill queueDevice dstPtr accepted).2 (s.memFill queueDevice dstPtr accepted).1
      (.memFill queueDevice dstPtr accepted) := by
  have hdisjoint := s.keeps_createEvent.disjoint hs
  have hkeeps := s.keeps_createEvent.trans (keeps_examineOperand _ dstPtr queueDevice s.nextEvent)
  have hmem : ∀ a ∈ s.usmAllocations, a.isOwnerOf dstPtr →
      s.nextEvent ∈ (s.createEvent.2.examineOperand dstPtr queueDevice s.nextEvent).2.queuedCommands a.id :=
    fun a ha howns => hdisjoint.mem_examineOperand ha howns queueDevice s.nextEvent
  unfold Context.memFill
  dsimp only [Context.createEvent] at hkeeps hmem ⊢
  split
  · exact ⟨hkeeps, nofun⟩
  · split
    · exact ⟨hkeeps, fun _ a ha huses => .inl (hmem a ha huses)⟩
    · exact ⟨hkeeps.trans (keeps_complete ..), nofun⟩

theorem Context.Disjoint.records_memcpy (hs : s.Disjoint) (queueDevice dstPtr srcPtr size : Nat)
    (accepted : Bool) :
    s.Records (s.memcpy queueDevice dstPtr srcPtr size accepted).2
      (s.memcpy queueDevice dstPtr srcPtr size accepted).1
      (.memcpy queueDevice dstPtr srcPtr size accepted) := by
  have hdisjoint := s.keeps_createEvent.disjoint hs
  have hsrc := s.createEvent.2.keeps_examineOperand srcPtr queueDevice s.nextEvent
  have hdst := keeps_examineOperand (s.createEvent.2.examineOperand srcPtr queueDevice s.nextEvent).2
    dstPtr queueDevice s.nextEvent
  have hkeeps := (s.keeps_createEvent.trans hsrc).trans hdst
  have hmemSrc : ∀ a ∈ s.usmAllocations, a.isOwnerOf srcPtr → s.nextEvent ∈
      (s.createEvent.2.examineOperand srcPtr queueDevice s.nextEvent).2.queuedCommands a.id :=
    fun a ha howns => hdisjoint.mem_examineOperand ha howns queueDevice s.nextEvent
  have hmemDst : ∀ a ∈ s.usmAllocations, a.isOwnerOf dstPtr → s.nextEvent ∈
      ((s.createEvent.2.examineOperand srcPtr queueDevice s.nextEvent).2.examineOperand dstPtr
        queueDevice s.nextEvent).2.queuedCommands a.id := by
    intro a ha howns
    exact (hsrc.disjoint hdisjoint).mem_examineOperand (hsrc.usmAllocations ▸ ha) howns ..
  unfold Context.memcpy
  split
  · exact ⟨.refl s, nofun⟩
  · dsimp only [Context.createEvent] at hkeeps hmemSrc hmemDst hdst ⊢
    split
    · refine ⟨hkeeps, fun _ a ha huses => .inl ?_⟩
      rcases huses with howns | howns
      · exact hmemDst a ha howns
      · exact hdst.queuedCommands a.id (hmemSrc a ha howns)
    · exact ⟨hkeeps.trans (keeps_complete ..), nofun⟩

theorem Context.Disjoint.records_migrateMem (hs : s.Disjoint) (ptr size : Nat) :
    s.Records (s.migrateMem ptr size).2 (s.migrateMem ptr size).1 (.migrateMem ptr size) := by
  unfold Context.migrateMem
  dsimp only
  split
  · exact ⟨s.keeps_createEvent, nofun⟩
  · next a hfind =>
    split
    · exact ⟨s.keeps_createEvent, nofun⟩
    · refine ⟨s.keeps_createEvent.trans (keeps_recordEvents _ [a.id] _), fun _ b hb howns => .inl ?_⟩
      cases hfind.symm.trans ((s.keeps_createEvent.disjoint hs).findAllocation hb howns)
      exact (mem_recordEvent ..).2 (.inr ⟨rfl, rfl⟩)

/-- A blocking free that returns: it frees the allocation at `ptr`, whose events are finished. -/
theorem Context.memBlockingFree_frees {s' : Context} (hfree : s.memBlockingFree ptr = some s') :
    s'.usmAllocations ⊆ s.usmAllocations ∧ s'.queuedCommands = s.queuedCommands ∧
      ∀ a ∈ s.usmAllocations, a ∉ s'.usmAllocations → ∀ event ∈ s.queuedCommands a.id, s.finished event := by
  unfold memBlockingFree at hfree
  split at hfree
  · cases hfree
    exact ⟨List.Subset.refl _, rfl, fun a ha hfreed => absurd ha hfreed⟩
  · split at hfree
    · cases hfree
      exact ⟨List.Subset.refl _, rfl, fun a ha hfreed => absurd ha hfreed⟩
    · next b hfind =>
      split at hfree
      · next hall =>
        cases hfree
        refine ⟨eraseP_subset, rfl, fun a ha hfreed event hevent => ?_⟩
        rcases mem_cons.1 ((find_perm_eraseP hfind).mem_iff.1 ha) with rfl | hkept
        · exact all_eq_true.1 hall event hevent
        · exact absurd hkept hfreed
      · cases hfree

/-! ### Runs -/

structure History.Inv (h : History) : Prop where
  disjoint : h.context.Disjoint
  recorded : ∀ event id, h.uses event id →
    event ∈ h.context.queuedCommands id ∨ h.unrecorded event id
  used : ∀ event id, h.unrecorded event id → h.uses event id

theorem History.init_inv (supportsHost : Nat → Bool) : (init supportsHost).Inv := ⟨nofun, nofun, nofun⟩

theorem Step.UsesUnrecorded.uses (h : label.UsesUnrecorded s a) : label.Uses s a := by
  cases label with
  | ndRangeKernel => exact Kernel.UsesUnrecorded.uses h
  | _ => cases h

theorem History.Inv.of_context (hinv : h.Inv)
    (hstep : h.context.step label = some (false, context)) (hdisjoint : context.Disjoint)
    (hqueued : context.queuedCommands = h.context.queuedCommands) : (h.next label).Inv := by
  simp only [next, hstep, Bool.false_eq_true, false_and, or_false]
  refine ⟨hdisjoint, ?_, hinv.used⟩
  rw [hqueued]
  exact hinv.recorded

theorem History.Inv.of_records (hinv : h.Inv) {enqueued : Bool}
    (hstep : h.context.step label = some (enqueued, context))
    (hrecords : h.context.Records context enqueued label) : (h.next label).Inv := by
  simp only [next, hstep]
  refine ⟨hrecords.keeps.disjoint hinv.disjoint, ?_, ?_⟩
  · rintro event id (hold | ⟨henqueued, rfl, a, ha, rfl, huses⟩)
    · rcases hinv.recorded event id hold with hmem | hunrecorded
      · exact .inl (hrecords.keeps.queuedCommands id hmem)
      · exact .inr (.inl hunrecorded)
    · rcases hrecords.mem henqueued a ha huses with hmem | hunrecorded
      · exact .inl hmem
      · exact .inr (.inr ⟨henqueued, rfl, a, ha, rfl, hunrecorded⟩)
  · rintro event id (hold | ⟨henqueued, rfl, a, ha, rfl, hunrecorded⟩)
    · exact .inl (hinv.used event id hold)
    · exact .inr ⟨henqueued, rfl, a, ha, rfl, hunrecorded.uses⟩

theorem History.Inv.next (hinv : h.Inv) (label : Step) : (h.next label).Inv := by
  cases label with
  | memAlloc placement basePtr size =>
    refine hinv.of_context rfl (hinv.disjoint.memAlloc placement basePtr size) ?_
    unfold Context.memAlloc
    split <;> rfl
  | memFree =>
    refine hinv.of_context rfl (hinv.disjoint.of_subset ?_) ?_
    all_goals
      unfold Context.memFree
      split
    · exact List.Subset.refl _
    · exact eraseP_subset
    · rfl
    · rfl
  | memBlockingFree ptr =>
    cases hfree : h.context.memBlockingFree ptr with
    | none => simpa [History.next, Context.step, hfree] using hinv
    | some =>
      obtain ⟨hsubset, hqueued, -⟩ := Context.memBlockingFree_frees hfree
      refine hinv.of_context ?_ (hinv.disjoint.of_subset hsubset) hqueued
      rw [Context.step, hfree]
      rfl
  | setKernelArg | setUsmPtrs | setIndirectAccess | complete =>
    exact hinv.of_context rfl hinv.disjoint rfl
  | ndRangeKernel => exact hinv.of_records rfl (Context.records_ndRangeKernel ..)
  | memFill => exact hinv.of_records rfl (hinv.disjoint.records_memFill ..)
  | memcpy =>
    exact hinv.of_records rfl (hinv.disjoint.records_memcpy ..)
  | migrateMem => exact hinv.of_records rfl (hinv.disjoint.records_migrateMem ..)

theorem History.Inv.works_iff (hinv : h.Inv) : h.Works label ↔ h.Handled label := by
  cases label with
  | memBlockingFree =>
    refine forall₂_congr fun a hfrees => ?_
    constructor
    · intro hworks event hunrecorded
      exact hworks event (hinv.used event a.id hunrecorded)
    · intro hhandled event huses
      rcases hinv.recorded event a.id huses with hmem | hunrecorded
      · obtain ⟨s', hfree, ha, hfreed⟩ := hfrees
        exact (Context.memBlockingFree_frees hfree).2.2 a ha hfreed event hmem
      · exact hhandled event hunrecorded
  | _ => exact Iff.rfl

/-- A blocking free waits for every user of the allocation, along every sequence of calls and
completions, if at each one no unfinished kernel uses the allocation only through an argument or the
flag for shared allocations. -/
theorem blockingFree_waits_iff (supportsHost : Nat → Bool) (labels : List Step) :
    Along History.next History.Works (.init supportsHost) labels ↔
      Along History.next History.Handled (.init supportsHost) labels :=
  along_iff_along History.Inv (fun hinv => hinv.works_iff) (fun hinv _ => hinv.next _)
    (History.init_inv supportsHost)

/-- A kernel that has a pointer to a device allocation for an argument, and one that may use all shared
allocations: both are not finished when the allocation is freed. -/
theorem freed_in_use :
    ¬Along History.next History.Works (.init fun _ => true)
        [.memAlloc (.device 0) 16 4, .setKernelArg 0 0 (some 16), .ndRangeKernel 0 true,
          .memBlockingFree 16] ∧
      ¬Along History.next History.Works (.init fun _ => true)
        [.memAlloc (.shared (some 0)) 16 4, .setIndirectAccess 0 false false true,
          .ndRangeKernel 0 true, .memBlockingFree 16] := by
  refine ⟨fun halong => ?_, fun halong => ?_⟩
  · obtain ⟨-, -, -, hworks, -⟩ := halong
    have hfinished := hworks ⟨0, .device 0, 16, 4⟩ ⟨_, rfl, mem_cons_self, nofun⟩ 0
      (.inr ⟨rfl, rfl, _, mem_cons_self, rfl, .inl ⟨0, 16, rfl, rfl⟩⟩)
    cases hfinished
  · obtain ⟨-, -, -, hworks, -⟩ := halong
    have hfinished := hworks ⟨0, .shared (some 0), 16, 4⟩ ⟨_, rfl, mem_cons_self, nofun⟩ 0
      (.inr ⟨rfl, rfl, _, mem_cons_self, rfl, .inr (.inr rfl)⟩)
    cases hfinished

end ConstructionKit.Usm
