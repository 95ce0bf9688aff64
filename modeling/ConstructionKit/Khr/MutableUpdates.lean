import ConstructionKit.Khr.MutableDispatch
import ConstructionKit.ProofKit.Lists
import ConstructionKit.ProofKit.Runs

/-! Which arguments the executions of a mutable command buffer use. -/

namespace ConstructionKit.Khr.Mutable

open ProofKit List

variable {β : Type}

/-! ### Updates of tables -/

/-- A table by commands and arguments, with what `f` makes of the descriptors of an update. -/
def assignArgs (f : Descriptor → β) (table : Nat → Nat → β) (id : Nat)
    (args : List (Nat × Descriptor)) : Nat → Nat → β :=
  args.foldl (fun table arg => Function.update table id (Function.update (table id) arg.1 (f arg.2))) table

def assign (f : Descriptor → β) (table : Nat → Nat → β) (updates : List UpdateInfo) : Nat → Nat → β :=
  updates.foldl (fun table update => assignArgs f table update.id update.args) table

/-- The last descriptor of an argument. -/
def last (updates : List UpdateInfo) : Nat → Nat → Option Descriptor := assign some (fun _ _ => none) updates

variable {f : Descriptor → β} {table table' : Nat → Nat → β} {found : Nat → Nat → Option Descriptor}
  {c a : Nat}

theorem assignArgs_apply (id : Nat) (args : List (Nat × Descriptor))
    (h : table' c a = (found c a).elim (table c a) f) :
    assignArgs f table' id args c a = (assignArgs some found id args c a).elim (table c a) f := by
  induction args generalizing table' found with
  | nil => exact h
  | cons arg args ih =>
    refine ih ?_
    by_cases hc : c = id
    · subst hc
      by_cases ha : a = arg.1
      · simp [ha]
      · simp [ha, h]
    · simp [hc, h]

theorem assign_apply' (updates : List UpdateInfo) (h : table' c a = (found c a).elim (table c a) f) :
    assign f table' updates c a = (assign some found updates c a).elim (table c a) f := by
  induction updates generalizing table' found with
  | nil => exact h
  | cons update updates ih => exact ih (assignArgs_apply update.id update.args h)

theorem assign_apply (f : Descriptor → β) (table : Nat → Nat → β) (updates : List UpdateInfo) (c a : Nat) :
    assign f table updates c a = (last updates c a).elim (table c a) f :=
  assign_apply' updates rfl

theorem assign_append (f : Descriptor → β) (table : Nat → Nat → β) (updates updates' : List UpdateInfo) :
    assign f table (updates ++ updates') = assign f (assign f table updates) updates' :=
  foldl_append

/-- What is not by value is the same whenever it is read. -/
theorem Descriptor.read_eq {d : Descriptor} (h : d.byValue = false) (memory memory' : Memory) :
    d.read memory = d.read memory' := by
  cases d with
  | plainOldData => cases h
  | _ => rfl

/-! ### Loops over updates -/

theorem applyUpdates_ok (memory : Memory) (contents : Contents) (updates : List UpdateInfo)
    (h : ∀ update ∈ updates, update.args ≠ []) :
    applyUpdates memory contents updates = (.ok (), assign (·.read memory) contents updates) := by
  induction updates generalizing contents with
  | nil => rfl
  | cons update updates ih =>
    have hargs := h update mem_cons_self
    rw [applyUpdates, muxUpdateDescriptors, if_neg (by simpa using hargs)]
    exact ih _ fun update' hmem => h update' (mem_cons_of_mem _ hmem)

theorem applyUpdates_error (memory : Memory) (contents : Contents) (updates : List UpdateInfo)
    (h : ∃ update ∈ updates, update.args = []) :
    (applyUpdates memory contents updates).1 = .error .invalidValue := by
  induction updates generalizing contents with
  | nil =>
    obtain ⟨update, hmem, -⟩ := h
    cases hmem
  | cons update updates ih =>
    rw [applyUpdates, muxUpdateDescriptors]
    split
    · next e herror =>
      split at herror
      · cases herror
        rfl
      · cases herror
    · next contents' hok =>
      split at hok
      · cases hok
      · next hargs =>
        refine ih _ ?_
        obtain ⟨update', hmem, hempty⟩ := h
        rcases mem_cons.1 hmem with rfl | hmem
        · rw [hempty] at hargs
          exact absurd rfl hargs
        · exact ⟨update', hmem, hempty⟩

/-! ### What happened -/

/-- A command buffer, with the arguments that its next execution has to use, those that each execution
in flight has to use, and the arguments that may have other values: those that were updated by value,
or by a call that failed, since the last enqueue, and those whose update was for a clone. -/
structure History where
  commandBuffer : CommandBuffer
  memory : Memory
  expected : Contents
  owed : List Contents
  atRisk : Nat → Nat → Bool

inductive Step where
  | record (command : Option MutableCommand) (args : Nat → Value)
  | finalize
  | update (mutableConfig : Option BaseConfig)
  | enqueue
  | complete (i : Nat)
  | setMemory (memory : Memory)

namespace History

def init (supportsSimultaneousUse isMutable : Bool) (memory : Memory) : History where
  commandBuffer := .create supportsSimultaneousUse isMutable
  memory
  expected _ _ := .null
  owed := []
  atRisk _ _ := false

/-- `clUpdateMutableCommandsKHR`; a call that fails gives no argument a value. -/
def update (isBuffer : Nat → Bool) (h : History) (mutableConfig : Option BaseConfig) : History :=
  let (result, updates) := h.commandBuffer.clUpdateMutableCommands isBuffer h.memory mutableConfig
  let h := { h with commandBuffer.updates := h.commandBuffer.updates ++ updates }
  match result with
  | .ok () =>
    { h with
      expected := assign (·.read h.memory) h.expected updates
      atRisk := assign (·.byValue) h.atRisk updates }
  | .error _ => { h with atRisk := assign (fun _ => true) h.atRisk updates }

/-- `clEnqueueCommandBufferKHR` -/
def enqueue (h : History) : History :=
  match h.commandBuffer.clEnqueueCommandBuffer h.memory with
  | (.error _, s) => { h with commandBuffer := s }
  | (.ok (), s) =>
    { h with
      commandBuffer := s
      owed := h.owed ++ [h.expected]
      atRisk :=
        if 0 < h.commandBuffer.executionRefcount then
          assign (fun _ => true) (fun _ _ => false) h.commandBuffer.updates
        else fun _ _ => false }

def next (isBuffer : Nat → Bool) (h : History) : Step → History
  | .record command args =>
    if h.commandBuffer.isFinalized then h
    else { h with
      commandBuffer := h.commandBuffer.record command args
      expected := Function.update h.expected h.commandBuffer.commands.length args }
  | .finalize => { h with commandBuffer := h.commandBuffer.finalize }
  | .update mutableConfig => h.update isBuffer mutableConfig
  | .enqueue => h.enqueue
  | .complete i => { h with commandBuffer := h.commandBuffer.complete i, owed := h.owed.eraseIdx i }
  | .setMemory memory => { h with memory }

/-- Each execution in flight finds the arguments that it has to use. -/
def Sound (h : History) : Prop :=
  List.Forall₂ (fun execution contents => h.commandBuffer.contentsOf execution = contents)
    h.commandBuffer.executions h.owed

def Works (isBuffer : Nat → Bool) (h : History) (label : Step) : Prop := (h.next isBuffer label).Sound

/-- An enqueue that succeeds finds the expected values of the arguments at risk. -/
def Handled (h : History) : Step → Prop
  | .enqueue =>
    (h.commandBuffer.clEnqueueCommandBuffer h.memory).1 = .ok () →
      ∀ c a, h.atRisk c a →
        (applyUpdates h.memory h.commandBuffer.muxCommandBuffer h.commandBuffer.updates).2 c a =
          h.expected c a
  | .record .. | .finalize | .update _ | .complete _ | .setMemory _ => True

end History

/-! ### The invariant -/

/-- An update without arguments, with which no enqueue can succeed. -/
def Stuck (updates : List UpdateInfo) : Prop := ∃ update ∈ updates, update.args = []

structure History.Inv (h : History) : Prop where
  count : h.commandBuffer.executionRefcount = h.commandBuffer.executions.length
  sound : h.Sound
  recording : h.commandBuffer.isFinalized = false →
    h.commandBuffer.updates = [] ∧ h.commandBuffer.executions = []
  current : Stuck h.commandBuffer.updates ∨ ∀ c a, h.atRisk c a = false → ∀ memory,
    assign (·.read memory) h.commandBuffer.muxCommandBuffer h.commandBuffer.updates c a = h.expected c a

variable {h : History} {label : Step} {updates : List UpdateInfo}

theorem History.init_inv (supportsSimultaneousUse isMutable : Bool) (memory : Memory) :
    (init supportsSimultaneousUse isMutable memory).Inv where
  count := rfl
  sound := .nil
  recording _ := ⟨rfl, rfl⟩
  current := .inr fun _ _ _ _ => rfl

theorem Stuck.append (h : Stuck updates) (updates' : List UpdateInfo) :
    Stuck (updates ++ updates') := by
  obtain ⟨update, hmem, hempty⟩ := h
  exact ⟨update, mem_append_left _ hmem, hempty⟩

theorem not_stuck : ¬Stuck updates ↔ ∀ update ∈ updates, update.args ≠ [] := by
  simp [Stuck]

/-! ### Steps -/

theorem History.Inv.record (hinv : h.Inv) (isBuffer : Nat → Bool) (command : Option MutableCommand)
    (args : Nat → Value) : (h.next isBuffer (.record command args)).Inv := by
  cases hfinal : h.commandBuffer.isFinalized with
  | true => simpa [next, hfinal] using hinv
  | false =>
    obtain ⟨hupdates, hexecutions⟩ := hinv.recording hfinal
    have hsound := hinv.sound
    have hcount := hinv.count
    have hcurrent := hinv.current.resolve_left (by simp [Stuck, hupdates])
    rw [Sound, hexecutions, forall₂_nil_left_iff] at hsound
    simp only [next, hfinal, CommandBuffer.record]
    refine ⟨hcount, ?_, fun _ => ⟨hupdates, hexecutions⟩, .inr fun c a hrisk memory => ?_⟩
    · simp [Sound, hexecutions, hsound]
    · have hold := hcurrent c a hrisk memory
      simp only [hupdates, assign, foldl_nil] at hold ⊢
      by_cases hc : c = h.commandBuffer.commands.length
      · simp [hc]
      · simp [hc, hold]

theorem History.Inv.update (hinv : h.Inv) (isBuffer : Nat → Bool) (mutableConfig : Option BaseConfig) :
    (h.update isBuffer mutableConfig).Inv := by
  unfold History.update
  have hfinal : h.commandBuffer.isFinalized = false →
      (h.commandBuffer.clUpdateMutableCommands isBuffer h.memory mutableConfig).2 = [] := by
    intro hfinal
    simp [CommandBuffer.clUpdateMutableCommands, hfinal]
  generalize h.commandBuffer.clUpdateMutableCommands isBuffer h.memory mutableConfig = called at hfinal
  obtain ⟨result, updates⟩ := called
  have hrecording : h.commandBuffer.isFinalized = false →
      h.commandBuffer.updates ++ updates = [] ∧ h.commandBuffer.executions = [] := by
    intro hfalse
    obtain ⟨hupdates, hexecutions⟩ := hinv.recording hfalse
    exact ⟨by rw [hupdates]; exact hfinal hfalse, hexecutions⟩
  cases result
  all_goals
    refine ⟨hinv.count, hinv.sound, hrecording, hinv.current.imp (·.append updates) fun hcurrent => ?_⟩
    intro c a hrisk memory
    change assign _ h.atRisk updates c a = false at hrisk
    change assign _ _ (h.commandBuffer.updates ++ updates) c a = _
    rw [assign_append, assign_apply]
    rw [assign_apply] at hrisk
    cases hlast : last updates c a
    all_goals rw [hlast] at hrisk
  case error.none => exact hcurrent c a hrisk memory
  case error.some => cases hrisk
  case ok.none =>
    change _ = assign _ h.expected updates c a
    rw [assign_apply _ h.expected, hlast]
    exact hcurrent c a hrisk memory
  case ok.some =>
    change _ = assign _ h.expected updates c a
    rw [assign_apply _ h.expected, hlast]
    exact Descriptor.read_eq hrisk ..

theorem History.Inv.complete (hinv : h.Inv) (isBuffer : Nat → Bool) (i : Nat) :
    (h.next isBuffer (.complete i)).Inv := by
  have hlength := List.Forall₂.length_eq hinv.sound
  simp only [next, CommandBuffer.complete]
  split
  · next hi =>
    refine ⟨?_, forall₂_eraseIdx hinv.sound i, fun hfinal => ?_, hinv.current⟩
    · simp [hinv.count, length_eraseIdx, hi]
    · obtain ⟨hupdates, hexecutions⟩ := hinv.recording hfinal
      exact ⟨hupdates, by simp [hexecutions]⟩
  · next hi =>
    rw [eraseIdx_of_length_le (by omega)]
    exact hinv

/-! ### Enqueues -/

/-- An enqueue fails, or is one of a clone, or of the command buffer's own mux command buffer. -/
theorem CommandBuffer.clEnqueueCommandBuffer_cases (s : CommandBuffer) (memory : Memory) :
    (∃ e contents, s.clEnqueueCommandBuffer memory = (.error e, { s with muxCommandBuffer := contents }) ∧
      (contents = s.muxCommandBuffer ∨ s.executionRefcount = 0 ∧ Stuck s.updates)) ∨
    (s.isFinalized = true ∧ ¬Stuck s.updates ∧ 0 < s.executionRefcount ∧
      s.clEnqueueCommandBuffer memory = (.ok (), { s with
        updates := []
        executionRefcount := s.executionRefcount + 1
        executions := s.executions ++
          [.clone (assign (·.read memory) s.muxCommandBuffer s.updates)] })) ∨
    (s.isFinalized = true ∧ ¬Stuck s.updates ∧ s.executionRefcount = 0 ∧
      s.clEnqueueCommandBuffer memory = (.ok (), { s with
        muxCommandBuffer := assign (·.read memory) s.muxCommandBuffer s.updates
        updates := []
        executionRefcount := s.executionRefcount + 1
        executions := s.executions ++ [.original] })) := by
  unfold clEnqueueCommandBuffer
  split
  · exact .inl ⟨_, _, rfl, .inl rfl⟩
  · next hfinal =>
    have hfinal : s.isFinalized = true := by simpa using hfinal
    split
    · exact .inl ⟨_, _, rfl, .inl rfl⟩
    · by_cases hstuck : Stuck s.updates
      · have herror := applyUpdates_error memory s.muxCommandBuffer s.updates hstuck
        unfold enqueueCommandBuffer
        split
        next result contents hresult =>
        rw [hresult] at herror
        cases herror
        split
        · exact .inl ⟨_, _, rfl, .inl rfl⟩
        · next hzero => exact .inl ⟨_, _, rfl, .inr ⟨Nat.eq_zero_of_not_pos hzero, hstuck⟩⟩
      · have hok := applyUpdates_ok memory s.muxCommandBuffer s.updates (not_stuck.1 hstuck)
        rw [enqueueCommandBuffer, hok]
        dsimp only
        split
        · next hpos => exact .inr (.inl ⟨hfinal, hstuck, hpos, rfl⟩)
        · next hzero => exact .inr (.inr ⟨hfinal, hstuck, Nat.eq_zero_of_not_pos hzero, rfl⟩)

/-- Where no enqueue is stuck, the arguments that are not at risk have their values. -/
theorem History.Inv.value_eq (hinv : h.Inv) (hstuck : ¬Stuck h.commandBuffer.updates) {c a : Nat}
    (hrisk : h.atRisk c a = false) :
    assign (·.read h.memory) h.commandBuffer.muxCommandBuffer h.commandBuffer.updates c a =
      h.expected c a :=
  hinv.current.resolve_left hstuck c a hrisk h.memory

/-- A successful enqueue is handled if it uses the expected arguments. -/
theorem History.Inv.handled_iff (hinv : h.Inv) (hstuck : ¬Stuck h.commandBuffer.updates)
    (hok : (h.commandBuffer.clEnqueueCommandBuffer h.memory).1 = .ok ()) :
    h.Handled .enqueue ↔
      assign (·.read h.memory) h.commandBuffer.muxCommandBuffer h.commandBuffer.updates = h.expected := by
  rw [Handled, applyUpdates_ok _ _ _ (not_stuck.1 hstuck)]
  constructor
  · intro hhandled
    funext c a
    cases hrisk : h.atRisk c a with
    | false => exact hinv.value_eq hstuck hrisk
    | true => exact hhandled hok c a hrisk
  · intro heq _ c a _
    exact congrFun (congrFun heq c) a

theorem History.Inv.enqueue (hinv : h.Inv) :
    (h.enqueue.Sound ↔ h.Handled .enqueue) ∧ (h.Handled .enqueue → h.enqueue.Inv) := by
  have hfalse : ∀ e : Error, (Except.error e : Except Error Unit) ≠ .ok () := nofun
  rcases h.commandBuffer.clEnqueueCommandBuffer_cases h.memory with
    ⟨e, contents, hcall, hcontents⟩ | ⟨hfinal, hstuck, hpos, hcall⟩ | ⟨hfinal, hstuck, hzero, hcall⟩
  · -- A failed enqueue may patch the original, but then there is no execution and none to come.
    have hinv' : h.enqueue.Inv := by
      simp only [History.enqueue, hcall]
      rcases hcontents with rfl | ⟨hzero, hstuck⟩
      · exact hinv
      · have hexecutions := eq_nil_of_length_eq_zero (hinv.count.symm.trans hzero)
        have hsound := hinv.sound
        rw [Sound, hexecutions, forall₂_nil_left_iff] at hsound
        refine ⟨hinv.count, ?_, hinv.recording, .inl hstuck⟩
        simp [Sound, hexecutions, hsound]
    have hhandled : h.Handled .enqueue := by
      rw [Handled, hcall]
      exact fun hok => absurd hok (hfalse e)
    exact ⟨iff_of_true hinv'.sound hhandled, fun _ => hinv'⟩
  · have hsound : h.enqueue.Sound ↔
        assign (·.read h.memory) h.commandBuffer.muxCommandBuffer h.commandBuffer.updates =
          h.expected := by
      simp only [History.enqueue, hcall]
      exact forall₂_concat_iff hinv.sound
    rw [hinv.handled_iff hstuck (by rw [hcall]), hsound]
    refine ⟨Iff.rfl, fun heq => ?_⟩
    have hnew := hsound.2 heq
    simp only [History.enqueue, hcall] at hnew ⊢
    refine ⟨?_, hnew, fun hrecording => ?_, .inr fun c a hrisk memory => ?_⟩
    · simp [hinv.count]
    · cases hrecording.symm.trans hfinal
    · -- What the clone got without an update, it got from the original.
      simp only [hpos, if_true, assign_apply] at hrisk
      cases hlast : last h.commandBuffer.updates c a with
      | some => simp [hlast] at hrisk
      | none =>
        have hvalue := congrFun (congrFun heq c) a
        rw [assign_apply, hlast] at hvalue
        exact hvalue
  · have hexecutions := eq_nil_of_length_eq_zero (hinv.count.symm.trans hzero)
    have howed := hinv.sound
    rw [Sound, hexecutions, forall₂_nil_left_iff] at howed
    have hsound : h.enqueue.Sound ↔
        assign (·.read h.memory) h.commandBuffer.muxCommandBuffer h.commandBuffer.updates =
          h.expected := by
      simp [History.enqueue, hcall, Sound, hexecutions, howed, CommandBuffer.contentsOf]
    rw [hinv.handled_iff hstuck (by rw [hcall]), hsound]
    refine ⟨Iff.rfl, fun heq => ?_⟩
    have hnew := hsound.2 heq
    simp only [History.enqueue, hcall] at hnew ⊢
    refine ⟨?_, hnew, fun hrecording => ?_, .inr fun c a hrisk memory => ?_⟩
    · simp [hinv.count]
    · cases hrecording.symm.trans hfinal
    · exact congrFun (congrFun heq c) a

/-! ### Runs -/

theorem History.Inv.works_iff (hinv : h.Inv) (isBuffer : Nat → Bool) :
    (h.Works isBuffer label ↔ h.Handled label) ∧ (h.Handled label → (h.next isBuffer label).Inv) := by
  have hkept : (h.next isBuffer label).Inv → h.Handled label →
      (h.Works isBuffer label ↔ h.Handled label) ∧ (h.Handled label → (h.next isBuffer label).Inv) :=
    fun hnext hhandled => ⟨iff_of_true hnext.sound hhandled, fun _ => hnext⟩
  cases label with
  | record command args => exact hkept (hinv.record isBuffer command args) trivial
  | finalize =>
    refine hkept ⟨hinv.count, hinv.sound, fun hrecording => ?_, hinv.current⟩ trivial
    cases hrecording
  | update mutableConfig => exact hkept (hinv.update isBuffer mutableConfig) trivial
  | enqueue => exact hinv.enqueue
  | complete i => exact hkept (hinv.complete isBuffer i) trivial
  | setMemory => exact hkept ⟨hinv.count, hinv.sound, hinv.recording, hinv.current⟩ trivial

namespace CommandBuffer

variable (s : CommandBuffer) (isBuffer : Nat → Bool) (memory : Memory)

/-- A call that fails leaves the pending updates as they are. -/
def Atomic (configs : List Config) : Prop :=
  ∀ e, (s.updateCommandBuffer isBuffer memory configs).1 = .error e →
    s.updates ++ (s.updateCommandBuffer isBuffer memory configs).2 = s.updates

theorem createUpdates_ok_iff (configs : List Config) :
    (s.createUpdates isBuffer memory configs).1 = .ok () ↔
      ∀ config ∈ configs, ∃ update, s.createUpdate isBuffer memory config = .ok update := by
  induction configs with
  | nil => simp [createUpdates]
  | cons config configs ih =>
    cases h : s.createUpdate isBuffer memory config with
    | error => simp [createUpdates, h]
    | ok => simp [createUpdates, h, ih]

/-- Only the first descriptors may be refused once the first loop has passed. -/
theorem atomic_iff (configs : List Config) :
    s.Atomic isBuffer memory configs ↔ (configs.forM s.verify = .ok () →
      ∀ first ∈ configs.head?, ∀ update, s.createUpdate isBuffer memory first = .ok update →
        ∀ config ∈ configs.tail, ∃ update, s.createUpdate isBuffer memory config = .ok update) := by
  unfold Atomic updateCommandBuffer
  cases hverify : configs.forM s.verify with
  | error => simp
  | ok =>
    cases configs with
    | nil => simp [createUpdates]
    | cons first rest =>
      cases h : s.createUpdate isBuffer memory first with
      | error => simp [createUpdates, h]
      | ok =>
        simp only [createUpdates, h, head?_cons, tail_cons, ← createUpdates_ok_iff]
        cases (s.createUpdates isBuffer memory rest).1 <;> simp [h]

/-- The second of two updates has the wrong size, and the first one stays. -/
theorem not_atomic : ¬Atomic { create true true with
    isFinalized := true, commands := [some ⟨[⟨⟨8⟩, 0, 1⟩], true⟩] } (fun _ => true)
    ⟨fun _ => 0, fun _ => 0⟩ ([1, 4].map fun argSize => ⟨true, some 0, 1, some [⟨0, argSize, 16⟩], 0, none⟩) :=
  fun h => absurd (h .invalidArgSize rfl) nofun

end CommandBuffer

end ConstructionKit.Khr.Mutable
