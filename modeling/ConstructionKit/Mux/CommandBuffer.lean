import ConstructionKit.Mux.Descriptor
import ConstructionKit.ProofKit.Runs

/-! Command buffers with ND-ranges, of a target that keeps the arguments of these on a heap.  The
loops of `UpdateDescriptors` and `CloneCommandBuffer` over the commands are the same for all targets;
what they do for one ND-range is the target's. -/

namespace ConstructionKit.Mux

open ProofKit List

variable {H N V : Type}

/-- Allocations succeed; `none` is undefined behaviour. -/
structure Target (H N : Type) where
  empty : H
  commandNDRange : H → (kernel : Nat) → NDRangeOptions → Option (H × N)
  updateArgs : H → N → List (Nat × Descriptor) → Option (H × Result)
  cloneNDRange : H → N → H × N

inductive Command (N : Type) where
  | ndrange (n : N)
  | other (what : Nat)

/-- The heap, and the commands of each command buffer. -/
structure World (H N : Type) where
  heap : H
  buffers : List (List (Command N))

inductive Call where
  | createCommandBuffer
  | commandNDRange (buffer kernel : Nat) (options : NDRangeOptions)
  | otherCommand (buffer what : Nat)
  | updateDescriptors (buffer : Nat) (u : Update)
  | cloneCommandBuffer (buffer : Nat)
  | resetCommandBuffer (buffer : Nat)

namespace Target

variable (T : Target H N)

def init : World H N := ⟨T.empty, []⟩

/-- Only an ND-range can be updated. -/
def updateDescriptors (buffer : Nat) (w : World H N) (u : Update) : Option (World H N) := do
  match ← (← w.buffers[buffer]?)[u.commandId]? with
  | .ndrange n =>
    let (heap, _) ← T.updateArgs w.heap n u.args
    return { w with heap }
  | .other _ => return w

/-- ND-ranges are cloned, and other commands are pushed as they are. -/
def cloneCommands (h : H) : List (Command N) → H × List (Command N)
  | [] => (h, [])
  | .other what :: commands =>
    let (h, cloned) := cloneCommands h commands
    (h, .other what :: cloned)
  | .ndrange n :: commands =>
    let (h, n) := T.cloneNDRange h n
    let (h, cloned) := cloneCommands h commands
    (h, .ndrange n :: cloned)

/-- The clone is the last command buffer. -/
def cloneCommandBuffer (w : World H N) (buffer : Nat) : Option (World H N) := do
  let (heap, cloned) := T.cloneCommands w.heap (← w.buffers[buffer]?)
  return ⟨heap, w.buffers ++ [cloned]⟩

def step (w : World H N) : Call → Option (World H N)
  | .createCommandBuffer => some { w with buffers := w.buffers ++ [[]] }
  | .commandNDRange buffer kernel options => do
    let commands ← w.buffers[buffer]?
    let (heap, n) ← T.commandNDRange w.heap kernel options
    return ⟨heap, w.buffers.set buffer (commands ++ [.ndrange n])⟩
  | .otherCommand buffer what => do
    let commands ← w.buffers[buffer]?
    return { w with buffers := w.buffers.set buffer (commands ++ [.other what]) }
  | .updateDescriptors buffer u => T.updateDescriptors buffer w u
  | .cloneCommandBuffer buffer => T.cloneCommandBuffer w buffer
  | .resetCommandBuffer buffer => some { w with buffers := w.buffers.set buffer [] }

def Reachable (w : World H N) : Prop := Runs T.step (fun _ _ => True) T.init w

end Target

/-! ### Independence -/

/-- What a command executes with. -/
def Command.values (values : H → N → V) (h : H) : Command N → Option V
  | .ndrange n => some (values h n)
  | .other _ => none

def World.values (values : H → N → V) (w : World H N) (buffer : Nat) : List (Option V) :=
  ((w.buffers[buffer]?).getD []).map (Command.values values w.heap)

/-- A command buffer and its clone: at first both execute with the same values, and for every
sequence of updates of one of the two the other goes on to execute with them. -/
structure IndependentClone (T : Target H N) (values : H → N → V) (w : World H N)
    (original clone : Nat) : Prop where
  values_eq : w.values values clone = w.values values original
  original_unchanged : ∀ w', Runs (T.updateDescriptors clone) (fun _ _ => True) w w' →
    w'.values values original = w.values values original
  clone_unchanged : ∀ w', Runs (T.updateDescriptors original) (fun _ _ => True) w w' →
    w'.values values clone = w.values values clone

variable {T : Target H N} {values : H → N → V}

theorem IndependentClone.map {V' : Type} {w : World H N}
    {original clone : Nat} (f : V → V') (h : IndependentClone T values w original clone) :
    IndependentClone T (fun h n => f (values h n)) w original clone := by
  have hmap : ∀ (w : World H N) buffer, w.values (fun h n => f (values h n)) buffer =
      (w.values values buffer).map (Option.map f) := by
    intro w buffer
    rw [World.values, World.values, map_map]
    apply map_congr_left
    intro command _
    cases command <;> rfl
  constructor
  · rw [hmap, hmap, h.values_eq]
  · intro w' hruns
    rw [hmap, hmap, h.original_unchanged w' hruns]
  · intro w' hruns
    rw [hmap, hmap, h.clone_unchanged w' hruns]

/-! ### Targets whose ND-ranges own blocks -/

/-- From one heap to another the valid ND-ranges stay valid, with the same values. -/
def Keeps (values : H → N → V) (Valid : H → N → Prop) (h h' : H) : Prop :=
  ∀ n, Valid h n → Valid h' n ∧ values h' n = values h n

/-- Each ND-range has a block of its own on the heap.  An update of an ND-range does not change the
values of those with other blocks, if these are quiet. -/
structure Target.OwnsBlocks (T : Target H N) (values : H → N → V) (Wf : H → Prop)
    (Valid : H → N → Prop) (block : N → Nat) (Quiet : V → Prop) : Prop where
  empty : Wf T.empty
  commandNDRange {h h' : H} {n : N} {kernel : Nat} {options : NDRangeOptions} : Wf h →
    T.commandNDRange h kernel options = some (h', n) → Wf h' ∧ Keeps values Valid h h' ∧ Valid h' n
  cloneNDRange {h h' : H} {n n' : N} : Wf h → Valid h n → T.cloneNDRange h n = (h', n') →
    Wf h' ∧ Keeps values Valid h h' ∧ Valid h' n' ∧ values h' n' = values h n ∧
      ∀ m, Valid h m → block m ≠ block n'
  updateArgs {h h' : H} {n : N} {args : List (Nat × Descriptor)} {result : Result} : Wf h →
    Valid h n → T.updateArgs h n args = some (h', result) → Wf h' ∧
      ∀ m, Valid h m → Valid h' m ∧
        (block m ≠ block n → Quiet (values h m) → values h' m = values h m)

section OwnsBlocks

variable {Wf : H → Prop} {Valid : H → N → Prop} {block : N → Nat} {Quiet : V → Prop}
  {h h' h'' base : H} {w w' : World H N} {commands cloned : List (Command N)}

theorem Keeps.refl (h : H) : Keeps values Valid h h := fun _ hn => ⟨hn, rfl⟩

theorem Keeps.trans (h1 : Keeps values Valid h h') (h2 : Keeps values Valid h' h'') :
    Keeps values Valid h h'' := by
  intro n hn
  obtain ⟨hn', heq⟩ := h1 n hn
  obtain ⟨hn'', heq'⟩ := h2 n hn'
  exact ⟨hn'', heq'.trans heq⟩

/-- All ND-ranges of a list of commands. -/
def AllValid (Valid : H → N → Prop) (h : H) (commands : List (Command N)) : Prop :=
  ∀ n, .ndrange n ∈ commands → Valid h n

theorem AllValid.keep (hvalid : AllValid Valid h commands) (hkeeps : Keeps values Valid h h') :
    AllValid Valid h' commands :=
  fun n hn => (hkeeps n (hvalid n hn)).1

theorem AllValid.append {command : Command N} (hvalid : AllValid Valid h commands)
    (hcommand : ∀ n, command = .ndrange n → Valid h n) : AllValid Valid h (commands ++ [command]) := by
  intro n hn
  rcases mem_append.1 hn with hn | hn
  · exact hvalid n hn
  · exact hcommand n (mem_singleton.1 hn).symm

theorem map_values_of_keeps (hkeeps : Keeps values Valid h h')
    (hvalid : AllValid Valid h commands) :
    commands.map (Command.values values h') = commands.map (Command.values values h) := by
  apply map_congr_left
  intro command hmem
  cases command with
  | other => rfl
  | ndrange n => rw [Command.values, Command.values, (hkeeps n (hvalid n hmem)).2]

/-- A command and its clone: the clone of an ND-range has a block that no valid one had. -/
inductive Cloned (values : H → N → V) (Valid : H → N → Prop) (block : N → Nat) (h h' : H) :
    Command N → Command N → Prop
  | other (what : Nat) : Cloned values Valid block h h' (.other what) (.other what)
  | ndrange {n n' : N} (hfresh : ∀ m, Valid h m → block m ≠ block n') (hvalid : Valid h' n')
      (hvalues : values h' n' = values h n) :
      Cloned values Valid block h h' (.ndrange n) (.ndrange n')

/-- The heap grows from command to command; the commands are valid in a heap before that. -/
theorem Target.OwnsBlocks.cloneCommands (hT : T.OwnsBlocks values Wf Valid block Quiet)
    (hbase : Keeps values Valid base h) (hwf : Wf h) (hvalid : AllValid Valid base commands) :
    Wf (T.cloneCommands h commands).1 ∧ Keeps values Valid h (T.cloneCommands h commands).1 ∧
      List.Forall₂ (Cloned values Valid block base (T.cloneCommands h commands).1) commands
        (T.cloneCommands h commands).2 := by
  induction commands generalizing h with
  | nil => exact ⟨hwf, .refl h, .nil⟩
  | cons command commands ih =>
    have htail : AllValid Valid base commands := fun n hn => hvalid n (mem_cons_of_mem _ hn)
    cases command with
    | other what =>
      obtain ⟨hwf', hkeeps, hcloned⟩ := ih hbase hwf htail
      exact ⟨hwf', hkeeps, .cons (.other what) hcloned⟩
    | ndrange n =>
      obtain ⟨hn, heq⟩ := hbase n (hvalid n mem_cons_self)
      obtain ⟨hwf₁, hfirst, hn', hvalues, hfresh⟩ := hT.cloneNDRange hwf hn rfl
      obtain ⟨hwf', hkeeps, hcloned⟩ := ih (hbase.trans hfirst) hwf₁ htail
      obtain ⟨hn'', hvalues'⟩ := hkeeps _ hn'
      refine ⟨hwf', hfirst.trans hkeeps, .cons (.ndrange ?_ hn'' ?_) hcloned⟩
      · exact fun m hm => hfresh m (hbase m hm).1
      · exact hvalues'.trans (hvalues.trans heq)

section Cloned

variable (hcloned : List.Forall₂ (Cloned values Valid block h h') commands cloned)

include hcloned

theorem fresh_of_cloned {n' : N} (hn : .ndrange n' ∈ cloned) :
    (∀ m, Valid h m → block m ≠ block n') ∧ Valid h' n' := by
  induction hcloned with
  | nil => cases hn
  | cons hfirst _ ih =>
    rcases mem_cons.1 hn with rfl | hmem
    · cases hfirst with
      | ndrange hfresh hvalid => exact ⟨hfresh, hvalid⟩
    · exact ih hmem

theorem map_values_of_cloned :
    cloned.map (Command.values values h') = commands.map (Command.values values h) := by
  induction hcloned with
  | nil => rfl
  | cons hfirst _ ih =>
    rw [map_cons, map_cons, ih]
    cases hfirst with
    | other => rfl
    | ndrange hfresh hvalid hvalues => rw [Command.values, Command.values, hvalues]

theorem getElem?_of_cloned {n : N} {i : Nat} (hcommand : commands[i]? = some (.ndrange n)) :
    ∃ n', cloned[i]? = some (.ndrange n') ∧ values h' n' = values h n := by
  induction hcloned generalizing i with
  | nil => cases hcommand
  | cons hfirst _ ih =>
    cases i with
    | succ => exact ih hcommand
    | zero =>
      cases hcommand
      cases hfirst with
      | ndrange hfresh hvalid hvalues => exact ⟨_, rfl, hvalues⟩

end Cloned

/-! ### Reachable states -/

structure World.Inv (Wf : H → Prop) (Valid : H → N → Prop) (w : World H N) : Prop where
  wf : Wf w.heap
  valid : ∀ commands ∈ w.buffers, AllValid Valid w.heap commands

variable {buffer : Nat}

theorem World.Inv.of_getElem? (hinv : w.Inv Wf Valid)
    (hcommands : w.buffers[buffer]? = some commands) : AllValid Valid w.heap commands :=
  hinv.valid commands (mem_of_getElem? hcommands)

theorem World.Inv.set (hinv : w.Inv Wf Valid) (hwf : Wf h)
    (hkeeps : Keeps values Valid w.heap h) (hvalid : AllValid Valid h commands) :
    World.Inv Wf Valid ⟨h, w.buffers.set buffer commands⟩ := by
  refine ⟨hwf, fun commands' hcommands' => ?_⟩
  rcases mem_or_eq_of_mem_set hcommands' with hold | rfl
  · exact (hinv.valid commands' hold).keep hkeeps
  · exact hvalid

theorem World.Inv.append (hinv : w.Inv Wf Valid) (hwf : Wf h)
    (hkeeps : Keeps values Valid w.heap h) (hvalid : AllValid Valid h commands) :
    World.Inv Wf Valid ⟨h, w.buffers ++ [commands]⟩ := by
  refine ⟨hwf, fun commands' hcommands' => ?_⟩
  rcases mem_append.1 hcommands' with hold | hnew
  · exact (hinv.valid commands' hold).keep hkeeps
  · rw [mem_singleton.1 hnew]
    exact hvalid

theorem allValid_nil (Valid : H → N → Prop) (h : H) : AllValid Valid h [] :=
  fun _ hn => absurd hn not_mem_nil

theorem Target.OwnsBlocks.cloneCommandBuffer (hT : T.OwnsBlocks values Wf Valid block Quiet)
    (hinv : w.Inv Wf Valid) (hclone : T.cloneCommandBuffer w buffer = some w') :
    ∃ commands cloned, w.buffers[buffer]? = some commands ∧ w'.buffers = w.buffers ++ [cloned] ∧
      Wf w'.heap ∧ Keeps values Valid w.heap w'.heap ∧
      List.Forall₂ (Cloned values Valid block w.heap w'.heap) commands cloned := by
  obtain ⟨commands, hcommands, hclone⟩ := Option.bind_eq_some_iff.1 hclone
  cases hclone
  obtain ⟨hwf, hkeeps, hcloned⟩ :=
    hT.cloneCommands (.refl w.heap) hinv.wf (hinv.of_getElem? hcommands)
  exact ⟨commands, _, hcommands, rfl, hwf, hkeeps, hcloned⟩

theorem getElem?_buffers_of_append (hcommands : w.buffers[buffer]? = some commands)
    (hbuffers : w'.buffers = w.buffers ++ [cloned]) :
    w'.buffers[buffer]? = some commands ∧ w'.buffers[w.buffers.length]? = some cloned := by
  have hlt : buffer < w.buffers.length := (List.getElem?_eq_some_iff.1 hcommands).1
  constructor
  · rw [hbuffers, getElem?_append_left hlt, hcommands]
  · rw [hbuffers, getElem?_append_right (Nat.le_refl _), Nat.sub_self]
    rfl

/-- What an update of a command buffer does: nothing, or an update of one of its ND-ranges. -/
theorem updateDescriptors_eq_some {u : Update}
    (hupdate : T.updateDescriptors buffer w u = some w') :
    ∃ commands, w.buffers[buffer]? = some commands ∧ (w' = w ∨
      ∃ n h result, .ndrange n ∈ commands ∧ T.updateArgs w.heap n u.args = some (h, result) ∧
        w' = { w with heap := h }) := by
  obtain ⟨commands, hcommands, hupdate⟩ := Option.bind_eq_some_iff.1 hupdate
  obtain ⟨command, hcommand, hupdate⟩ := Option.bind_eq_some_iff.1 hupdate
  refine ⟨commands, hcommands, ?_⟩
  cases command with
  | other =>
    cases hupdate
    exact .inl rfl
  | ndrange n =>
    obtain ⟨⟨h, result⟩, hargs, hupdate⟩ := Option.bind_eq_some_iff.1 hupdate
    cases hupdate
    exact .inr ⟨n, h, result, mem_of_getElem? hcommand, hargs, rfl⟩

section

variable (hT : T.OwnsBlocks values Wf Valid block Quiet)
include hT

theorem Target.OwnsBlocks.inv_step (call : Call)
    (hstep : T.step w call = some w') (hinv : w.Inv Wf Valid) : w'.Inv Wf Valid := by
  have hrefl : Keeps values Valid w.heap w.heap := .refl _
  cases call with
  | createCommandBuffer =>
    cases hstep
    exact hinv.append hinv.wf hrefl (allValid_nil Valid w.heap)
  | commandNDRange =>
    obtain ⟨commands, hcommands, hstep⟩ := Option.bind_eq_some_iff.1 hstep
    obtain ⟨⟨h, n⟩, hnew, hstep⟩ := Option.bind_eq_some_iff.1 hstep
    cases hstep
    obtain ⟨hwf, hkeeps, hn⟩ := hT.commandNDRange hinv.wf hnew
    apply hinv.set hwf hkeeps
    apply ((hinv.of_getElem? hcommands).keep hkeeps).append
    rintro n' ⟨⟩
    exact hn
  | otherCommand =>
    obtain ⟨commands, hcommands, hstep⟩ := Option.bind_eq_some_iff.1 hstep
    cases hstep
    apply hinv.set hinv.wf hrefl
    apply (hinv.of_getElem? hcommands).append
    rintro n ⟨⟩
  | updateDescriptors =>
    obtain ⟨commands, hcommands, rfl | ⟨n, h, result, hn, hupdate, rfl⟩⟩ :=
      updateDescriptors_eq_some hstep
    · exact hinv
    · obtain ⟨hwf, hvalid⟩ := hT.updateArgs hinv.wf (hinv.of_getElem? hcommands n hn) hupdate
      exact ⟨hwf, fun commands' hmem m hm => (hvalid m (hinv.valid commands' hmem m hm)).1⟩
  | cloneCommandBuffer =>
    obtain ⟨commands, cloned, -, hbuffers, hwf, hkeeps, hcloned⟩ := hT.cloneCommandBuffer hinv hstep
    obtain ⟨heap, buffers⟩ := w'
    cases hbuffers
    exact hinv.append hwf hkeeps fun n hn => (fresh_of_cloned hcloned hn).2
  | resetCommandBuffer =>
    cases hstep
    exact hinv.set hinv.wf hrefl (allValid_nil Valid w.heap)

theorem Target.OwnsBlocks.inv (hreach : T.Reachable w) : w.Inv Wf Valid := by
  apply Runs.invariant hreach
  · intro w w' call _ hstep
    exact hT.inv_step call hstep
  · exact ⟨hT.empty, fun commands hcommands => absurd hcommands not_mem_nil⟩

/-! ### A command buffer and its clone -/

/-- Updates of a command buffer leave the values of another one that has other blocks and is
quiet. -/
theorem Target.OwnsBlocks.values_of_updates
    {other : Nat} {others : List (Command N)} (hinv : w.Inv Wf Valid)
    (hcommands : w.buffers[buffer]? = some commands) (hothers : w.buffers[other]? = some others)
    (hdisjoint : ∀ n m, .ndrange n ∈ commands → .ndrange m ∈ others → block m ≠ block n)
    (hquiet : ∀ n, .ndrange n ∈ others → Quiet (values w.heap n))
    (hruns : Runs (T.updateDescriptors buffer) (fun _ _ => True) w w') :
    w'.values values other = w.values values other := by
  have hkept : w'.Inv Wf Valid ∧ w'.buffers = w.buffers ∧
      ∀ m, .ndrange m ∈ others → values w'.heap m = values w.heap m := by
    apply Runs.invariant hruns
    · rintro w₁ w₂ u - hstep ⟨hinv₁, hbuffers, hvalues⟩
      have hinv₂ : w₂.Inv Wf Valid := hT.inv_step (.updateDescriptors buffer u) hstep hinv₁
      obtain ⟨commands', hcommands', rfl | ⟨n, h, result, hn, hupdate, rfl⟩⟩ :=
        updateDescriptors_eq_some hstep
      · exact ⟨hinv₁, hbuffers, hvalues⟩
      · refine ⟨hinv₂, hbuffers, fun m hm => ?_⟩
        obtain ⟨-, hvalid⟩ := hT.updateArgs hinv₁.wf (hinv₁.of_getElem? hcommands' n hn) hupdate
        cases (hbuffers ▸ hcommands').symm.trans hcommands
        have hm₁ : Valid w₁.heap m := hinv₁.of_getElem? (hbuffers ▸ hothers) m hm
        have hquiet₁ : Quiet (values w₁.heap m) := by
          rw [hvalues m hm]
          exact hquiet m hm
        exact ((hvalid m hm₁).2 (hdisjoint n m hn hm) hquiet₁).trans (hvalues m hm)
    · exact ⟨hinv, rfl, fun m _ => rfl⟩
  obtain ⟨-, hbuffers, hvalues⟩ := hkept
  rw [World.values, World.values, hbuffers, hothers]
  apply map_congr_left
  intro command hmem
  cases command with
  | other => rfl
  | ndrange m => rw [Command.values, Command.values, hvalues m hmem]

/-- A quiet command buffer and its clone are independent. -/
theorem Target.OwnsBlocks.independentClone
    (hinv : w.Inv Wf Valid) (hclone : T.cloneCommandBuffer w buffer = some w')
    (hquiet : ∀ v, some v ∈ w.values values buffer → Quiet v) :
    IndependentClone T values w' buffer w.buffers.length := by
  have hinv' : w'.Inv Wf Valid := hT.inv_step (.cloneCommandBuffer buffer) hclone hinv
  obtain ⟨commands, cloned, hcommands, hbuffers, -, hkeeps, hcloned⟩ :=
    hT.cloneCommandBuffer hinv hclone
  obtain ⟨horiginal, hlast⟩ := getElem?_buffers_of_append hcommands hbuffers
  have hvalid := hinv.of_getElem? hcommands
  have hvalues : w'.values values buffer = w.values values buffer := by
    rw [World.values, World.values, horiginal, hcommands]
    exact map_values_of_keeps hkeeps hvalid
  have hvalues' : w'.values values w.buffers.length = w.values values buffer := by
    rw [World.values, World.values, hlast, hcommands]
    exact map_values_of_cloned hcloned
  have hfresh : ∀ n m, .ndrange n ∈ cloned → .ndrange m ∈ commands → block m ≠ block n :=
    fun n m hn hm => (fresh_of_cloned hcloned hn).1 m (hvalid m hm)
  -- what both execute with is quiet
  have hmem : ∀ {k list n}, w'.buffers[k]? = some list → .ndrange n ∈ list →
      w'.values values k = w.values values buffer → Quiet (values w'.heap n) := by
    intro k list n hlist hn heq
    apply hquiet
    rw [← heq, World.values, hlist]
    exact mem_map.2 ⟨_, hn, rfl⟩
  constructor
  · exact hvalues'.trans hvalues.symm
  · intro w'' hruns
    exact hT.values_of_updates hinv' hlast horiginal hfresh
      (fun n hn => hmem horiginal hn hvalues) hruns
  · intro w'' hruns
    exact hT.values_of_updates hinv' horiginal hlast (fun n m hn hm => (hfresh m n hm hn).symm)
      (fun n hn => hmem hlast hn hvalues') hruns

end

end OwnsBlocks

end ConstructionKit.Mux
