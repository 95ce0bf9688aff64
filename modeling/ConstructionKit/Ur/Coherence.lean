import ConstructionKit.Ur.Memory
import ConstructionKit.ProofKit.Replicas
import ConstructionKit.ProofKit.Runs

/-! Which bytes the commands of the Unified Runtime observe.  The home of a buffer is the device of the
first command that used it. -/

namespace ConstructionKit.Ur

open Mux ProofKit

variable {β : Type} {queue : CommandQueue}

/-! ### What happened -/

def Context.replicas (s : Context β) : Replicas Nat Nat Mux.Cell β where
  memory := s.memory
  home b := if s.devices ≤ 1 then some 0 else (s.lastCommandQueue b).map (·.device)

/-- The context, with what the commands left in each byte and where that is. -/
structure History (β : Type) where
  context : Context β
  ledger : Ledger Nat Mux.Cell β

/-- New buffers have any contents. -/
def History.create (devices : Nat) (size : Nat → Nat) (memory : Nat → Mux.Cell → β) : History β :=
  ⟨⟨devices, size, memory, fun _ => none⟩, ⟨fun _ => none, fun _ => .unstored⟩⟩

/-- The ledger when a command has synchronized its buffers. -/
def History.synced (h : History β) (c : Command β) : Ledger Nat Mux.Cell β :=
  h.ledger.fetchAll Context.replicas (·.sync c.queue) (region h.context.size) c.queue.device h.context c.syncs

def History.next (h : History β) (c : Command β) : History β where
  context := h.context.run c
  ledger := (h.synced c).store
    (fun cell => (region h.context.size cell).bind (h.context.synced c).replicas.home) c.target
    (c.stores (h.context.observed c))

def History.enqueue (h : History β) (e : Enqueue β) : History β := h.next e.command

/-- A command is on a device of the context, and reads bytes of buffers it synchronizes. -/
structure History.Allowed (h : History β) (c : Command β) : Prop where
  device : c.queue.device < h.context.devices
  reads : ∀ cell ∈ c.reads, cell.1 ∈ c.syncs ∧ cell.2 < h.context.size cell.1

theorem History.allowed_read {h : History β} {b offset size : Nat}
    (hdevice : queue.device < h.context.devices) (hsize : offset + size ≤ h.context.size b) :
    h.Allowed (memBufferRead queue b offset size) where
  device := hdevice
  reads cell hcell := by
    obtain ⟨rfl, -, hlt⟩ := mem_range.1 hcell
    exact ⟨List.mem_cons_self, Nat.lt_of_lt_of_le hlt hsize⟩

/-- A command observes the bytes that the commands before it left. -/
def History.Observes (h : History β) (c : Command β) : Prop :=
  ∀ cell ∈ c.reads, ∀ v, h.ledger.left cell = some v →
    (h.context.synced c).memory c.queue.device cell = v

/-- A command observes no lost byte, unless an equal one is in its place. -/
def History.Handled (h : History β) (c : Command β) : Prop :=
  ∀ cell ∈ c.reads, (h.synced c).place cell = .lost → ∀ v, h.ledger.left cell = some v →
    (h.context.synced c).memory c.queue.device cell = v

/-! ### Commands -/

variable {s : Context β} {h : History β} {c : Command β}

/-- `sync` makes the device of its queue the home of a new buffer, and copies from the home
otherwise. -/
theorem Context.sync_fetches (hqueue : queue.device < s.devices) (b : Nat) :
    Replicas.Fetches (region s.size) queue.device b s.replicas (s.sync queue b).replicas := by
  rw [sync]
  split
  · next hdevices =>
    have hzero : queue.device = 0 := by omega
    refine .of_home ?_
    rw [hzero]
    exact if_pos hdevices
  · next hdevices =>
    have hhome : ∀ b, s.replicas.home b = (s.lastCommandQueue b).map (·.device) :=
      fun b => if_neg hdevices
    split
    · next hnone =>
      have hhome' : ∀ b', (s.setLastCommandQueue b queue).replicas.home b' =
          (Function.update s.lastCommandQueue b (some queue) b').map (·.device) :=
        fun b' => if_neg hdevices
      refine .of_none (by rw [hhome, hnone]; rfl) ?_ (fun b' hb' => ?_) rfl
      · rw [hhome', Function.update_self]
        rfl
      · rw [hhome', Function.update_of_ne hb', hhome]
    · next last hlast =>
      have hlast : s.replicas.home b = some last.device := by rw [hhome, hlast]; rfl
      split
      · next heq => exact .of_home (heq ▸ hlast)
      · refine .of_copy hlast (.inl hlast) (fun _ _ => rfl) (fun cell => ?_) fun e he => ?_
        · simp only [region_eq_some]
          exact synchronizeMemory_dst s.memory cell
        · exact synchronizeMemory_of_ne s.memory he

theorem Context.sync_const (s : Context β) (queue : CommandQueue) (b : Nat) :
    (s.sync queue b).devices = s.devices ∧ (s.sync queue b).size = s.size := by
  rw [sync]
  split
  · exact ⟨rfl, rfl⟩
  · split
    · exact ⟨rfl, rfl⟩
    · split <;> exact ⟨rfl, rfl⟩

def History.Valid (h : History β) : Prop :=
  h.context.replicas.Holds (region h.context.size) h.ledger

theorem History.create_valid (devices : Nat) (size : Nat → Nat) (memory : Nat → Mux.Cell → β) :
    (create devices size memory).Valid :=
  nofun

theorem History.Valid.synced (hvalid : h.Valid) (hdevice : c.queue.device < h.context.devices) :
    (h.context.synced c).size = h.context.size ∧
      (h.context.synced c).replicas.Holds (region h.context.size) (h.synced c) ∧
      ∀ b ∈ c.syncs, (h.context.synced c).replicas.Ready (region h.context.size) c.queue.device b := by
  have hfetch : ∀ (s : Context β) (b : Nat),
      c.queue.device < s.devices ∧ s.size = h.context.size →
      (c.queue.device < (s.sync c.queue b).devices ∧ (s.sync c.queue b).size = h.context.size) ∧
        Replicas.Fetches (region h.context.size) c.queue.device b s.replicas (s.sync c.queue b).replicas := by
    intro s b hs
    rw [(s.sync_const c.queue b).1, (s.sync_const c.queue b).2, ← hs.2]
    exact ⟨⟨hs.1, rfl⟩, Context.sync_fetches hs.1 b⟩
  obtain ⟨⟨-, hsize⟩, hholds, hready⟩ :=
    Replicas.Holds.fetchAll hfetch ⟨hdevice, rfl⟩ hvalid c.syncs
  exact ⟨hsize, hholds, fun b hb => hready b (.inl hb)⟩

theorem History.Valid.observes_iff (hvalid : h.Valid) (hallowed : h.Allowed c) :
    h.Observes c ↔ h.Handled c := by
  refine ⟨fun hobserves cell hcell _ => hobserves cell hcell, fun hhandled cell hcell v hleft => ?_⟩
  obtain ⟨-, hholds, hready⟩ := hvalid.synced hallowed.device
  obtain ⟨hsyncs, hsize⟩ := hallowed.reads cell hcell
  by_cases hlost : (h.synced c).place cell = .lost
  · exact hhandled cell hcell hlost v hleft
  · refine hholds.memory (hready cell.1 hsyncs) (region_eq_some.2 ⟨rfl, hsize⟩) ?_ hlost
    rw [History.synced, Ledger.fetchAll_left]
    exact hleft

theorem History.Valid.next (hvalid : h.Valid) (hallowed : h.Allowed c) : (h.next c).Valid := by
  obtain ⟨hsize, hholds, -⟩ := hvalid.synced hallowed.device
  have hsize' : (h.next c).context.size = h.context.size := hsize
  rw [Valid, hsize']
  exact hholds.store

/-! ### Runs -/

/-- All commands observe the bytes that the commands before them left exactly if none reads a lost
byte, or only where an equal one is in its place.  In a context of several devices a byte is lost
when a write stores it, which always goes to device 0, and that is not the home of the buffer, or
another command does on a device that is not. -/
theorem coherent_iff (devices : Nat) (size : Nat → Nat) (memory : Nat → Mux.Cell → β)
    (commands : List (Enqueue β))
    (hallowed : Along History.enqueue (fun h e => h.Allowed e.command)
      (.create devices size memory) commands) :
    Along History.enqueue (fun h e => h.Observes e.command) (.create devices size memory) commands ↔
      Along History.enqueue (fun h e => h.Handled e.command) (.create devices size memory) commands :=
  along_congr History.Valid (fun hvalid hallowed => hvalid.observes_iff hallowed)
    (fun hvalid hallowed _ => hvalid.next hallowed) hallowed (History.create_valid devices size memory)

/-- Two devices, buffers of four bytes, and memory that is 0 before any command. -/
def twoDevices : History UInt8 := .create 2 (fun _ => 4) fun _ _ => 0

def firstQueue : CommandQueue := ⟨0, 0⟩

def secondQueue : CommandQueue := ⟨1, 1⟩

/-- The second device reads what the first one wrote and made of it. -/
def readElsewhere : List (Enqueue UInt8) :=
  [.write firstQueue 0 0 [7], .kernel firstQueue [0] [(0, 0)] fun _ => [((0, 0), 8)],
    .read secondQueue 0 0 1]

theorem coherent_readElsewhere :
    Along History.enqueue (fun h e => h.Allowed e.command) twoDevices readElsewhere ∧
      Along History.enqueue (fun h e => h.Observes e.command) twoDevices readElsewhere := by
  have hallowed : Along History.enqueue (fun h e => h.Allowed e.command) twoDevices readElsewhere :=
    ⟨⟨by decide, nofun⟩,
      ⟨by decide, by decide⟩,
      History.allowed_read (by decide) (by decide), trivial⟩
  refine ⟨hallowed, (coherent_iff _ _ _ _ hallowed).2 ⟨nofun, fun cell hcell hlost => ?_,
    fun cell hcell hlost => ?_, trivial⟩⟩
  all_goals
    cases List.mem_singleton.1 hcell
    cases hlost

/-- A write and a read on the second device. -/
def writeSecond : List (Enqueue UInt8) :=
  [.write secondQueue 0 0 [7], .read secondQueue 0 0 1]

/-- A kernel on the second device changes what the first one wrote. -/
def kernelElsewhere : List (Enqueue UInt8) :=
  [.write firstQueue 0 0 [7], .kernel secondQueue [0] [(0, 0)] fun _ => [((0, 0), 8)],
    .read firstQueue 0 0 1]

/-- The last command of each sequence reads an old byte. -/
theorem observes_old_bytes :
    (Along History.enqueue (fun h e => h.Allowed e.command) twoDevices writeSecond ∧
      ¬ Along History.enqueue (fun h e => h.Observes e.command) twoDevices writeSecond ∧
      (writeSecond.foldl History.enqueue twoDevices).ledger.left (0, 0) = some 7 ∧
      (writeSecond.foldl History.enqueue twoDevices).context.memory 1 (0, 0) = 0) ∧
    (Along History.enqueue (fun h e => h.Allowed e.command) twoDevices kernelElsewhere ∧
      ¬ Along History.enqueue (fun h e => h.Observes e.command) twoDevices kernelElsewhere ∧
      (kernelElsewhere.foldl History.enqueue twoDevices).ledger.left (0, 0) = some 8 ∧
      (kernelElsewhere.foldl History.enqueue twoDevices).context.memory 0 (0, 0) = 7) := by
  refine ⟨⟨?_, fun hobserves => ?_, rfl, rfl⟩, ⟨?_, fun hobserves => ?_, rfl, rfl⟩⟩
  · exact ⟨⟨by decide, nofun⟩,
      History.allowed_read (by decide) (by decide), trivial⟩
  · cases hobserves.2.1 (0, 0) List.mem_cons_self 7 rfl
  · exact ⟨⟨by decide, nofun⟩,
      ⟨by decide, by decide⟩,
      History.allowed_read (by decide) (by decide), trivial⟩
  · cases hobserves.2.2.1 (0, 0) List.mem_cons_self 8 rfl

end ConstructionKit.Ur
