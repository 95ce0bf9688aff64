import ConstructionKit.Cl.Buffers
import ConstructionKit.ProofKit.Replicas
import ConstructionKit.ProofKit.Runs

/-! Which bytes the commands on OpenCL buffers observe.  The home of a buffer is its `device_owner`,
which moves with every synchronization. -/

namespace ConstructionKit.Cl

open Mux ProofKit Function

variable {β : Type}

/-! ### What happened -/

def Context.replicas (s : Context β) : Replicas Nat Nat Cell β where
  memory := s.memory
  home b := if 1 < s.devices then s.deviceOwner b else some 0

/-- The context, with what the commands left in each byte and where that is. -/
structure Coherence (β : Type) where
  context : Context β
  ledger : Ledger Nat Cell β

/-- New buffers; `hostPtr` are the bytes that `clCreateBuffer` was given for some of them, and that it
copied to all devices. -/
def Coherence.create (devices : Nat) (size : Nat → Nat) (memory : Memory β)
    (hostPtr : Cell → Option β) : Coherence β :=
  ⟨⟨devices, size, memory, fun _ => none⟩, ⟨hostPtr, fun _ => .unstored⟩⟩

namespace Coherence

/-- The ledger when a command has synchronized its buffers. -/
def synchronized (h : Coherence β) (c : Command β) : Ledger Nat Cell β :=
  h.ledger.fetchAll Context.replicas (·.synchronize c.device) (region h.context.size) c.device h.context
    c.synchronizes

def next (h : Coherence β) (c : Command β) : Coherence β where
  context := h.context.run c
  ledger := (h.synchronized c).store
    (fun cell => (region h.context.size cell).bind (h.context.synchronized c).replicas.home) c.device
    (c.stores (h.context.observed c))

def enqueue (h : Coherence β) (e : Enqueue β) : Coherence β := h.next e.command

/-- A command is on a device of the context, and reads bytes of buffers it synchronizes. -/
structure Allowed (h : Coherence β) (c : Command β) : Prop where
  device : c.device < h.context.devices
  reads : ∀ cell ∈ c.reads, cell.1 ∈ c.synchronizes ∧ cell.2 < h.context.size cell.1

theorem allowed_read {h : Coherence β} {device offset size : Nat} {buffer : MemBuffer}
    (hdevice : device < h.context.devices) (hsize : offset + size ≤ buffer.size)
    (hbuffer : buffer.offset + buffer.size ≤ h.context.size buffer.owningBuffer) :
    h.Allowed (enqueueReadBuffer device buffer offset size) where
  device := hdevice
  reads cell hcell := by
    obtain ⟨heq, -, hlt⟩ := mem_range.1 hcell
    rw [heq]
    exact ⟨List.mem_cons_self, by omega⟩

theorem allowed_copy {h : Coherence β} {device srcOffset dstOffset size : Nat}
    {srcBuffer dstBuffer : MemBuffer} (hdevice : device < h.context.devices)
    (hsize : srcOffset + size ≤ srcBuffer.size)
    (hbuffer : srcBuffer.offset + srcBuffer.size ≤ h.context.size srcBuffer.owningBuffer) :
    h.Allowed (enqueueCopyBuffer device srcBuffer dstBuffer srcOffset dstOffset size) :=
  have hread := allowed_read hdevice hsize hbuffer
  ⟨hread.device, hread.reads⟩

/-- A command observes the bytes that the commands before it left. -/
def Observes (h : Coherence β) (c : Command β) : Prop :=
  ∀ cell ∈ c.reads, ∀ v, h.ledger.left cell = some v →
    (h.context.synchronized c).memory c.device cell = v

/-- A command observes no lost byte, unless an equal one is in its place. -/
def Handled (h : Coherence β) (c : Command β) : Prop :=
  ∀ cell ∈ c.reads, (h.synchronized c).place cell = .lost → ∀ v, h.ledger.left cell = some v →
    (h.context.synchronized c).memory c.device cell = v

end Coherence

/-! ### Commands -/

variable {s : Context β} {device : Nat} {h : Coherence β} {c : Command β}

theorem Context.synchronize_const (s : Context β) (device b : Nat) :
    (s.synchronize device b).devices = s.devices ∧ (s.synchronize device b).size = s.size := by
  rw [synchronize]
  split <;> exact ⟨rfl, rfl⟩

/-- `synchronize` copies from the owner to the device of its queue, which becomes the owner. -/
theorem Context.synchronize_fetches (hdevice : device < s.devices) (b : Nat) :
    Replicas.Fetches (region s.size) device b s.replicas (s.synchronize device b).replicas := by
  rw [synchronize]
  split
  · next hdevices =>
    have hhome : ∀ b, s.replicas.home b = s.deviceOwner b := fun b => if_pos hdevices
    have hset : ∀ memory : Memory β,
        let t : Context β :=
          { s with memory := memory, deviceOwner := update s.deviceOwner b (some device) }
        t.replicas.home b = some device ∧ ∀ b', b' ≠ b → t.replicas.home b' = s.replicas.home b' := by
      intro memory t
      have hhome' : ∀ b', t.replicas.home b' = update s.deviceOwner b (some device) b' :=
        fun b' => if_pos hdevices
      refine ⟨?_, fun b' hb' => ?_⟩
      · rw [hhome', update_self]
      · rw [hhome', update_of_ne hb', hhome]
    cases howner : s.deviceOwner b with
    | none => exact .of_none (by rw [hhome, howner]) (hset _).1 (hset _).2 rfl
    | some owner =>
      have howner' : s.replicas.home b = some owner := by rw [hhome, howner]
      dsimp only
      split
      · refine .of_copy howner' (.inr (hset _).1) (hset _).2 (fun cell => ?_) fun e he => ?_
        · simp only [region_eq_some]
          exact synchronizeMemory_dst s.memory cell
        · exact synchronizeMemory_of_ne s.memory he
      · next heq =>
        obtain rfl : owner = device := not_not.1 heq
        refine .of_copy howner' (.inr (hset _).1) (hset _).2 (fun cell => ?_) fun e he => rfl
        exact (ite_self _).symm
  · next hdevices =>
    refine .of_home ?_
    have hzero : device = 0 := by omega
    rw [hzero]
    exact if_neg hdevices

def Coherence.Valid (h : Coherence β) : Prop :=
  h.context.replicas.Holds (region h.context.size) h.ledger

theorem Coherence.create_valid {devices : Nat} {size : Nat → Nat} {memory : Memory β}
    {hostPtr : Cell → Option β}
    (hcopied : ∀ cell v, hostPtr cell = some v → ∀ device, memory device cell = v) :
    (create devices size memory hostPtr).Valid :=
  fun cell _ v _ hleft => hcopied cell v hleft

theorem Coherence.Valid.synchronized (hvalid : h.Valid) (hdevice : c.device < h.context.devices) :
    (h.context.synchronized c).size = h.context.size ∧
      (h.context.synchronized c).replicas.Holds (region h.context.size) (h.synchronized c) ∧
      ∀ b ∈ c.synchronizes,
        (h.context.synchronized c).replicas.Ready (region h.context.size) c.device b := by
  have hfetch : ∀ (s : Context β) (b : Nat), c.device < s.devices ∧ s.size = h.context.size →
      (c.device < (s.synchronize c.device b).devices ∧
        (s.synchronize c.device b).size = h.context.size) ∧
        Replicas.Fetches (region h.context.size) c.device b s.replicas
          (s.synchronize c.device b).replicas := by
    intro s b hs
    rw [(s.synchronize_const c.device b).1, (s.synchronize_const c.device b).2, ← hs.2]
    exact ⟨⟨hs.1, rfl⟩, Context.synchronize_fetches hs.1 b⟩
  obtain ⟨⟨-, hsize⟩, hholds, hready⟩ :=
    Replicas.Holds.fetchAll hfetch ⟨hdevice, rfl⟩ hvalid c.synchronizes
  exact ⟨hsize, hholds, fun b hb => hready b (.inl hb)⟩

theorem Coherence.Valid.observes_iff (hvalid : h.Valid) (hallowed : h.Allowed c) :
    h.Observes c ↔ h.Handled c := by
  refine ⟨fun hobserves cell hcell _ => hobserves cell hcell, fun hhandled cell hcell v hleft => ?_⟩
  obtain ⟨-, hholds, hready⟩ := hvalid.synchronized hallowed.device
  obtain ⟨hsynced, hsize⟩ := hallowed.reads cell hcell
  by_cases hlost : (h.synchronized c).place cell = .lost
  · exact hhandled cell hcell hlost v hleft
  · refine hholds.memory (hready cell.1 hsynced) (region_eq_some.2 ⟨rfl, hsize⟩) ?_ hlost
    rw [Coherence.synchronized, Ledger.fetchAll_left]
    exact hleft

theorem Coherence.Valid.next (hvalid : h.Valid) (hallowed : h.Allowed c) : (h.next c).Valid := by
  obtain ⟨hsize, hholds, -⟩ := hvalid.synchronized hallowed.device
  have hsize' : (h.next c).context.size = h.context.size := hsize
  rw [Valid, hsize']
  exact hholds.store

/-! ### Runs -/

/-- All commands observe the bytes that the commands before them left exactly if none reads a lost
byte, or only where an equal one is in its place.  In a context of several devices a byte is lost
when a copy stores it in a buffer that another device owns, or that another one synchronizes
first. -/
theorem buffers_coherent_iff (devices : Nat) (size : Nat → Nat) (memory : Memory β)
    (hostPtr : Cell → Option β)
    (hcopied : ∀ cell v, hostPtr cell = some v → ∀ device, memory device cell = v)
    (commands : List (Enqueue β))
    (hallowed : Along Coherence.enqueue (fun h e => h.Allowed e.command)
      (.create devices size memory hostPtr) commands) :
    Along Coherence.enqueue (fun h e => h.Observes e.command)
        (.create devices size memory hostPtr) commands ↔
      Along Coherence.enqueue (fun h e => h.Handled e.command)
        (.create devices size memory hostPtr) commands :=
  along_congr Coherence.Valid (fun hvalid hallowed => hvalid.observes_iff hallowed)
    (fun hvalid hallowed _ => hvalid.next hallowed) hallowed (Coherence.create_valid hcopied)

/-- Two devices, buffers of four bytes, and memory that is 0 before any command. -/
def twoDevices : Coherence UInt8 := .create 2 (fun _ => 4) (fun _ _ => 0) fun _ => none

def whole (b : Nat) : MemBuffer := ⟨b, 0, 4⟩

def secondHalf (b : Nat) : MemBuffer := ⟨b, 2, 2⟩

/-- The second device changes what the first one wrote in half of a buffer and copies it to a buffer
that is not used yet. -/
def copyToNew : List (Enqueue UInt8) :=
  [.write 0 (whole 0) 2 [7], .kernel 1 [secondHalf 0] [(0, 2)] fun _ => [((0, 2), 8)],
    .copy 1 (secondHalf 0) (whole 1) 0 0 1, .read 1 (whole 1) 0 1, .read 0 (whole 0) 2 1]

theorem buffers_coherent_copyToNew :
    Along Coherence.enqueue (fun h e => h.Allowed e.command) twoDevices copyToNew ∧
      Along Coherence.enqueue (fun h e => h.Observes e.command) twoDevices copyToNew := by
  have hallowed : Along Coherence.enqueue (fun h e => h.Allowed e.command) twoDevices copyToNew :=
    ⟨⟨by decide, nofun⟩, ⟨by decide, by decide⟩,
      Coherence.allowed_copy (by decide) (by decide) (by decide),
      Coherence.allowed_read (by decide) (by decide) (by decide),
      Coherence.allowed_read (by decide) (by decide) (by decide), trivial⟩
  refine ⟨hallowed, (buffers_coherent_iff _ _ _ _ nofun _ hallowed).2 ⟨nofun, fun cell hcell hlost => ?_,
    fun cell hcell hlost => ?_, fun cell hcell hlost => ?_, fun cell hcell hlost => ?_, trivial⟩⟩
  all_goals
    cases List.mem_singleton.1 hcell
    cases hlost

/-- The second device copies to a buffer that the first one owns. -/
def copyToOwned : List (Enqueue UInt8) :=
  [.write 0 (whole 0) 0 [7], .write 0 (whole 1) 0 [1], .copy 1 (whole 0) (whole 1) 0 0 1,
    .read 1 (whole 1) 0 1]

/-- The read does not observe what the copy left. -/
theorem copy_lost :
    Along Coherence.enqueue (fun h e => h.Allowed e.command) twoDevices copyToOwned ∧
      ¬ Along Coherence.enqueue (fun h e => h.Observes e.command) twoDevices copyToOwned ∧
      (copyToOwned.foldl Coherence.enqueue twoDevices).ledger.left (1, 0) = some 7 ∧
      (copyToOwned.foldl Coherence.enqueue twoDevices).context.memory 1 (1, 0) = 1 := by
  refine ⟨⟨⟨by decide, nofun⟩, ⟨by decide, nofun⟩,
    Coherence.allowed_copy (by decide) (by decide) (by decide),
    Coherence.allowed_read (by decide) (by decide) (by decide), trivial⟩, fun hobserves => ?_, rfl, rfl⟩
  cases hobserves.2.2.2.1 (1, 0) List.mem_cons_self 7 rfl

end ConstructionKit.Cl
