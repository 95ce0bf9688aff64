import ConstructionKit.Host.Clone
import ConstructionKit.Riscv.Clone

/-! Clones of command buffers, for both targets. -/

namespace ConstructionKit.Mux

open ProofKit

variable {H N : Type} {wordSize : UInt32} {imageSupport : Bool}

/-- The update of a clone of a host command buffer never changes what the original executes with, nor
the other way around.  For a RISC-V command buffer this is so unless an argument is read as plain old
data: the clone then points to that of the original. -/
theorem clones_independent_iff {riscv riscv' : World Riscv.CommandBuffer.Heap _}
    {host host' : World Host.CommandBuffer.Heap _} {buffer hostBuffer : Nat}
    (hriscv : (Riscv.CommandBuffer.target wordSize).Reachable riscv)
    (hclone : (Riscv.CommandBuffer.target wordSize).cloneCommandBuffer riscv buffer = some riscv')
    (hhost : (Host.CommandBuffer.target imageSupport).Reachable host)
    (hhostClone :
      (Host.CommandBuffer.target imageSupport).cloneCommandBuffer host hostBuffer = some host') :
    (IndependentClone (Riscv.CommandBuffer.target wordSize) Riscv.CommandBuffer.Heap.values riscv'
        buffer riscv.buffers.length ∧
      IndependentClone (Host.CommandBuffer.target imageSupport) Host.CommandBuffer.packed host'
        hostBuffer host.buffers.length) ↔
    ∀ values, some values ∈ riscv.values Riscv.CommandBuffer.Heap.values buffer →
      Riscv.CommandBuffer.NoPlainOldData values := by
  have hindependent := (Host.CommandBuffer.ownsBlocks imageSupport).independentClone
    ((Host.CommandBuffer.ownsBlocks imageSupport).inv hhost) hhostClone (fun _ _ => trivial)
  rw [Riscv.CommandBuffer.independentClone_iff hriscv hclone]
  exact and_iff_left hindependent

/-! ### A command buffer with one ND-range -/

def oneNDRange (descriptors : List Descriptor) : List Call :=
  [.createCommandBuffer, .commandNDRange 0 0 ⟨descriptors, fun _ => 8, fun _ => 0, fun _ => 1, 1⟩]

def after (T : Target H N) (calls : List Call) : World H N :=
  (follow T.step (fun _ _ => True) T.init calls).getD T.init

theorem clones_independent_buffer :
    IndependentClone (Riscv.CommandBuffer.target 64) Riscv.CommandBuffer.Heap.values
        (after (Riscv.CommandBuffer.target 64)
          (oneNDRange [.buffer 4096 16, .nullBuffer] ++ [.cloneCommandBuffer 0])) 0 1 ∧
      IndependentClone (Host.CommandBuffer.target true) Host.CommandBuffer.packed
        (after (Host.CommandBuffer.target true)
          (oneNDRange [.plainOldData [1, 2, 3, 4] 4] ++ [.cloneCommandBuffer 0])) 0 1 := by
  have hriscv : (Riscv.CommandBuffer.target 64).Reachable
      (after _ (oneNDRange [.buffer 4096 16, .nullBuffer])) := Runs.follow_getD _ _ _ _ _ rfl
  have hhost : (Host.CommandBuffer.target true).Reachable
      (after _ (oneNDRange [.plainOldData [1, 2, 3, 4] 4])) := Runs.follow_getD _ _ _ _ _ rfl
  have hvalues : (after (Riscv.CommandBuffer.target 64)
      (oneNDRange [.buffer 4096 16, .nullBuffer])).values Riscv.CommandBuffer.Heap.values 0 =
        [some [.address (.address 4112), .address (.address 0)]] := rfl
  have hclone : (Riscv.CommandBuffer.target 64).cloneCommandBuffer
      (after (Riscv.CommandBuffer.target 64) (oneNDRange [.buffer 4096 16, .nullBuffer])) 0 =
    some (after (Riscv.CommandBuffer.target 64)
      (oneNDRange [.buffer 4096 16, .nullBuffer] ++ [.cloneCommandBuffer 0])) := rfl
  have hhostClone : (Host.CommandBuffer.target true).cloneCommandBuffer
      (after (Host.CommandBuffer.target true) (oneNDRange [.plainOldData [1, 2, 3, 4] 4])) 0 =
    some (after (Host.CommandBuffer.target true)
      (oneNDRange [.plainOldData [1, 2, 3, 4] 4] ++ [.cloneCommandBuffer 0])) := rfl
  refine (clones_independent_iff hriscv hclone hhost hhostClone).2 ?_
  intro values hmem bytes hbytes
  rw [hvalues, List.mem_singleton] at hmem
  cases hmem
  simp at hbytes

/-- An ND-range with plain old data: an update of the clone changes what the original executes
with. -/
theorem not_independent_plainOldData :
    (Riscv.CommandBuffer.target 64).Reachable (after (Riscv.CommandBuffer.target 64)
      (oneNDRange [.plainOldData [1, 2, 3, 4] 4] ++ [.cloneCommandBuffer 0])) ∧
    ¬ IndependentClone (Riscv.CommandBuffer.target 64) Riscv.CommandBuffer.Heap.values
        (after (Riscv.CommandBuffer.target 64)
          (oneNDRange [.plainOldData [1, 2, 3, 4] 4] ++ [.cloneCommandBuffer 0])) 0 1 := by
  refine ⟨Runs.follow_getD _ _ _ _ _ rfl, fun hindependent => ?_⟩
  have hrun := Runs.follow_getD ((Riscv.CommandBuffer.target 64).updateDescriptors 1) (fun _ _ => True)
    (after (Riscv.CommandBuffer.target 64)
      (oneNDRange [.plainOldData [1, 2, 3, 4] 4] ++ [.cloneCommandBuffer 0]))
    [⟨0, [(0, .plainOldData [9, 2, 3, 4] 4)]⟩] (Riscv.CommandBuffer.target 64).init rfl
  have hunchanged := hindependent.original_unchanged _ hrun
  revert hunchanged
  decide +kernel

end ConstructionKit.Mux
