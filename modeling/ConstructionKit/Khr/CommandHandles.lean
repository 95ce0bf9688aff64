import Mathlib.Data.Nat.Init

/-! The handles of the ND-ranges of a command buffer (`khr_command_buffer.cpp`) and the commands that
the host records for it. -/

namespace ConstructionKit.Khr

/-- The commands of a `cl_command_buffer_khr`. -/
inductive Recorded where
  | barrier
  | copyBuffer
  | copyBufferRect (rows slices : Nat)
  | fillBuffer
  | ndRange (printf : Bool)

inductive HostCommand where
  | userCallback
  | copyBuffer
  | fillBuffer
  | ndRange

/-- What the host records; a barrier is a callback, and so is the output of `printf`. -/
def Recorded.commands : Recorded → List HostCommand
  | .barrier => [.userCallback]
  | .copyBuffer => [.copyBuffer]
  | .copyBufferRect rows slices => List.replicate (slices * rows) .copyBuffer
  | .fillBuffer => [.fillBuffer]
  | .ndRange printf => .ndRange :: if printf then [.userCallback] else []

/-- The ids in the handles of the ND-ranges, with the indices that these get on the host. -/
def handles (nextCommandIndex : Nat) (commands : List HostCommand) :
    List Recorded → List (Nat × Nat)
  | [] => []
  | c :: recorded =>
    let handles := handles (nextCommandIndex + 1) (commands ++ c.commands) recorded
    match c with
    | .ndRange _ => (nextCommandIndex, commands.length) :: handles
    | _ => handles

def HandlesRight (recorded : List Recorded) : Prop :=
  ∀ handle ∈ handles 0 [] recorded, handle.1 = handle.2

theorem handles_iff (next : Nat) (commands : List HostCommand) (recorded : List Recorded) :
    (∀ handle ∈ handles next commands recorded, handle.1 = handle.2) ↔
      ∀ id printf, recorded[id]? = some (.ndRange printf) →
        next + id = commands.length + ((recorded.take id).flatMap Recorded.commands).length := by
  induction recorded generalizing next commands with
  | nil => simp [handles]
  | cons c recorded ih =>
    rw [← Nat.and_forall_add_one]
    have hrest := ih (next + 1) (commands ++ c.commands)
    simp only [List.length_append, Nat.add_assoc, Nat.add_comm 1] at hrest
    simp only [List.getElem?_cons_succ, List.take_succ_cons, List.flatMap_cons, List.length_append,
      ← hrest]
    cases c <;> simp [handles]

end ConstructionKit.Khr
