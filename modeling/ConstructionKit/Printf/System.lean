import ConstructionKit.Printf.Partition
import ConstructionKit.Printf.Record
import Mathlib.Algebra.Order.BigOperators.Group.List

/-! The chunk of one work-group while any number of printf calls run in it, in any interleaving of
their atomic steps, and the host prints it now and then.  The length counts the bytes of failed
calls too, but a call fails only behind all those that fit, so the records of the successful calls
are the first ones, without gaps, and `length - overflow` is where they end. -/

namespace ConstructionKit.Printf

open ProofKit Relation List

variable {doubleSupport : Bool} {call : Call doubleSupport} {store : Nat × List UInt8} {done : Nat}

/-- `started` are the calls that have made their length add, in the order of these adds.
`groupOffset` and `printed` are what the host has saved and printed. -/
structure State (doubleSupport : Bool) where
  mem : Memory
  started : List (Thread doubleSupport)
  groupOffset : UInt32
  printed : List Printed

/-- A chunk as `createPrintfBuffer` leaves it. -/
structure State.Initial (s : State doubleSupport) : Prop where
  length : s.mem.readWord 0 = 8
  overflow : s.mem.readWord 4 = 0
  started : s.started = []
  groupOffset : s.groupOffset = 0
  printed : s.printed = []

/-- No call is running. -/
def State.Quiet (s : State doubleSupport) : Prop :=
  ∀ thread ∈ s.started, ∃ code, thread.phase = .returned code

/-- The bytes that some calls have asked for. -/
def requested (threads : List (Thread doubleSupport)) : Nat :=
  (threads.map fun thread => thread.call.offset).sum

/-- A call makes its length add, a started call makes its next step, or the host prints. -/
inductive Step (printfCalls : List Descriptor) (size : UInt32) :
    State doubleSupport → State doubleSupport → Prop
  | call {s} (call : Call doubleSupport)
      (hdesc : printfCalls[call.id.toNat]? = some call.descriptor) :
      Step printfCalls size s { s with
        mem := (lengthAdd s.mem call).1
        started := s.started ++ [(lengthAdd s.mem call).2] }
  | advance {s} {before after : List (Thread doubleSupport)} {thread : Thread doubleSupport}
      (hstarted : s.started = before ++ thread :: after) :
      Step printfCalls size s { s with
        mem := (advance size s.mem thread).1
        started := before ++ (advance size s.mem thread).2 :: after }
  | print {s} {records : List Printed} {groupOffset : UInt32} (hquiet : s.Quiet)
      (hprint : printGroup printfCalls size.toNat s.mem s.groupOffset =
        .finished records groupOffset) :
      Step printfCalls size s { s with groupOffset, printed := s.printed ++ records }

/-- The value that `print` should read for an argument. -/
def Arg.value (arg : Arg doubleSupport) : Value :=
  match arg.type.text with
  | some text => .text text
  | none => .bytes (arg.type.printfType doubleSupport) arg.bytes

/-- The record that `print` should read for a call. -/
def Call.printed (call : Call doubleSupport) : Printed := ⟨call.id, call.args.map Arg.value⟩

/-! ### The bytes of a record -/

def Call.bytes (call : Call doubleSupport) : List UInt8 :=
  wordBytes call.id ++ call.args.flatMap fun arg => arg.bytes

/-- The bytes of the first `done` stores. -/
def Call.written (call : Call doubleSupport) (done : Nat) : List UInt8 :=
  (call.stores.take done).flatMap fun store => store.2

theorem ArgType.storeSize_eq (type : ArgType) :
    type.storeSize doubleSupport = (type.printfType doubleSupport).size := by
  cases type <;> cases doubleSupport <;> simp [storeSize, sizeInBits, printfType, PrintfType.size]

theorem Arg.bytes_eq_nil {arg : Arg doubleSupport}
    (h : arg.type.sizeInBits doubleSupport = none) : arg.bytes = [] := by
  apply eq_nil_of_length_eq_zero
  rw [arg.length_bytes, ArgType.storeSize, h]
  rfl

theorem length_flatMap_bytes (args : List (Arg doubleSupport)) :
    (args.flatMap fun arg => arg.bytes).length =
      (args.map fun arg => arg.type.storeSize doubleSupport).sum := by
  simp only [length_flatMap, Arg.length_bytes]

theorem Call.length_bytes (call : Call doubleSupport) : call.bytes.length = call.offset := by
  rw [bytes, length_append, length_wordBytes, length_flatMap_bytes, offset]

theorem argStores_flatMap (offset : Nat) (args : List (Arg doubleSupport)) :
    ((argStores offset args).flatMap fun store => store.2) = args.flatMap fun arg => arg.bytes := by
  induction args generalizing offset with
  | nil => rfl
  | cons arg args ih =>
    rw [argStores]
    split
    · rename_i hsize
      rw [ih, flatMap_cons, Arg.bytes_eq_nil hsize, nil_append]
    · rw [flatMap_cons, ih, flatMap_cons]

theorem argStores_getElem {offset : Nat} {args : List (Arg doubleSupport)}
    (h : (argStores offset args)[done]? = some store) :
    store.1 = offset + (((argStores offset args).take done).flatMap fun s => s.2).length := by
  induction args generalizing offset done with
  | nil => simp [argStores] at h
  | cons arg args ih =>
    rw [argStores] at h ⊢
    split at h
    · exact ih h
    · rename_i bits hsize
      cases done with
      | zero =>
        rw [getElem?_cons_zero, Option.some_inj] at h
        simp [← h]
      | succ =>
        have hlen : arg.bytes.length = bits / 8 := by
          rw [arg.length_bytes, ArgType.storeSize, hsize, Option.getD_some]
        rw [ih h, take_succ_cons, flatMap_cons, length_append, hlen, Nat.add_assoc]

theorem Call.stores_getElem
    (h : call.stores[done]? = some store) : store.1 = (call.written done).length := by
  cases done with
  | zero =>
    rw [stores, getElem?_cons_zero, Option.some_inj] at h
    simp [← h, written]
  | succ =>
    rw [argStores_getElem h, written, stores, take_succ_cons, flatMap_cons,
      length_append, length_wordBytes]

theorem Call.written_succ (h : call.stores[done]? = some store) :
    call.written (done + 1) = call.written done ++ store.2 := by
  rw [written, take_add_one, h, written]
  simp

theorem Call.written_all (h : call.stores.length ≤ done) : call.written done = call.bytes := by
  rw [written, take_of_length_le h, stores, flatMap_cons, argStores_flatMap, bytes]

theorem Call.length_written_le (call : Call doubleSupport) (done : Nat) :
    (call.written done).length ≤ call.offset := by
  rw [← call.length_bytes, ← call.written_all le_rfl, written, written, take_length,
    length_flatMap, length_flatMap]
  exact ((take_sublist done call.stores).map _).sum_le_sum fun _ _ => Nat.zero_le _

end ConstructionKit.Printf
