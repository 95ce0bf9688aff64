import ConstructionKit.Printf.Reader

/-! The invariant of a chunk: the calls have reserved adjacent ranges in the order of their length
adds, and each has written its stores so far to its own. -/

namespace ConstructionKit.Printf

open ProofKit Relation List

variable {doubleSupport : Bool} {size : UInt32} {mem mem' : Memory} {thread : Thread doubleSupport}
  {threads : List (Thread doubleSupport)} {call : Call doubleSupport} {store : Nat × List UInt8}
  {done start : Nat}

/-! ### The reservations -/

/-- Each call has reserved the bytes behind those of the call before it. -/
def Chained (start : Nat) : List (Thread doubleSupport) → Prop
  | [] => True
  | thread :: threads =>
    thread.old.toNat = start ∧ Chained (start + thread.call.offset) threads

@[simp] theorem requested_nil : requested ([] : List (Thread doubleSupport)) = 0 := rfl

@[simp] theorem requested_cons (thread : Thread doubleSupport) (threads : List (Thread doubleSupport)) :
    requested (thread :: threads) = thread.call.offset + requested threads := rfl

@[simp] theorem requested_append (threads threads' : List (Thread doubleSupport)) :
    requested (threads ++ threads') = requested threads + requested threads' := by
  rw [requested, map_append, sum_append, requested, requested]

theorem chained_append {threads' : List (Thread doubleSupport)} :
    Chained start (threads ++ threads') ↔
      Chained start threads ∧ Chained (start + requested threads) threads' := by
  induction threads generalizing start with
  | nil => simp [Chained]
  | cons thread threads ih =>
    simp only [cons_append, Chained, ih, requested_cons, Nat.add_assoc, and_assoc]

theorem Chained.bounds (h : Chained start threads) (hmem : thread ∈ threads) :
    start ≤ thread.old.toNat ∧
      thread.old.toNat + thread.call.offset ≤ start + requested threads := by
  induction threads generalizing start with
  | nil => cases hmem
  | cons head threads ih =>
    obtain ⟨hold, hrest⟩ := h
    rw [requested_cons]
    obtain rfl | hmem := mem_cons.mp hmem
    · omega
    · have := ih hrest hmem
      omega

/-! ### One call -/

/-- What is known of a call: the bounds test has been decided by its reservation, and the stores
made so far are in the chunk. -/
def Thread.Placed (size : UInt32) (mem : Memory) (thread : Thread doubleSupport) : Prop :=
  match thread.phase with
  | .test => True
  | .store done => thread.old.toNat + thread.call.offset ≤ size.toNat ∧
    mem.read thread.old.toNat (thread.call.written done).length = thread.call.written done
  | .overflow => size.toNat < thread.old.toNat + thread.call.offset
  | .returned code =>
    (code = 0 ∧ thread.old.toNat + thread.call.offset ≤ size.toNat ∧
      mem.read thread.old.toNat thread.call.offset = thread.call.bytes) ∨
    (code = -1 ∧ size.toNat < thread.old.toNat + thread.call.offset)

theorem Thread.Placed.frame (h : thread.Placed size mem) (hframe : ∀ n ≤ thread.call.offset,
      mem'.read thread.old.toNat n = mem.read thread.old.toNat n) : thread.Placed size mem' := by
  unfold Placed at *
  split
  · trivial
  · rename_i done heq
    rw [heq] at h
    rw [hframe _ (thread.call.length_written_le done)]
    exact h
  · rename_i heq
    rw [heq] at h
    exact h
  · rename_i code heq
    rw [heq] at h
    rw [hframe _ le_rfl]
    exact h

@[simp] theorem advance_call (size : UInt32) (mem : Memory) (thread : Thread doubleSupport) :
    (advance size mem thread).2.call = thread.call := by
  unfold advance
  split
  · rfl
  · split <;> rfl
  · rfl
  · rfl

@[simp] theorem advance_old (size : UInt32) (mem : Memory) (thread : Thread doubleSupport) :
    (advance size mem thread).2.old = thread.old := by
  unfold advance
  split
  · rfl
  · split <;> rfl
  · rfl
  · rfl

theorem ArgType.eight_le_sizeInBits {type : ArgType} {bits : Nat}
    (h : type.sizeInBits doubleSupport = some bits) : 8 ≤ bits := by
  cases type <;> cases doubleSupport <;> simp [sizeInBits] at h <;> omega

theorem argStores_pos {offset : Nat} {args : List (Arg doubleSupport)}
    (h : store ∈ argStores offset args) : 0 < store.2.length := by
  induction args generalizing offset with
  | nil => cases h
  | cons arg args ih =>
    rw [argStores] at h
    split at h
    · exact ih h
    · rename_i bits hbits
      obtain rfl | h := mem_cons.mp h
      · have := ArgType.eight_le_sizeInBits hbits
        rw [arg.length_bytes, ArgType.storeSize, hbits, Option.getD_some]
        omega
      · exact ih h

theorem Call.stores_pos (h : call.stores[done]? = some store) : 0 < store.2.length := by
  obtain rfl | hmem := mem_cons.mp (mem_of_getElem? h)
  · simp
  · exact argStores_pos hmem

/-- Where a store goes: behind those made before it, inside the reservation of the call. -/
theorem Call.store_offset {old : UInt32} (h : call.stores[done]? = some store)
    (hfits : old.toNat + call.offset ≤ size.toNat) (hsize : size.toNat ≤ 2 ^ 31) :
    gepOffset (old + UInt32.ofNat store.1) = old.toNat + (call.written done).length ∧
      (call.written done).length + store.2.length ≤ call.offset := by
  have hoffset := Call.stores_getElem h
  have hpos := Call.stores_pos h
  have hle := call.length_written_le (done + 1)
  rw [Call.written_succ h, length_append] at hle
  have hlt : (old + UInt32.ofNat store.1).toNat = old.toNat + store.1 :=
    toNat_add_ofNat old store.1 (by omega)
  rw [gepOffset_eq (by omega), hlt, hoffset]
  exact ⟨by push_cast; rfl, hle⟩

/-- The bytes that a call has added to the overflow. -/
def Thread.failed (thread : Thread doubleSupport) : Nat :=
  if thread.phase = .returned (-1) then thread.call.offset else 0

/-- All that a step of a call does: it keeps what is known of the call and the length, counts the
overflow, and writes only to the header and to the reservation of the call. -/
structure Advanced (size : UInt32) (mem : Memory) (thread : Thread doubleSupport) (mem' : Memory)
    (thread' : Thread doubleSupport) : Prop where
  placed : thread'.Placed size mem'
  length : mem'.readWord 0 = mem.readWord 0
  overflow : (mem'.readWord 4).toNat + thread.failed = (mem.readWord 4).toNat + thread'.failed
  frame : ∀ start n : Nat, 8 ≤ start →
    start + n ≤ thread.old.toNat ∨ thread.old.toNat + thread.call.offset ≤ start →
      mem'.read start n = mem.read start n
  returned : ∀ code, thread.phase = .returned code → thread' = thread

theorem gepOffset_four : gepOffset 4 = 4 := by decide

section Advance

variable (hplaced : thread.Placed size mem) (hold : 8 ≤ thread.old.toNat)

theorem advanced_test (hlt : thread.old.toNat + thread.call.offset < 2 ^ 32)
    (hphase : thread.phase = .test) :
    Advanced size mem thread (advance size mem thread).1 (advance size mem thread).2 := by
  have hsum : (thread.old + UInt32.ofNat thread.call.offset).toNat =
      thread.old.toNat + thread.call.offset := toNat_add_ofNat _ _ hlt
  by_cases hgt : thread.old + UInt32.ofNat thread.call.offset > size
  · have hadv : advance size mem thread = (mem, { thread with phase := .overflow }) := by
      simp [advance, hphase, hgt]
    rw [hadv]
    rw [gt_iff_lt, UInt32.lt_iff_toNat_lt, hsum] at hgt
    exact ⟨hgt, rfl, by simp [Thread.failed, hphase], fun _ _ _ _ => rfl, by simp [hphase]⟩
  · have hadv : advance size mem thread = (mem, { thread with phase := .store 0 }) := by
      simp [advance, hphase, hgt]
    rw [hadv]
    rw [gt_iff_lt, UInt32.lt_iff_toNat_lt, hsum, Nat.not_lt] at hgt
    exact ⟨⟨hgt, rfl⟩, rfl, by simp [Thread.failed, hphase], fun _ _ _ _ => rfl, by simp [hphase]⟩

include hplaced

theorem advanced_overflow (hlt : (mem.readWord 4).toNat + thread.call.offset < 2 ^ 32)
    (hphase : thread.phase = .overflow) :
    Advanced size mem thread (advance size mem thread).1 (advance size mem thread).2 := by
  have hfailed : thread.failed = 0 := by simp [Thread.failed, hphase]
  have hsum : (mem.readWord 4 + UInt32.ofNat thread.call.offset).toNat =
      (mem.readWord 4).toNat + thread.call.offset := toNat_add_ofNat _ _ hlt
  have hadv : advance size mem thread =
      (mem.writeWord 4 (mem.readWord 4 + UInt32.ofNat thread.call.offset),
        { thread with phase := .returned (-1) }) := by
    simp only [advance, hphase, gepOffset_four]
  rw [Thread.Placed, hphase] at hplaced
  rw [hadv]
  refine ⟨.inr ⟨rfl, hplaced⟩, ?_, ?_, ?_, by simp [hphase]⟩
  · exact Memory.readWord_write_disjoint _ (by simp)
  · rw [Memory.readWord_writeWord_self, hsum, hfailed, Thread.failed, if_pos rfl, Nat.add_zero]
  · intro start n hstart _
    exact Memory.read_write_disjoint _ (by rw [length_wordBytes]; omega)

include hold

theorem advanced_store (hsize : size.toNat ≤ 2 ^ 31) (hphase : thread.phase = .store done) :
    Advanced size mem thread (advance size mem thread).1 (advance size mem thread).2 := by
  rw [Thread.Placed, hphase] at hplaced
  obtain ⟨hfits, hread⟩ := hplaced
  cases hstore : thread.call.stores[done]? with
  | none =>
    have hadv : advance size mem thread = (mem, { thread with phase := .returned 0 }) := by
      simp [advance, hphase, hstore]
    rw [hadv]
    rw [Call.written_all (List.getElem?_eq_none_iff.mp hstore), Call.length_bytes] at hread
    exact ⟨.inl ⟨rfl, hfits, hread⟩, rfl, by simp [Thread.failed, hphase], fun _ _ _ _ => rfl,
      by simp [hphase]⟩
  | some store =>
    obtain ⟨hgep, hle⟩ := Call.store_offset hstore hfits hsize
    have hadv : advance size mem thread =
        (mem.write (thread.old.toNat + (thread.call.written done).length) store.2,
          { thread with phase := .store (done + 1) }) := by
      simp only [advance, hphase, hstore, hgep]
    rw [hadv]
    refine ⟨⟨hfits, ?_⟩, ?_, ?_, ?_, by simp [hphase]⟩
    · dsimp only
      rw [Call.written_succ hstore, length_append, Memory.read_add,
        Memory.read_write_disjoint _ (by omega), hread, Memory.read_write_self]
    · exact Memory.readWord_write_disjoint _ (by omega)
    · rw [Memory.readWord_write_disjoint _ (by omega)]
      simp [Thread.failed, hphase]
    · intro start n hstart hdisj
      exact Memory.read_write_disjoint _ (by omega)

/-- Every step of a call is as described, while the counters do not wrap. -/
theorem advanced (hsize : size.toNat ≤ 2 ^ 31)
    (hlt : thread.old.toNat + thread.call.offset < 2 ^ 32)
    (hover : thread.failed = 0 → (mem.readWord 4).toNat + thread.call.offset < 2 ^ 32) :
    Advanced size mem thread (advance size mem thread).1 (advance size mem thread).2 := by
  cases hphase : thread.phase with
  | test => exact advanced_test hlt hphase
  | store => exact advanced_store hplaced hold hsize hphase
  | overflow =>
    exact advanced_overflow hplaced (hover (by simp [Thread.failed, hphase])) hphase
  | returned =>
    have hadv : advance size mem thread = (mem, thread) := by simp only [advance, hphase]
    rw [hadv]
    exact ⟨hplaced, rfl, rfl, fun _ _ _ _ => rfl, fun _ _ => rfl⟩

end Advance

/-! ### The invariant -/

variable {printfCalls : List Descriptor} {s s' : State doubleSupport}

/-- The bytes that some calls have added to the overflow. -/
def overflowed (threads : List (Thread doubleSupport)) : Nat := (threads.map Thread.failed).sum

@[simp] theorem overflowed_cons (thread : Thread doubleSupport)
    (threads : List (Thread doubleSupport)) :
    overflowed (thread :: threads) = thread.failed + overflowed threads := rfl

@[simp] theorem overflowed_append (threads threads' : List (Thread doubleSupport)) :
    overflowed (threads ++ threads') = overflowed threads + overflowed threads' := by
  rw [overflowed, map_append, sum_append, overflowed, overflowed]

theorem Thread.failed_le (thread : Thread doubleSupport) : thread.failed ≤ thread.call.offset := by
  rw [failed]
  split <;> omega

theorem overflowed_le_requested (threads : List (Thread doubleSupport)) :
    overflowed threads ≤ requested threads := by
  induction threads with
  | nil => rfl
  | cons thread threads ih =>
    exact Nat.add_le_add thread.failed_le ih

/-- What the host has printed: the records of the first calls, all of them successful, up to the
saved offset. -/
structure PrintedTo (s : State doubleSupport) (done : List (Thread doubleSupport)) : Prop where
  returned : ∀ thread ∈ done, thread.phase = .returned 0
  printed : s.printed = done.map fun thread => thread.call.printed
  offset : (if s.groupOffset = 0 then 8 else s.groupOffset).toNat = 8 + requested done

structure Inv (printfCalls : List Descriptor) (size : UInt32) (s : State doubleSupport) : Prop where
  chained : Chained 8 s.started
  placed : ∀ thread ∈ s.started, thread.Placed size s.mem
  described : ∀ thread ∈ s.started,
    printfCalls[thread.call.id.toNat]? = some thread.call.descriptor
  length : (s.mem.readWord 0).toNat = 8 + requested s.started
  overflow : (s.mem.readWord 4).toNat = overflowed s.started
  printed : ∃ done rest, s.started = done ++ rest ∧ PrintedTo s done

theorem inv_initial (h : s.Initial) : Inv printfCalls size s := by
  have hstarted := h.started
  constructor
  · simp [hstarted, Chained]
  · simp [hstarted]
  · simp [hstarted]
  · simp [hstarted, h.length]
  · simp [hstarted, h.overflow, overflowed]
  · exact ⟨[], [], by simp [hstarted], by simp, by simp [h.printed], by simp [h.groupOffset]⟩

theorem inv_call (hinv : Inv printfCalls size s)
    (hdesc : printfCalls[call.id.toNat]? = some call.descriptor)
    (hlt : 8 + requested s.started + call.offset < 2 ^ 32) :
    Inv printfCalls size { s with
      mem := (lengthAdd s.mem call).1
      started := s.started ++ [(lengthAdd s.mem call).2] } := by
  have hlength := hinv.length
  have hframe (start n : Nat) (h : 8 ≤ start) :
      (lengthAdd s.mem call).1.read start n = s.mem.read start n :=
    Memory.read_write_disjoint _ (by rw [length_wordBytes]; omega)
  have hadd : (s.mem.readWord 0 + UInt32.ofNat call.offset).toNat =
      (s.mem.readWord 0).toNat + call.offset := toNat_add_ofNat _ _ (by omega)
  constructor
  · rw [chained_append]
    exact ⟨hinv.chained, hlength, trivial⟩
  · intro thread hmem
    obtain hmem | hmem := mem_append.mp hmem
    · have hbound := hinv.chained.bounds hmem
      exact (hinv.placed thread hmem).frame fun n _ => hframe _ _ hbound.1
    · rw [mem_singleton.mp hmem]
      trivial
  · intro thread hmem
    obtain hmem | hmem := mem_append.mp hmem
    · exact hinv.described thread hmem
    · rw [mem_singleton.mp hmem]
      exact hdesc
  · simp only [lengthAdd, Memory.readWord_writeWord_self, hadd, hlength, requested_append,
      requested_cons, requested_nil, Nat.add_assoc, Nat.add_zero]
  · have h4 : (lengthAdd s.mem call).1.readWord 4 = s.mem.readWord 4 :=
      Memory.readWord_write_disjoint _ (by simp)
    simp only [h4, hinv.overflow, overflowed_append]
    rfl
  · obtain ⟨done, rest, hstarted, hprinted⟩ := hinv.printed
    refine ⟨done, rest ++ [(lengthAdd s.mem call).2], ?_, hprinted.returned, hprinted.printed,
      hprinted.offset⟩
    simp only [hstarted, append_assoc]

/-- A prefix of returned calls does not contain a call that is still running. -/
theorem prefix_before {done rest before after : List (Thread doubleSupport)}
    (h : done ++ rest = before ++ thread :: after)
    (hthread : thread ∉ done) : ∃ mid, before = done ++ mid := by
  obtain ⟨mid, hbefore, -⟩ | ⟨mid, hdone, hrest⟩ := append_eq_append_iff.mp h
  · exact ⟨mid, hbefore⟩
  · cases mid with
    | nil => exact ⟨[], by simpa using hdone.symm⟩
    | cons =>
      obtain ⟨rfl, -⟩ := List.cons.inj hrest
      exact absurd (by simp [hdone]) hthread

theorem inv_advance {before after : List (Thread doubleSupport)}
    (hinv : Inv printfCalls size s) (hstarted : s.started = before ++ thread :: after)
    (hsize : size.toNat ≤ 2 ^ 31) (hlt : 8 + requested s.started < 2 ^ 32) :
    Inv printfCalls size { s with
      mem := (advance size s.mem thread).1
      started := before ++ (advance size s.mem thread).2 :: after } := by
  have hmem : thread ∈ s.started := by simp [hstarted]
  have hchained := hinv.chained
  have hbound := hchained.bounds hmem
  have hover : thread.failed = 0 → (s.mem.readWord 4).toNat + thread.call.offset < 2 ^ 32 := by
    intro hfailed
    have hb := overflowed_le_requested before
    have ha := overflowed_le_requested after
    rw [hinv.overflow]
    simp only [hstarted, overflowed_append, overflowed_cons, requested_append,
      requested_cons] at hlt ⊢
    omega
  have hadv := advanced (hinv.placed thread hmem) hbound.1 hsize (by omega) hover
  rw [hstarted, chained_append] at hchained
  obtain ⟨hbefore, hold, hafter⟩ := hchained
  constructor
  · simp only [chained_append, Chained, advance_old, advance_call]
    exact ⟨hbefore, hold, hafter⟩
  · intro other hother
    rw [mem_append, mem_cons] at hother
    obtain hother | rfl | hother := hother
    · have hb := hbefore.bounds hother
      have hplaced := hinv.placed other (by simp [hstarted, hother])
      exact hplaced.frame fun n hn => hadv.frame _ _ (by omega) (by omega)
    · exact hadv.placed
    · have ha := hafter.bounds hother
      have hplaced := hinv.placed other (by simp [hstarted, hother])
      exact hplaced.frame fun n hn => hadv.frame _ _ (by omega) (by omega)
  · intro other hother
    rw [mem_append, mem_cons] at hother
    obtain hother | rfl | hother := hother
    · exact hinv.described other (by simp [hstarted, hother])
    · rw [advance_call]
      exact hinv.described thread hmem
    · exact hinv.described other (by simp [hstarted, hother])
  · simp only [hadv.length, hinv.length, hstarted, requested_append, requested_cons, advance_call]
  · have h4 := hadv.overflow
    have ho := hinv.overflow
    simp only [hstarted, overflowed_append, overflowed_cons] at ho ⊢
    omega
  · obtain ⟨done, rest, hsplit, hprinted⟩ := hinv.printed
    by_cases hthread : thread ∈ done
    · have hsame := hadv.returned 0 (hprinted.returned thread hthread)
      refine ⟨done, rest, ?_, hprinted.returned, hprinted.printed, hprinted.offset⟩
      simp only [hsame, ← hstarted, hsplit]
    · obtain ⟨mid, rfl⟩ := prefix_before (hsplit.symm.trans hstarted) hthread
      refine ⟨done, _, append_assoc .., hprinted.returned, hprinted.printed, hprinted.offset⟩

end ConstructionKit.Printf
