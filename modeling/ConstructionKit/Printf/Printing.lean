import ConstructionKit.Printf.Log

/-! What the host prints of a chunk: the records of the calls that returned 0, as long as the
length counter does not wrap and no record starts at `2^31` or later. -/

namespace ConstructionKit.Printf

open ProofKit Relation List Option

variable {doubleSupport : Bool} {size : UInt32} {mem : Memory} {printfCalls : List Descriptor}
  {s s' : State doubleSupport} {good bad : List (Thread doubleSupport)}
  {thread : Thread doubleSupport} {start : Nat}

/-! ### Printing -/

/-- When all calls have returned, the successful ones are the first ones. -/
theorem successes_first {threads : List (Thread doubleSupport)}
    (hchained : Chained start threads) (hplaced : ∀ thread ∈ threads, thread.Placed size mem)
    (hreturned : ∀ thread ∈ threads, ∃ code, thread.phase = .returned code) :
    ∃ good bad, threads = good ++ bad ∧ (∀ thread ∈ good, thread.phase = .returned 0) ∧
      ∀ thread ∈ bad, thread.phase = .returned (-1) := by
  induction threads generalizing start with
  | nil => exact ⟨[], [], rfl, by simp, by simp⟩
  | cons head threads ih =>
    obtain ⟨hold, hrest⟩ := hchained
    obtain ⟨code, hcode⟩ := hreturned head mem_cons_self
    have hhead := hplaced head mem_cons_self
    rw [Thread.Placed, hcode] at hhead
    obtain ⟨rfl, -, -⟩ | ⟨rfl, hfull⟩ := hhead
    · obtain ⟨good, bad, hsplit, hgood, hbad⟩ := ih hrest
        (fun t ht => hplaced t (mem_cons_of_mem _ ht))
        (fun t ht => hreturned t (mem_cons_of_mem _ ht))
      refine ⟨head :: good, bad, by rw [hsplit, cons_append], ?_, hbad⟩
      exact forall_mem_cons.mpr ⟨hcode, hgood⟩
    · -- the reservations behind one that does not fit do not fit either
      refine ⟨[], head :: threads, rfl, by simp, forall_mem_cons.mpr ⟨hcode, fun t ht => ?_⟩⟩
      have hbound := hrest.bounds ht
      obtain ⟨code, hcode⟩ := hreturned t (mem_cons_of_mem _ ht)
      have ht := hplaced t (mem_cons_of_mem _ ht)
      rw [Thread.Placed, hcode] at ht
      obtain ⟨-, hfits, -⟩ | ⟨rfl, -⟩ := ht
      · omega
      · exact hcode

theorem successes_laid
    (hchained : Chained start good) (hplaced : ∀ thread ∈ good, thread.Placed size mem)
    (hgood : ∀ thread ∈ good, thread.phase = .returned 0) (hstart : start ≤ size.toNat) :
    Laid mem start (good.map fun thread => thread.call) ∧ start + requested good ≤ size.toNat := by
  induction good generalizing start with
  | nil => exact ⟨trivial, by simpa using hstart⟩
  | cons head good ih =>
    obtain ⟨hold, hrest⟩ := hchained
    have hhead := hplaced head mem_cons_self
    rw [Thread.Placed, hgood head mem_cons_self] at hhead
    obtain ⟨-, hfits, hread⟩ | ⟨hcode, -⟩ := hhead
    · have hlaid := ih hrest (fun t ht => hplaced t (mem_cons_of_mem _ ht))
        (fun t ht => hgood t (mem_cons_of_mem _ ht)) (by omega)
      rw [requested_cons, ← Nat.add_assoc]
      exact ⟨⟨hold ▸ hread, hlaid.1⟩, hlaid.2⟩
    · exact absurd hcode (by decide)

theorem overflowed_good
    (h : ∀ thread ∈ good, thread.phase = .returned 0) : overflowed good = 0 := by
  induction good with
  | nil => rfl
  | cons head good ih =>
    rw [overflowed_cons, ih fun t ht => h t (mem_cons_of_mem _ ht), Thread.failed,
      h head mem_cons_self, if_neg (by decide)]

theorem overflowed_bad
    (h : ∀ thread ∈ bad, thread.phase = .returned (-1)) : overflowed bad = requested bad := by
  induction bad with
  | nil => rfl
  | cons head bad ih =>
    rw [overflowed_cons, ih fun t ht => h t (mem_cons_of_mem _ ht), Thread.failed,
      h head mem_cons_self, if_pos rfl, requested_cons]

/-- The calls that have returned 0, in the order of their length adds. -/
def successes (threads : List (Thread doubleSupport)) : List (Thread doubleSupport) :=
  threads.filter fun thread => thread.phase = .returned 0

theorem successes_append (hgood : ∀ thread ∈ good, thread.phase = .returned 0)
    (hbad : ∀ thread ∈ bad, thread.phase = .returned (-1)) : successes (good ++ bad) = good := by
  have hall : good.filter (fun thread => thread.phase = .returned 0) = good :=
    filter_eq_self.mpr fun t ht => by simpa using hgood t ht
  have hnone : bad.filter (fun thread => thread.phase = .returned 0) = [] :=
    filter_eq_nil_iff.mpr fun t ht => by simp [hbad t ht]
  rw [successes, filter_append, hall, hnone, append_nil]

theorem sum_offset_eq_requested (threads : List (Thread doubleSupport)) :
    ((threads.map fun thread => thread.call).map Call.offset).sum = requested threads := by
  rw [List.map_map]
  rfl

/-- Printing now reads inside the chunk, and with it the host has printed the records of the calls
that returned 0, once each and with their own arguments.  It saves where the last of them ends. -/
def PrintsSuccesses (printfCalls : List Descriptor) (size : UInt32) (s : State doubleSupport) :
    Prop :=
  ∃ records groupOffset, printGroup printfCalls size.toNat s.mem s.groupOffset =
      .finished records groupOffset ∧
    s.printed ++ records = (successes s.started).map (fun thread => thread.call.printed) ∧
    groupOffset.toNat = 8 + requested (successes s.started)

theorem printGroup_quiet (hinv : Inv printfCalls size s) (hquiet : s.Quiet)
    (hheader : 8 ≤ size.toNat) : PrintsSuccesses printfCalls size s := by
  obtain ⟨good, bad, hsplit, hgood, hbad⟩ := successes_first hinv.chained hinv.placed hquiet
  have hsucc : successes s.started = good := by rw [hsplit, successes_append hgood hbad]
  obtain ⟨done, rest, hdone, hprinted⟩ := hinv.printed
  obtain ⟨mid, rfl⟩ : ∃ mid, good = done ++ mid := by
    cases bad with
    | nil => exact ⟨rest, by rw [← hdone, hsplit, append_nil]⟩
    | cons head =>
      refine prefix_before (hdone.symm.trans hsplit) fun hmem => ?_
      have h0 := hprinted.returned head hmem
      rw [hbad head mem_cons_self] at h0
      exact absurd h0 (by decide)
  have hchained := hinv.chained
  rw [hsplit, chained_append] at hchained
  obtain ⟨hlaid, hfits⟩ := successes_laid hchained.1
    (fun t ht => hinv.placed t (by rw [hsplit]; exact mem_append_left _ ht)) hgood hheader
  rw [List.map_append, laid_append, sum_offset_eq_requested] at hlaid
  have hlength := hinv.length
  have hover := hinv.overflow
  rw [hsplit, requested_append, requested_append] at hlength
  rw [hsplit, overflowed_append, overflowed_good hgood, overflowed_bad hbad] at hover
  rw [requested_append] at hfits
  have hle : s.mem.readWord 4 ≤ s.mem.readWord 0 := UInt32.le_iff_toNat_le.mpr (by omega)
  have hprint := printGroup_laid size.toNat_lt printfCalls s.groupOffset
    (mid.map fun thread => thread.call)
    (by rw [hprinted.offset]; exact hlaid.2)
    (fun call hcall => by
      obtain ⟨thread, hmem, rfl⟩ := mem_map.mp hcall
      exact hinv.described thread (by rw [hsplit]; simp [hmem]))
    (by rw [hprinted.offset, sum_offset_eq_requested]; omega) (by omega) hheader
  refine ⟨_, _, hprint, ?_, ?_⟩
  · rw [hsucc, hprinted.printed, List.map_append, List.map_map]
    rfl
  · rw [hsucc, UInt32.toNat_sub_of_le _ _ hle, requested_append]
    omega

/-! ### Runs -/

theorem requested_le_of_step (hstep : Step printfCalls size s s') :
    requested s.started ≤ requested s'.started := by
  cases hstep with
  | call => simp
  | advance hstarted => simp [hstarted]
  | print => exact le_rfl

theorem inv_step (hinv : Inv printfCalls size s) (hstep : Step printfCalls size s s')
    (hheader : 8 ≤ size.toNat) (hsize : size.toNat ≤ 2 ^ 31)
    (hlt : 8 + requested s'.started < 2 ^ 32) : Inv printfCalls size s' := by
  have hle := requested_le_of_step hstep
  cases hstep with
  | call call hdesc =>
    exact inv_call hinv hdesc (by simpa [lengthAdd, Nat.add_assoc] using hlt)
  | advance hstarted => exact inv_advance hinv hstarted hsize (by omega)
  | print hquiet hprint =>
    obtain ⟨records, groupOffset, hprint', hrecords, hoffset⟩ :=
      printGroup_quiet hinv hquiet hheader
    obtain ⟨rfl, rfl⟩ := PrintResult.finished.inj (hprint.symm.trans hprint')
    obtain ⟨good, bad, hsplit, hgood, hbad⟩ := successes_first hinv.chained hinv.placed hquiet
    have hsucc : successes s.started = good := by rw [hsplit, successes_append hgood hbad]
    rw [hsucc] at hrecords hoffset
    refine ⟨hinv.chained, hinv.placed, hinv.described, hinv.length, hinv.overflow,
      good, bad, hsplit, hgood, hrecords, ?_⟩
    rw [← hoffset, if_neg]
    rintro rfl
    rw [UInt32.toNat_zero] at hoffset
    omega

theorem inv_run {s₀ : State doubleSupport} (hinit : s₀.Initial)
    (hrun : ReflTransGen (Step printfCalls size) s₀ s) (hheader : 8 ≤ size.toNat)
    (hsize : size.toNat ≤ 2 ^ 31) (hlt : 8 + requested s.started < 2 ^ 32) :
    Inv printfCalls size s := by
  induction hrun with
  | refl => exact inv_initial hinit
  | tail _ hstep ih =>
    have hle := requested_le_of_step hstep
    exact inv_step (ih (by omega)) hstep hheader hsize hlt

/-- In a chunk of 8 to `2^31` bytes whose length counter does not wrap, the host prints exactly the
records of the successful calls, whenever it prints and however the calls were interleaved. -/
theorem prints_successes {s₀ : State doubleSupport} (hinit : s₀.Initial)
    (hrun : ReflTransGen (Step printfCalls size) s₀ s) (hquiet : s.Quiet)
    (hheader : 8 ≤ size.toNat) (hsize : size.toNat ≤ 2 ^ 31)
    (hlt : 8 + requested s.started < 2 ^ 32) : PrintsSuccesses printfCalls size s :=
  printGroup_quiet (inv_run hinit hrun hheader hsize hlt) hquiet hheader

/-- A call with `n` arguments of one byte each. -/
def charCall (n : Nat) : Call false := ⟨0, List.replicate n ⟨.i8, [1], rfl⟩⟩

/-- A chunk of zeros behind its header. -/
def zeroChunk : State false := ⟨fun a => if a = 0 then 8 else 0, [], 0, []⟩

theorem zeroChunk_initial : zeroChunk.Initial := ⟨by decide, by decide, rfl, rfl, rfl⟩

/-- A call with one argument of 8 bytes. -/
def longCall : Call false := ⟨1, [⟨.i64, [1, 2, 3, 4, 5, 6, 7, 8], rfl⟩]⟩

/-- Two calls in a chunk of 16 bytes, of which the second does not fit and is the first to make its
bounds test. -/
theorem prints_successes_small : ∃ s : State false,
    ReflTransGen (Step [(charCall 0).descriptor, longCall.descriptor] 16) zeroChunk s ∧
      (successes s.started).map (fun thread => thread.call.id) = [0] ∧
      PrintsSuccesses [(charCall 0).descriptor, longCall.descriptor] 16 s := by
  have hrun : ReflTransGen (Step [(charCall 0).descriptor, longCall.descriptor] 16) zeroChunk _ :=
    ((((((ReflTransGen.refl.tail
      (.call (charCall 0) rfl)).tail
      (.call longCall rfl)).tail
      (@Step.advance _ _ _ _ [⟨charCall 0, 8, .test⟩] [] ⟨longCall, 12, .test⟩ rfl)).tail
      (@Step.advance _ _ _ _ [] [⟨longCall, 12, .overflow⟩] ⟨charCall 0, 8, .test⟩ rfl)).tail
      (@Step.advance _ _ _ _ [⟨charCall 0, 8, .store 0⟩] [] ⟨longCall, 12, .overflow⟩ rfl)).tail
      (@Step.advance _ _ _ _ [] [⟨longCall, 12, .returned (-1)⟩] ⟨charCall 0, 8, .store 0⟩ rfl)).tail
      (@Step.advance _ _ _ _ [] [⟨longCall, 12, .returned (-1)⟩] ⟨charCall 0, 8, .store 1⟩ rfl)
  refine ⟨_, hrun, by decide, prints_successes zeroChunk_initial hrun ?_ ?_ ?_ ?_⟩
  · intro thread hmem
    obtain rfl | hmem := mem_cons.mp hmem
    · exact ⟨0, by decide⟩
    · rw [mem_singleton.mp hmem]
      exact ⟨-1, rfl⟩
  · decide
  · decide
  · decide

/-! ### The limits -/

theorem step_alone (printfCalls : List Descriptor) (size : UInt32)
    (hstarted : s.started = [thread]) :
    Step printfCalls size s { s with
      mem := (advance size s.mem thread).1
      started := [(advance size s.mem thread).2] } :=
  @Step.advance _ _ _ s [] [] thread hstarted

/-- A call that is alone in the store block makes its stores and returns 0, and does not touch the
bytes at which no store is aimed. -/
theorem run_stores (printfCalls : List Descriptor) (size : UInt32)
    {done : Nat} (hstarted : s.started = [thread])
    (hphase : thread.phase = .store done) (P : Int → Prop)
    (haim : ∀ store ∈ thread.call.stores, ∀ a, P a →
      ¬(gepOffset (thread.old + UInt32.ofNat store.1) ≤ a ∧
        a < gepOffset (thread.old + UInt32.ofNat store.1) + store.2.length)) :
    ∃ mem, ReflTransGen (Step printfCalls size) s
        { s with mem := mem, started := [{ thread with phase := .returned 0 }] } ∧
      ∀ a, P a → mem a = s.mem a := by
  generalize hk : thread.call.stores.length - done = k
  induction k generalizing s thread done with
  | zero =>
    have hnone : thread.call.stores[done]? = none := List.getElem?_eq_none_iff.mpr (by omega)
    have hadv : advance size s.mem thread = (s.mem, { thread with phase := .returned 0 }) := by
      simp only [advance, hphase, hnone]
    have hstep := step_alone printfCalls size hstarted
    rw [hadv] at hstep
    exact ⟨s.mem, .single hstep, fun _ _ => rfl⟩
  | succ k ih =>
    have hlt : done < thread.call.stores.length := by omega
    let store := thread.call.stores[done]
    let next : State doubleSupport := { s with
      mem := s.mem.write (gepOffset (thread.old + UInt32.ofNat store.1)) store.2
      started := [{ thread with phase := .store (done + 1) }] }
    have hstep : Step printfCalls size s next := by
      have hadv : advance size s.mem thread =
          (next.mem, { thread with phase := .store (done + 1) }) := by
        simp only [advance, hphase, getElem?_eq_getElem hlt, next, store]
      have hstep := step_alone printfCalls size hstarted
      rw [hadv] at hstep
      exact hstep
    obtain ⟨mem, hrun, hmem⟩ := @ih next { thread with phase := .store (done + 1) } (done + 1) rfl
      rfl haim (by simp only; omega)
    refine ⟨mem, .head hstep hrun, fun a ha => ?_⟩
    rw [hmem a ha]
    exact if_neg (haim store (getElem_mem hlt) a ha)

theorem charCall_offset (n : Nat) : (charCall n).offset = 4 + n := by
  simp [Call.offset, charCall, ArgType.storeSize, ArgType.sizeInBits]

theorem argStores_mem {offset : Nat} {args : List (Arg doubleSupport)} {store : Nat × List UInt8}
    (h : store ∈ argStores offset args) : ∃ arg ∈ args, store.2 = arg.bytes := by
  induction args generalizing offset with
  | nil => cases h
  | cons arg args ih =>
    rw [argStores] at h
    split at h
    · obtain ⟨arg', hmem, heq⟩ := ih h
      exact ⟨arg', mem_cons_of_mem _ hmem, heq⟩
    · obtain rfl | h := mem_cons.mp h
      · exact ⟨arg, mem_cons_self, rfl⟩
      · obtain ⟨arg', hmem, heq⟩ := ih h
        exact ⟨arg', mem_cons_of_mem _ hmem, heq⟩

theorem gepOffset_eq_ite (index : UInt32) :
    gepOffset index = if index.toNat < 2 ^ 31 then (index.toNat : Int) else index.toNat - 2 ^ 32 := by
  have hdef : index.toBitVec.toNat = index.toNat := rfl
  rw [gepOffset, BitVec.toInt_eq_toNat_cond]
  split <;> split <;> omega

variable {n maxLength fuel : Nat} {data : Memory} {groupOffset read : UInt32} {record : Printed}

/-- No store of a lone `charCall` is aimed at the header or at a byte well behind `2^31`. -/
theorem charCall_aim (hn : 12 + n ≤ 2 ^ 32) (store : Nat × List UInt8)
    (hstore : store ∈ (charCall n).stores) (a : Int)
    (ha : 0 ≤ a ∧ a < 8 ∨ 2 ^ 31 + 8 ≤ a) :
    ¬(gepOffset (8 + UInt32.ofNat store.1) ≤ a ∧
      a < gepOffset (8 + UInt32.ofNat store.1) + store.2.length) := by
  have hlen : store.2.length ≤ 4 := by
    obtain rfl | hmem := mem_cons.mp hstore
    · simp
    · obtain ⟨arg, harg, heq⟩ := argStores_mem hmem
      rw [heq, eq_of_mem_replicate harg]
      simp
  obtain ⟨done, hdone⟩ := mem_iff_getElem?.mp hstore
  have hoffset := Call.stores_getElem hdone
  have hpos := Call.stores_pos hdone
  have hle := (charCall n).length_written_le (done + 1)
  rw [Call.written_succ hdone, length_append, charCall_offset] at hle
  have hsum : (8 + UInt32.ofNat store.1).toNat = 8 + store.1 :=
    toNat_add_ofNat 8 store.1 (by simp; omega)
  rw [gepOffset_eq_ite]
  split <;> omega

theorem readWord_congr {mem' : Memory} {start : Int}
    (h : ∀ i : Nat, i < 4 → mem' (start + i) = mem (start + i)) :
    mem'.readWord start = mem.readWord start := by
  rw [Memory.readWord]
  congr 1
  exact map_congr_left fun i hi => h i (List.mem_range.mp hi)

theorem charCall_run (size : UInt32) (hn : 12 + n ≤ 2 ^ 32)
    (hfits : UInt32.ofNat (12 + n) ≤ size) :
    ∃ mem, ReflTransGen (Step [(charCall n).descriptor] size) zeroChunk
        ⟨mem, [⟨charCall n, 8, .returned 0⟩], 0, []⟩ ∧
      mem.readWord 0 = UInt32.ofNat (12 + n) ∧ mem.readWord 4 = 0 ∧
      ∀ a, 2 ^ 31 + 8 ≤ a → mem a = 0 := by
  let first : Memory := zeroChunk.mem.writeWord 0 (UInt32.ofNat (12 + n))
  have hadd : (8 : UInt32) + UInt32.ofNat (charCall n).offset = UInt32.ofNat (12 + n) := by
    rw [charCall_offset, show 12 + n = 8 + (4 + n) by omega, UInt32.ofNat_add 8]
    rfl
  have hlength : lengthAdd zeroChunk.mem (charCall n) = (first, ⟨charCall n, 8, .test⟩) := by
    rw [lengthAdd, zeroChunk_initial.length, hadd]
  have hcall : Step [(charCall n).descriptor] size zeroChunk _ := .call (charCall n) rfl
  rw [hlength] at hcall
  have htest := step_alone [(charCall n).descriptor] size
    (s := ⟨first, [⟨charCall n, 8, .test⟩], 0, []⟩) rfl
  have hadv : advance size first ⟨charCall n, 8, .test⟩ = (first, ⟨charCall n, 8, .store 0⟩) := by
    simp only [advance, hadd, UInt32.not_lt.mpr hfits, if_false]
  rw [hadv] at htest
  obtain ⟨mem, hrun, hmem⟩ := run_stores [(charCall n).descriptor] size
    (s := ⟨first, [⟨charCall n, 8, .store 0⟩], 0, []⟩) rfl rfl
    (fun a => 0 ≤ a ∧ a < 8 ∨ 2 ^ 31 + 8 ≤ a) (charCall_aim hn)
  refine ⟨mem, .head hcall (.head htest hrun), ?_, ?_, fun a ha => ?_⟩
  · rw [readWord_congr fun i hi => hmem _ (by omega)]
    exact Memory.readWord_writeWord_self ..
  · rw [readWord_congr fun i hi => hmem _ (by omega)]
    exact (Memory.readWord_write_disjoint _ (by simp)).trans zeroChunk_initial.overflow
  · rw [hmem a (.inr ha)]
    simp only [first, Memory.writeWord, Memory.write, length_wordBytes, zeroChunk]
    rw [if_neg (by omega), if_neg (by omega)]

theorem readValues_chars {strings : List String}
    {read' : UInt32} {stringIndex : Nat} {values : List Value} (hlt : read.toNat + n < 2 ^ 32)
    (h : readValues maxLength data strings (List.replicate n .char) read stringIndex =
      some (values, read')) (j : Nat) (hj : j < n) :
    values[j]? = some (.bytes .char [data (read.toNat + j)]) := by
  induction n generalizing read values j with
  | zero => omega
  | succ n ih =>
    rw [replicate_succ, readValues_cons (by decide), bind_eq_bind,
      bind_eq_some_iff] at h
    obtain ⟨bytes, hcopy, h⟩ := h
    rw [bind_eq_bind, bind_eq_some_iff] at h
    obtain ⟨⟨rest, last⟩, hrest, h⟩ := h
    cases h
    cases j with
    | zero =>
      rw [copyFrom] at hcopy
      split at hcopy
      · rw [← Option.some.inj hcopy]
        rfl
      · cases hcopy
    | succ j =>
      have hread := toNat_add_ofNat read PrintfType.char.size (by simp [PrintfType.size]; omega)
      rw [getElem?_cons_succ, ih (by rw [hread, PrintfType.size]; omega) hrest j (by omega),
        hread, PrintfType.size]
      congr 4
      omega

theorem printLoop_acc {records records' : List Printed}
    (h : printLoop printfCalls maxLength data size fuel read records =
      .finished records' groupOffset) : ∃ more, records' = records ++ more := by
  induction fuel generalizing read records with
  | zero => cases h
  | succ fuel ih =>
    rw [printLoop] at h
    split at h
    · split at h
      · cases h
      · dsimp only at h
        split at h
        · cases h
        · split at h
          · cases h
          · obtain ⟨more, rfl⟩ := ih h
            exact ⟨_, append_assoc ..⟩
    · cases h
      exact ⟨[], (append_nil _).symm⟩

theorem quiet_returned (mem : Memory) (call : Call doubleSupport) :
    State.Quiet ⟨mem, [⟨call, 8, .returned 0⟩], 0, []⟩ := by
  intro thread hmem
  rw [mem_singleton.mp hmem]
  exact ⟨0, rfl⟩

/-- With an empty length, nothing is printed. -/
theorem not_printsSuccesses_of_wrapped {call : Call doubleSupport}
    (h0 : mem.readWord 0 = 0) (h4 : mem.readWord 4 = 0) :
    ¬PrintsSuccesses printfCalls 8 ⟨mem, [⟨call, 8, .returned 0⟩], 0, []⟩ := by
  rintro ⟨records, groupOffset, hprint, hrecords, -⟩
  have hword (start : Int) : wordOfBytes (mem.read start 4) = mem.readWord start := rfl
  have hnone : printGroup printfCalls (UInt32.toNat 8) mem 0 = .finished [] 8 := by
    simp [printGroup, copyFrom, hword, h0, h4, printLoop]
  obtain ⟨rfl, -⟩ := PrintResult.finished.inj (hnone.symm.trans hprint)
  simp [successes] at hrecords

theorem printLoop_head (h : printLoop printfCalls maxLength data size fuel read [] =
      .finished [record] groupOffset) :
    ∃ desc read', printfCalls[record.id.toNat]? = some desc ∧
      readValues maxLength data desc.strings desc.types (read + 4) 0 =
        some (record.values, read') := by
  cases fuel with
  | zero => cases h
  | succ =>
    rw [printLoop] at h
    split at h
    · split at h
      · cases h
      · dsimp only at h
        split at h
        · cases h
        · rename_i desc hdesc
          split at h
          · cases h
          · rename_i values read' hvalues
            obtain ⟨more, hmore⟩ := printLoop_acc h
            obtain ⟨rfl, -⟩ := List.cons.inj hmore
            exact ⟨desc, read', hdesc, hvalues⟩
    · cases h

theorem printGroup_head
    (h : printGroup printfCalls maxLength data 0 = .finished [record] groupOffset) :
    ∃ desc read', printfCalls[record.id.toNat]? = some desc ∧
      readValues maxLength data desc.strings desc.types 12 0 = some (record.values, read') := by
  rw [printGroup] at h
  split at h
  · dsimp only at h
    split at h
    · cases h
    · split at h
      · cases h
      · exact printLoop_head h
  · cases h

/-- The last argument of a `charCall` is printed only if it is in the chunk. -/
theorem last_char_of_printsSuccesses (hpos : 0 < n) (hn : 12 + n < 2 ^ 32)
    (h : PrintsSuccesses [(charCall n).descriptor] size
      ⟨mem, [⟨charCall n, 8, .returned 0⟩], 0, []⟩) : mem (11 + n : Nat) = 1 := by
  obtain ⟨records, groupOffset, hprint, hrecords, -⟩ := h
  obtain rfl : records = [(charCall n).printed] := by simpa [successes] using hrecords
  obtain ⟨desc, read', hdesc, hvalues⟩ := printGroup_head hprint
  obtain rfl : (charCall n).descriptor = desc := by simpa [Call.printed, charCall] using hdesc
  have htypes : (charCall n).descriptor.types = List.replicate n .char := by
    simp [Call.descriptor, charCall, ArgType.printfType]
  rw [htypes] at hvalues
  have hlast := readValues_chars (by simpa using hn) hvalues (n - 1) (by omega)
  have hone : (charCall n).printed.values[n - 1]? = some (.bytes .char [1]) := by
    simp [Call.printed, charCall, Arg.value, ArgType.text, ArgType.printfType, hpos]
  rw [hlast, some_inj, Value.bytes.injEq] at hone
  obtain ⟨hbyte, -⟩ := List.cons.inj hone.2
  rw [← hbyte]
  congr 1
  simp
  omega

/-- A lone call for which the length wraps to 0 returns 0 and is not printed. -/
theorem charCall_wraps (hn : 12 + n = 2 ^ 32) :
    ∃ s : State false, ReflTransGen (Step [(charCall n).descriptor] 8) zeroChunk s ∧ s.Quiet ∧
      requested s.started < 2 ^ 32 ∧ ¬PrintsSuccesses [(charCall n).descriptor] 8 s := by
  have hword : UInt32.ofNat (12 + n) = 0 := by rw [hn]; rfl
  obtain ⟨mem, hrun, h0, h4, -⟩ :=
    charCall_run 8 hn.le (by rw [hword]; exact UInt32.zero_le)
  refine ⟨_, hrun, quiet_returned mem _, ?_, not_printsSuccesses_of_wrapped (h0.trans hword) h4⟩
  rw [requested_cons, charCall_offset, requested_nil]
  omega

/-- A lone call whose last argument lies behind `2^31` returns 0, and another argument is printed in
place of that one. -/
theorem charCall_behind (hn : n = 2 ^ 31) :
    ∃ s : State false, ReflTransGen (Step [(charCall n).descriptor] (2 ^ 31 + 12)) zeroChunk s ∧
      s.Quiet ∧ requested s.started < 2 ^ 32 ∧
      ¬PrintsSuccesses [(charCall n).descriptor] (2 ^ 31 + 12) s := by
  obtain ⟨mem, hrun, -, -, hzero⟩ :=
    charCall_run (2 ^ 31 + 12) (n := n) (by omega) (by rw [hn]; decide)
  refine ⟨_, hrun, quiet_returned mem _, ?_, fun h => ?_⟩
  · rw [requested_cons, charCall_offset, requested_nil]
    omega
  · have hone := last_char_of_printsSuccesses (by omega) (by omega) h
    rw [hzero _ (by omega)] at hone
    exact absurd hone (by decide)

theorem prints_successes_fails :
    zeroChunk.Initial ∧
    (∃ s : State false,
      ReflTransGen (Step [(charCall (2 ^ 32 - 12)).descriptor] 8) zeroChunk s ∧ s.Quiet ∧
      requested s.started < 2 ^ 32 ∧
      ¬PrintsSuccesses [(charCall (2 ^ 32 - 12)).descriptor] 8 s) ∧
    ∃ s : State false,
      ReflTransGen (Step [(charCall (2 ^ 31)).descriptor] (2 ^ 31 + 12)) zeroChunk s ∧ s.Quiet ∧
      requested s.started < 2 ^ 32 ∧
      ¬PrintsSuccesses [(charCall (2 ^ 31)).descriptor] (2 ^ 31 + 12) s :=
  ⟨zeroChunk_initial, charCall_wraps (by omega), charCall_behind rfl⟩

end ConstructionKit.Printf
