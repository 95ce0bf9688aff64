import ConstructionKit.Mem.Mapping
import ConstructionKit.ProofKit.Runs

/-! What the table of write mappings says about the mappings of the application.  As long as no two
mappings get in each other's way by their pointer, every write mapping has its record in the table
until its unmap command is executed. -/

namespace ConstructionKit.Mem

open ProofKit List Function

variable {ι : Type} {table : WriteMappings} {ptr p : Nat}

/-! ### Conditions -/

/-- The mappings that are ended by the commands of a queue, in its order, each with the object
through which it was unmapped. -/
def endings (commands : List (Command ι)) : List (MemObject ι × AppMapping ι) :=
  commands.filterMap fun
    | .unmap object _ (some m) => some (object, m)
    | _ => none

/-- The pointer that a map call returns. -/
def nextPointer (family : Family ι) (state : State ι) (buffer : MemObject ι) (offset : UInt64)
    (base : Nat) : Nat :=
  family.hostPtr.getD (if state.mapCount = 0 then base else state.mapBasePointer) +
    (offset + (family.object buffer).offset).toNat

/-- An unmap call ends a mapping that the application has, and does not find the record of another
one: the mapping writes, or no write mapping has its pointer. -/
def EndsOwn (s : System ι) (ptr : Nat) : Option (AppMapping ι) → Prop
  | none => False
  | some m => m.writes = false → ∀ m' ∈ s.live, m'.writes = true → m'.ptr ≠ ptr

instance (s : System ι) (ptr : Nat) : ∀ ends, Decidable (EndsOwn s ptr ends)
  | none => inferInstanceAs (Decidable False)
  | some m => inferInstanceAs
      (Decidable (m.writes = false → ∀ m' ∈ s.live, m'.writes = true → m'.ptr ≠ ptr))

/-- The pointer of a write mapping is not that of another one, nor that of a mapping whose unmap
command is still to be executed; and its offset and size fit in a record. -/
def Orderly (family : Family ι) (s : System ι) : Call ι → Prop
  | .map buffer mapFlags offset size base => (mapAccess mapFlags).writes = true →
    ((family.object buffer).offset.toNat + offset.toNat < 2 ^ 32 ∧ size.toNat < 2 ^ 32) ∧
    (∀ m ∈ s.live, m.writes = true → m.ptr ≠ nextPointer family s.state buffer offset base) ∧
    ∀ e ∈ endings s.state.pending, e.2.ptr ≠ nextPointer family s.state buffer offset base
  | .unmap _ ptr ends => EndsOwn s ptr ends
  | .execute => True

instance (family : Family ι) (s : System ι) : ∀ call, Decidable (Orderly family s call)
  | .map buffer mapFlags offset size base => inferInstanceAs
      (Decidable ((mapAccess mapFlags).writes = true →
        ((family.object buffer).offset.toNat + offset.toNat < 2 ^ 32 ∧ size.toNat < 2 ^ 32) ∧
        (∀ m ∈ s.live, m.writes = true → m.ptr ≠ nextPointer family s.state buffer offset base) ∧
        ∀ e ∈ endings s.state.pending, e.2.ptr ≠ nextPointer family s.state buffer offset base))
  | .unmap _ ptr ends => inferInstanceAs (Decidable (EndsOwn s ptr ends))
  | .execute => inferInstanceAs (Decidable True)

/-! ### Steps -/

section Steps

variable [DecidableEq ι] {family : Family ι} {s t : System ι}

/-- What an accepted call or an execution does. -/
inductive StepCases (family : Family ι) (s : System ι) : Call ι → System ι → Prop
  | map {buffer mapFlags offset size base access}
      (arguments : checkMapArguments family buffer mapFlags offset size = .ok access)
      (apart : access.writes = true → overlaps (s.state.writeMappings buffer) offset size = false) :
      StepCases family s (.map buffer mapFlags offset size base)
        ⟨(pushMapMemory family s.state buffer offset size access base).2,
          s.live ++ [appMapping family buffer mapFlags offset size
            (nextPointer family s.state buffer offset base)]⟩
  | stray {memobj ptr} :
      StepCases family s (.unmap memobj ptr none)
        ⟨{ s.state with
            writeMappings := update s.state.writeMappings memobj
              (deactivate (s.state.writeMappings memobj) ptr)
            pending := s.state.pending ++ [.unmap memobj ptr none] }, s.live⟩
  | unmap {memobj m} (mem : m ∈ s.live) :
      StepCases family s (.unmap memobj m.ptr (some m))
        ⟨{ s.state with
            writeMappings := update s.state.writeMappings memobj
              (deactivate (s.state.writeMappings memobj) m.ptr)
            pending := s.state.pending ++ [.unmap memobj m.ptr (some m)] }, s.live.erase m⟩
  | executeMap {offset size access rest}
      (pending : s.state.pending = .map offset size access :: rest) :
      StepCases family s .execute ⟨{ s.state with pending := rest }, s.live⟩
  | executeUnmap {memobj ptr ends rest}
      (pending : s.state.pending = .unmap memobj ptr ends :: rest) :
      StepCases family s .execute
        ⟨{ mapCount := s.state.mapCount - 1
           mapBasePointer := if s.state.mapCount = 1 then 0 else s.state.mapBasePointer
           writeMappings := update s.state.writeMappings none
             ((s.state.writeMappings none).erase ptr)
           pending := rest }, s.live⟩

omit [DecidableEq ι] in
theorem checkMapArguments_access {buffer : MemObject ι} {mapFlags offset size : UInt64}
    {access : MapAccess} (h : checkMapArguments family buffer mapFlags offset size = .ok access) :
    access = mapAccess mapFlags ∧ 0 < size.toNat ∧ offset + size ≤ (family.object buffer).size := by
  have hpos : size ≠ 0 → 0 < size.toNat := fun hsize =>
    Nat.pos_of_ne_zero fun hzero => hsize (UInt64.toNat_inj.1 hzero)
  unfold checkMapArguments at h
  grind

section Push

variable (state : State ι) (buffer : MemObject ι) (offset size : UInt64) (access : MapAccess)
  (base : Nat)

theorem pushMapMemory_fst : (pushMapMemory family state buffer offset size access base).1 =
    nextPointer family state buffer offset base := by
  simp only [pushMapMemory, nextPointer]
  split <;> rfl

@[simp] theorem pushMapMemory_mapCount :
    (pushMapMemory family state buffer offset size access base).2.mapCount =
      state.mapCount + 1 := by
  simp only [pushMapMemory]
  split <;> rfl

@[simp] theorem pushMapMemory_mapBasePointer :
    (pushMapMemory family state buffer offset size access base).2.mapBasePointer =
      if state.mapCount = 0 then base else state.mapBasePointer := by
  simp only [pushMapMemory]
  split <;> rfl

@[simp] theorem pushMapMemory_pending :
    (pushMapMemory family state buffer offset size access base).2.pending =
      state.pending ++ [.map (offset + (family.object buffer).offset) size access] := by
  simp only [pushMapMemory]
  split <;> rfl

theorem pushMapMemory_writeMappings :
    (pushMapMemory family state buffer offset size access base).2.writeMappings =
      update state.writeMappings none (if access.writes then
        insertMapping (state.writeMappings none) (nextPointer family state buffer offset base)
          ⟨(offset + (family.object buffer).offset).toUInt32, size.toUInt32, true⟩
        else state.writeMappings none) := by
  simp only [pushMapMemory, nextPointer]
  split <;> rfl

end Push

theorem enqueueUnmapMemObject_ok {state : State ι} {memobj : MemObject ι}
    {ends : Option (AppMapping ι)}
    (h : enqueueUnmapMemObject family s.state memobj ptr ends = .ok state) :
    state = { s.state with
      writeMappings := update s.state.writeMappings memobj
        (deactivate (s.state.writeMappings memobj) ptr)
      pending := s.state.pending ++ [.unmap memobj ptr ends] } := by
  simp only [enqueueUnmapMemObject] at h
  split_ifs at h
  exact (Except.ok.inj h).symm

theorem step_cases {call : Call ι} (h : s.step family call = some t) :
    StepCases family s call t := by
  cases call with
  | map buffer mapFlags offset size =>
    simp only [System.step, enqueueMapBuffer] at h
    cases harguments : checkMapArguments family buffer mapFlags offset size with
    | error => simp [harguments] at h
    | ok access =>
      simp only [harguments] at h
      by_cases hoverlaps :
          (access.writes && overlaps (s.state.writeMappings buffer) offset size) = true
      · simp [hoverlaps] at h
      · simp only [hoverlaps, Bool.false_eq_true, if_false, Option.some.injEq] at h
        subst h
        rw [pushMapMemory_fst]
        exact .map harguments (by simpa using hoverlaps)
  | unmap memobj ptr ends =>
    simp only [System.step] at h
    cases hresult : enqueueUnmapMemObject family s.state memobj ptr ends with
    | error => simp [hresult] at h
    | ok =>
      obtain rfl := enqueueUnmapMemObject_ok hresult
      cases ends with
      | none =>
        simp only [hresult, Option.some.injEq] at h
        exact h ▸ .stray
      | some =>
        simp only [hresult] at h
        split at h
        · rename_i hown
          obtain ⟨hmem, rfl⟩ := hown
          exact Option.some.inj h ▸ .unmap hmem
        · cases h
  | execute =>
    simp only [System.step, executeNext] at h
    split at h
    · cases h
    · rename_i hpending
      exact Option.some.inj h ▸ .executeMap hpending
    · rename_i hpending
      exact Option.some.inj h ▸ .executeUnmap hpending

end Steps

/-! ### Operations on a table -/

theorem deactivate_of_notMem (h : ptr ∉ table) : deactivate table ptr = table := by
  rw [deactivate, Finmap.lookup_eq_none.2 h]

theorem lookup_deactivate_of_ne (h : p ≠ ptr) :
    (deactivate table ptr).lookup p = table.lookup p := by
  unfold deactivate
  split
  · split
    · exact Finmap.lookup_insert_of_ne _ h
    · rfl
  · rfl

theorem lookup_deactivate (table : WriteMappings) (ptr : Nat) :
    (deactivate table ptr).lookup ptr =
      (table.lookup ptr).map fun r => { r with isActive := false } := by
  unfold deactivate
  split
  · rename_i r hr
    split
    · rw [Finmap.lookup_insert, hr]
      rfl
    · rename_i hinactive
      obtain ⟨offset, size, active⟩ := r
      obtain rfl : active = false := by simpa using hinactive
      rw [hr]
      rfl
  · rename_i hr
    rw [hr]
    rfl

theorem mem_deactivate : p ∈ deactivate table ptr ↔ p ∈ table := by
  rw [← Finmap.lookup_isSome, ← Finmap.lookup_isSome]
  by_cases h : p = ptr
  · rw [h, lookup_deactivate, Option.isSome_map]
  · rw [lookup_deactivate_of_ne h]

/-! ### The ledger -/

/-- The table holds `r` at the pointer of `m`, with the range of `m`. -/
structure HasRecord (table : WriteMappings) (m : AppMapping ι) (r : WriteMapping) : Prop where
  lookup : table.lookup m.ptr = some r
  offset : r.offset.toNat = m.offset
  size : r.size.toNat = m.size

/-- The table of the parent against the mappings that the application has, and those that it has
unmapped by commands which are still to be executed. -/
structure Ledger (table : WriteMappings) (ended : List (MemObject ι × AppMapping ι))
    (live : List (AppMapping ι)) : Prop where
  ofLive : ∀ m ∈ live, m.writes = true → ∃ r, HasRecord table m r ∧ r.isActive = true
  ofEnded : ∀ e ∈ ended, e.2.writes = true →
    ∃ r, HasRecord table e.2 r ∧ (e.1 = none → r.isActive = false)
  owned : ∀ p ∈ table, (∃ m ∈ live, m.writes = true ∧ m.ptr = p) ∨
    ∃ e ∈ ended, e.2.writes = true ∧ e.2.ptr = p
  liveApart : live.Pairwise fun m m' => m.writes = true → m'.writes = true → m.ptr ≠ m'.ptr
  -- what comes first in the queue may not take the record of what comes later
  endedApart : ended.Pairwise fun e e' => e'.2.writes = true → e.2.ptr ≠ e'.2.ptr
  apart : ∀ e ∈ ended, ∀ m ∈ live, m.writes = true → e.2.ptr ≠ m.ptr

variable {m : AppMapping ι} {r : WriteMapping}

theorem HasRecord.of_lookup_eq {table' : WriteMappings}
    (h : HasRecord table m r) (heq : table'.lookup m.ptr = table.lookup m.ptr) :
    HasRecord table' m r :=
  ⟨heq.trans h.lookup, h.offset, h.size⟩

/-- The table of the parent after an unmap call through `memobj`, which only looks at the table of
`memobj` itself. -/
def unmapTable (memobj : MemObject ι) (ptr : Nat) (table : WriteMappings) : WriteMappings :=
  match memobj with
  | none => deactivate table ptr
  | some _ => table

theorem lookup_unmapTable_of_ne {memobj : MemObject ι}
    (h : p ≠ ptr) : (unmapTable memobj ptr table).lookup p = table.lookup p := by
  cases memobj with
  | none => exact lookup_deactivate_of_ne h
  | some => rfl

theorem mem_unmapTable {memobj : MemObject ι} : p ∈ unmapTable memobj ptr table ↔ p ∈ table := by
  cases memobj with
  | none => exact mem_deactivate
  | some => rfl

/-- A record survives an unmap call, and is inactive after one through the parent. -/
theorem HasRecord.unmapTable (h : HasRecord table m r) (memobj : MemObject ι) (ptr : Nat) :
    ∃ r', HasRecord (unmapTable memobj ptr table) m r' ∧
      (r.isActive = false → r'.isActive = false) ∧
      (memobj = none → m.ptr = ptr → r'.isActive = false) := by
  cases memobj with
  | some => exact ⟨r, h, id, nofun⟩
  | none =>
    by_cases heq : m.ptr = ptr
    · refine ⟨{ r with isActive := false }, ⟨?_, h.offset, h.size⟩, fun _ => rfl, fun _ _ => rfl⟩
      subst heq
      exact (lookup_deactivate table m.ptr).trans (by rw [h.lookup]; rfl)
    · exact ⟨r, h.of_lookup_eq (lookup_deactivate_of_ne heq), id, fun _ hptr => absurd hptr heq⟩

namespace Ledger

variable {ended : List (MemObject ι × AppMapping ι)} {live : List (AppMapping ι)}

theorem nil : Ledger (∅ : WriteMappings) ([] : List (MemObject ι × AppMapping ι)) [] where
  ofLive := by simp
  ofEnded := by simp
  owned p hp := absurd hp Finmap.notMem_empty
  liveApart := .nil
  endedApart := .nil
  apart := by simp

section

variable (h : Ledger table ended live)
include h

theorem map_read (hm : m.writes = false) :
    Ledger table ended (live ++ [m]) where
  ofLive m' hm' hw := h.ofLive m' (by grind) hw
  ofEnded := h.ofEnded
  owned p hp := (h.owned p hp).imp_left fun ⟨m', hm', hw⟩ => ⟨m', mem_append_left _ hm', hw⟩
  liveApart := pairwise_append.2 ⟨h.liveApart, pairwise_singleton _ _, by grind⟩
  endedApart := h.endedApart
  apart e he m' hm' hw := h.apart e he m' (by grind) hw

theorem map_write (hm : m.writes = true)
    (hoffset : r.offset.toNat = m.offset) (hsize : r.size.toNat = m.size)
    (hactive : r.isActive = true)
    (hlive : ∀ m' ∈ live, m'.writes = true → m'.ptr ≠ m.ptr)
    (hended : ∀ e ∈ ended, e.2.ptr ≠ m.ptr) :
    Ledger (insertMapping table m.ptr r) ended (live ++ [m]) := by
  have hfresh : m.ptr ∉ table := by
    intro hmem
    rcases h.owned _ hmem with ⟨m', hm', hw, heq⟩ | ⟨e, he, -, heq⟩
    · exact hlive m' hm' hw heq
    · exact hended e he heq
  rw [insertMapping, if_neg hfresh]
  refine ⟨?_, ?_, ?_, ?_, h.endedApart, ?_⟩
  · intro m' hm' hw
    rcases mem_append.1 hm' with hold | hnew
    · obtain ⟨r', hr', ha⟩ := h.ofLive m' hold hw
      exact ⟨r', hr'.of_lookup_eq (Finmap.lookup_insert_of_ne _ (hlive m' hold hw)), ha⟩
    · obtain rfl := mem_singleton.1 hnew
      exact ⟨r, ⟨Finmap.lookup_insert _, hoffset, hsize⟩, hactive⟩
  · intro e he hw
    obtain ⟨r', hr', ha⟩ := h.ofEnded e he hw
    exact ⟨r', hr'.of_lookup_eq (Finmap.lookup_insert_of_ne _ (hended e he)), ha⟩
  · intro p hp
    rcases Finmap.mem_insert.1 hp with rfl | hold
    · exact .inl ⟨m, by simp, hm, rfl⟩
    · exact (h.owned p hold).imp_left fun ⟨m', hm', hw⟩ => ⟨m', mem_append_left _ hm', hw⟩
  · refine pairwise_append.2 ⟨h.liveApart, pairwise_singleton _ _, ?_⟩
    intro m' hm' m'' hm'' hw _
    rw [mem_singleton.1 hm'']
    exact hlive m' hm' hw
  · intro e he m' hm' hw
    rcases mem_append.1 hm' with hold | hnew
    · exact h.apart e he m' hold hw
    · rw [mem_singleton.1 hnew]
      exact hended e he

theorem ptr_ne_of_mem_erase [DecidableEq ι] {m' : AppMapping ι}
    (hmem : m ∈ live) (hm : m.writes = true) (hm' : m' ∈ live.erase m) (hw : m'.writes = true) :
    m'.ptr ≠ m.ptr := by
  have hpairs := (perm_cons_erase hmem).pairwise_iff (fun h hw hw' => (h hw' hw).symm)
    |>.1 h.liveApart
  exact ((pairwise_cons.1 hpairs).1 m' hm' hm hw).symm

theorem unmap [DecidableEq ι] {memobj : MemObject ι}
    (hmem : m ∈ live)
    (hown : m.writes = false → ∀ m' ∈ live, m'.writes = true → m'.ptr ≠ m.ptr) :
    Ledger (unmapTable memobj m.ptr table) (ended ++ [(memobj, m)]) (live.erase m) := by
  have hother : ∀ m' ∈ live.erase m, m'.writes = true → m'.ptr ≠ m.ptr := by
    intro m' hm' hw
    cases hm : m.writes with
    | false => exact hown hm m' (mem_of_mem_erase hm') hw
    | true => exact h.ptr_ne_of_mem_erase hmem hm hm' hw
  refine ⟨?_, ?_, ?_, h.liveApart.sublist erase_sublist, ?_, ?_⟩
  · intro m' hm' hw
    obtain ⟨r, hr, ha⟩ := h.ofLive m' (mem_of_mem_erase hm') hw
    exact ⟨r, hr.of_lookup_eq (lookup_unmapTable_of_ne (hother m' hm' hw)), ha⟩
  · intro e he hw
    rcases mem_append.1 he with hold | hnew
    · obtain ⟨r, hr, ha⟩ := h.ofEnded e hold hw
      obtain ⟨r', hr', hkeeps, -⟩ := hr.unmapTable memobj m.ptr
      exact ⟨r', hr', fun hnone => hkeeps (ha hnone)⟩
    · obtain rfl := mem_singleton.1 hnew
      obtain ⟨r, hr, -⟩ := h.ofLive m hmem hw
      obtain ⟨r', hr', -, hends⟩ := hr.unmapTable memobj m.ptr
      exact ⟨r', hr', fun hnone => hends hnone rfl⟩
  · intro p hp
    rcases h.owned p (mem_unmapTable.1 hp) with ⟨m', hm', hw, rfl⟩ | ⟨e, he, hw, rfl⟩
    · by_cases heq : m' = m
      · exact .inr ⟨(memobj, m), by simp, heq ▸ hw, by rw [heq]⟩
      · exact .inl ⟨m', (mem_erase_of_ne heq).2 hm', hw, rfl⟩
    · exact .inr ⟨e, mem_append_left _ he, hw, rfl⟩
  · refine pairwise_append.2 ⟨h.endedApart, pairwise_singleton _ _, ?_⟩
    intro e he e' he' hw
    obtain rfl := mem_singleton.1 he'
    exact h.apart e he m hmem hw
  · intro e he m' hm' hw
    rcases mem_append.1 he with hold | hnew
    · exact h.apart e hold m' (mem_of_mem_erase hm') hw
    · rw [mem_singleton.1 hnew]
      exact (hother m' hm' hw).symm

end

theorem execute {memobj : MemObject ι}
    (h : Ledger table ((memobj, m) :: ended) live) : Ledger (table.erase m.ptr) ended live := by
  have hended := (pairwise_cons.1 h.endedApart).1
  have hlive := h.apart _ (mem_cons_self ..)
  refine ⟨?_, ?_, ?_, h.liveApart, (pairwise_cons.1 h.endedApart).2, ?_⟩
  · intro m' hm' hw
    obtain ⟨r, hr, ha⟩ := h.ofLive m' hm' hw
    exact ⟨r, hr.of_lookup_eq (Finmap.lookup_erase_ne (hlive m' hm' hw).symm), ha⟩
  · intro e he hw
    obtain ⟨r, hr, ha⟩ := h.ofEnded e (mem_cons_of_mem _ he) hw
    exact ⟨r, hr.of_lookup_eq (Finmap.lookup_erase_ne (hended e he hw).symm), ha⟩
  · intro p hp
    obtain ⟨hne, hp⟩ := Finmap.mem_erase.1 hp
    rcases h.owned p hp with hlive | ⟨e, he, hw, rfl⟩
    · exact .inl hlive
    · rcases mem_cons.1 he with rfl | he
      · exact absurd rfl hne
      · exact .inr ⟨e, he, hw, rfl⟩
  · exact fun e he => h.apart e (mem_cons_of_mem _ he)

end Ledger

/-! ### Runs -/

structure Recorded (s : System ι) : Prop where
  named : ∀ memobj ptr ends, Command.unmap memobj ptr ends ∈ s.state.pending →
    ∃ m, ends = some m ∧ m.ptr = ptr
  subBuffers : ∀ i, s.state.writeMappings (some i) = ∅
  ledger : Ledger (s.state.writeMappings none) (endings s.state.pending) s.live

theorem recorded_init : Recorded (System.init : System ι) :=
  ⟨by simp [System.init, State.init], fun _ => rfl, .nil⟩

variable (commands : List (Command ι))

@[simp] theorem endings_append_map (offset size : UInt64)
    (access : MapAccess) : endings (commands ++ [.map offset size access]) = endings commands := by
  simp [endings]

@[simp] theorem endings_append_unmap (memobj : MemObject ι)
    (ptr : Nat) (m : AppMapping ι) : endings (commands ++ [.unmap memobj ptr (some m)]) =
      endings commands ++ [(memobj, m)] := by
  simp [endings]

@[simp] theorem endings_cons_unmap (memobj : MemObject ι)
    (ptr : Nat) (m : AppMapping ι) : endings (.unmap memobj ptr (some m) :: commands) =
      (memobj, m) :: endings commands := rfl

section Runs

variable [DecidableEq ι] {family : Family ι} {s t : System ι}

theorem Recorded.map {buffer : MemObject ι} {mapFlags offset size : UInt64} {base : Nat}
    {access : MapAccess} (h : Recorded s)
    (arguments : checkMapArguments family buffer mapFlags offset size = .ok access)
    (orderly : Orderly family s (.map buffer mapFlags offset size base)) :
    Recorded ⟨(pushMapMemory family s.state buffer offset size access base).2,
      s.live ++ [appMapping family buffer mapFlags offset size
        (nextPointer family s.state buffer offset base)]⟩ := by
  obtain ⟨rfl, -, -⟩ := checkMapArguments_access arguments
  refine ⟨?_, ?_, ?_⟩
  · intro memobj ptr ends hmem
    refine h.named memobj ptr ends ?_
    simpa using hmem
  · intro i
    simp [pushMapMemory_writeMappings, h.subBuffers]
  · simp only [pushMapMemory_pending, pushMapMemory_writeMappings, endings_append_map]
    split
    · rename_i hwrites
      obtain ⟨⟨hoffset, hsize⟩, hlive, hended⟩ := orderly hwrites
      refine h.ledger.map_write (m := appMapping family buffer mapFlags offset size
        (nextPointer family s.state buffer offset base))
        (r := ⟨(offset + (family.object buffer).offset).toUInt32, size.toUInt32, true⟩)
        hwrites ?_ ?_ rfl hlive hended
      · simp only [appMapping, UInt64.toNat_toUInt32, UInt64.toNat_add]
        omega
      · simp only [appMapping, UInt64.toNat_toUInt32]
        omega
    · rename_i hreads
      exact h.ledger.map_read (m := appMapping family buffer mapFlags offset size
        (nextPointer family s.state buffer offset base)) (Bool.not_eq_true _ ▸ hreads)

theorem unmap_writeMappings_none (memobj : MemObject ι) (ptr : Nat) :
    update s.state.writeMappings memobj
      (deactivate (s.state.writeMappings memobj) ptr) none =
        unmapTable memobj ptr (s.state.writeMappings none) := by
  cases memobj <;> simp [unmapTable]

theorem Recorded.unmap (h : Recorded s) {memobj : MemObject ι}
    (hmem : m ∈ s.live) (hown : EndsOwn s m.ptr (some m)) :
    Recorded ⟨{ s.state with
      writeMappings := update s.state.writeMappings memobj
        (deactivate (s.state.writeMappings memobj) m.ptr)
      pending := s.state.pending ++ [.unmap memobj m.ptr (some m)] }, s.live.erase m⟩ := by
  refine ⟨?_, ?_, ?_⟩
  · intro memobj' ptr ends hcommand
    rcases mem_append.1 hcommand with hold | hnew
    · exact h.named memobj' ptr ends hold
    · cases mem_singleton.1 hnew
      exact ⟨m, rfl, rfl⟩
  · intro i
    by_cases heq : some i = memobj
    · subst heq
      simp [h.subBuffers, deactivate_of_notMem Finmap.notMem_empty]
    · exact (update_of_ne heq _ _).trans (h.subBuffers i)
  · simp only [unmap_writeMappings_none, endings_append_unmap]
    exact h.ledger.unmap hmem hown

theorem recorded_step {call : Call ι} (allowed : Orderly family s call)
    (hstep : s.step family call = some t) (h : Recorded s) : Recorded t := by
  cases step_cases hstep with
  | map arguments => exact h.map arguments allowed
  | stray => exact absurd allowed id
  | unmap hmem => exact h.unmap hmem allowed
  | executeMap hpending =>
    refine ⟨fun memobj ptr ends hmem => h.named memobj ptr ends ?_, h.subBuffers, ?_⟩
    · exact hpending ▸ mem_cons_of_mem _ hmem
    · have := h.ledger
      rwa [hpending] at this
  | @executeUnmap memobj ptr ends rest hpending =>
    obtain ⟨m, rfl, rfl⟩ := h.named memobj ptr ends (hpending ▸ mem_cons_self ..)
    refine ⟨fun memobj ptr ends hmem => h.named memobj ptr ends ?_, fun i => h.subBuffers i, ?_⟩
    · exact hpending ▸ mem_cons_of_mem _ hmem
    · have := h.ledger
      rw [hpending, endings_cons_unmap] at this
      simpa using this.execute

theorem recorded_of_runs (run : Runs (System.step family) (Orderly family) System.init s) :
    Recorded s :=
  run.invariant recorded_step recorded_init

/-! ### Publishing -/

/-- The copy from the host pointer and the flush to the device of the range of a mapping. -/
def publication (family : Family ι) (m : AppMapping ι) : List Effect :=
  (if family.hostPtr.isSome then [.copyFromHost m.offset m.size] else []) ++
    [.flushToDevice m.offset m.size]

/-- In a run of orderly calls, the unmap command of a write mapping publishes its range. -/
theorem unmap_publishes (run : Runs (System.step family) (Orderly family) System.init s)
    {memobj : MemObject ι} {ptr : Nat} {m : AppMapping ι} {rest : List (Command ι)}
    (next : s.state.pending = .unmap memobj ptr (some m) :: rest) (writes : m.writes = true) :
    ∃ state, executeNext family s.state = some (state, publication family m ++
      if s.state.mapCount = 1 then [.unmapMemory] else []) := by
  have h := recorded_of_runs run
  obtain ⟨_, ⟨⟩, rfl⟩ := h.named memobj ptr (some m) (next ▸ mem_cons_self ..)
  obtain ⟨r, hr, -⟩ := h.ledger.ofEnded (memobj, m) (by simp [next]) writes
  simp only [executeNext, next, hr.lookup, publishEffects, hr.offset, hr.size]
  exact ⟨_, rfl⟩

end Runs

/-- A buffer of 64 bytes, with a sub-buffer of its first 32 bytes. -/
def smallFamily : Family Unit :=
  ⟨⟨0, 64, false, false, false⟩, fun _ => ⟨0, 32, false, false, false⟩, none, 1024,
    rfl⟩

/-- The write mapping of the first 16 bytes of an object. -/
def firstBytes (object : MemObject Unit) : AppMapping Unit := ⟨object, 4096, 0, 16, true⟩

theorem unmap_publishes_once : ∃ s : System Unit,
    Runs (System.step smallFamily) (Orderly smallFamily) System.init s ∧
    ∃ state, executeNext smallFamily s.state =
      some (state, publication smallFamily (firstBytes none) ++ [.unmapMemory]) :=
  have run := Runs.follow_getD (System.step smallFamily) (Orderly smallFamily) System.init
    [.map none 2 0 16 4096, .unmap none 4096 (some (firstBytes none)), .execute]
    System.init (by decide)
  have next : _ = [Command.unmap none 4096 (some (firstBytes none))] := rfl
  ⟨_, run, unmap_publishes run next rfl⟩

/-- The first bytes are mapped, unmapped, and mapped again; the first unmap command then takes the
record of the second mapping. -/
theorem unmap_publishes_fails : ∃ (s : System Unit) (state : State Unit),
    Runs (System.step smallFamily) (fun _ _ => True) System.init s ∧
    s.state.pending = [.unmap none 4096 (some (firstBytes none))] ∧
    (firstBytes none).writes = true ∧
    executeNext smallFamily s.state = some (state, [.unmapMemory]) := by
  have run := Runs.follow_getD (System.step smallFamily) (fun _ _ => True) System.init
    [.map none 2 0 16 4096, .unmap none 4096 (some (firstBytes none)), .map none 2 0 16 4096,
      .execute, .execute, .unmap none 4096 (some (firstBytes none)), .execute]
    System.init (by decide)
  exact ⟨_, _, run, rfl, rfl, rfl⟩

end ConstructionKit.Mem
