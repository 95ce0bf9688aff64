import ConstructionKit.ProofKit.FiniteMap
import ConstructionKit.Mem.Recorded
import Mathlib

/-! When `clEnqueueMapBuffer` accepts exactly the write mappings whose bytes are free.  The check
looks at the table of the object that is passed, which is empty for a sub-buffer, and a record is
found by its pointer, so that a mapping may take the place of another one. -/

namespace ConstructionKit.Mem

open ProofKit
open List hiding Disjoint

variable {ι : Type}

/-! ### Ranges -/

/-- The bytes of a mapping in the underlying allocation. -/
def AppMapping.bytes (m : AppMapping ι) : Set Nat := Set.Ico m.offset (m.offset + m.size)

/-- One range ends before the other one starts. -/
def Apart (offset size offset' size' : Nat) : Prop :=
  offset + size ≤ offset' ∨ offset' + size' ≤ offset

instance (offset size offset' size' : Nat) : Decidable (Apart offset size offset' size') :=
  inferInstanceAs (Decidable (_ ∨ _))

theorem disjoint_iff_apart {offset size offset' size' : Nat} (h : 0 < size) (h' : 0 < size') :
    Disjoint (Set.Ico offset (offset + size)) (Set.Ico offset' (offset' + size')) ↔
      Apart offset size offset' size' := by
  rw [Set.Ico_disjoint_Ico, Apart]
  omega

variable {offset size : UInt64} {m : AppMapping ι} {r : WriteMapping}

theorem overlaps_record_iff (hactive : r.isActive = true)
    (hfits : r.offset.toNat + r.size.toNat < 2 ^ 32) (hr : 0 < r.size.toNat)
    (hsize : 0 < size.toNat) (hlt : offset.toNat + size.toNat < 2 ^ 64) :
    r.overlaps offset size = true ↔
      ¬Apart offset.toNat size.toNat r.offset.toNat r.size.toNat := by
  have hend : (r.offset + r.size).toNat = r.offset.toNat + r.size.toNat := by
    rw [UInt32.toNat_add, Nat.mod_eq_of_lt hfits]
  have hsum : (offset + size).toNat = offset.toNat + size.toNat := by
    rw [UInt64.toNat_add, Nat.mod_eq_of_lt hlt]
  simp only [WriteMapping.overlaps, hactive, Bool.true_and, Bool.or_eq_true, Bool.and_eq_true,
    decide_eq_true_eq, UInt64.le_iff_toNat_le, UInt64.lt_iff_toNat_lt,
    UInt32.toNat_toUInt64, Apart]
  omega

/-! ### Conditions -/

/-- The range of a write mapping ends below `2^32`, and its pointer is not that of a mapping whose
unmap command is still to be executed.  Through a sub-buffer it is asked for only where no write
mapping is; through the parent, where no write mapping is that was unmapped through a sub-buffer by
a command still to be executed. -/
def Careful (family : Family ι) (s : System ι) : Call ι → Prop
  | .map buffer mapFlags offset size base => s.state.mapCount.toNat + 1 < 2 ^ 32 ∧
    ((mapAccess mapFlags).writes = true →
      (family.object buffer).offset.toNat + offset.toNat + size.toNat < 2 ^ 32 ∧
      (∀ e ∈ endings s.state.pending, e.2.ptr ≠ nextPointer family s.state buffer offset base) ∧
      (buffer.isSome = true → ∀ m ∈ s.live, m.writes = true →
        Apart ((family.object buffer).offset.toNat + offset.toNat) size.toNat m.offset m.size) ∧
      (buffer.isSome = false → ∀ e ∈ endings s.state.pending, e.1.isSome = true →
        e.2.writes = true → Apart offset.toNat size.toNat e.2.offset e.2.size))
  | .unmap _ ptr ends => EndsOwn s ptr ends
  | .execute => True

instance (family : Family ι) (s : System ι) : ∀ call, Decidable (Careful family s call)
  | .map _ _ _ _ _ => inferInstanceAs (Decidable (_ ∧ (_ → _ ∧ (∀ e ∈ _, _) ∧
      (_ → ∀ m ∈ _, _ → _) ∧ (_ → ∀ e ∈ _, _ → _ → _))))
  | .unmap _ ptr ends => inferInstanceAs (Decidable (EndsOwn s ptr ends))
  | .execute => inferInstanceAs (Decidable True)

/-! ### The mappings that are outstanding -/

/-- The mappings that count in `mapCount`. -/
def outstanding (s : System ι) : List (AppMapping ι) :=
  (endings s.state.pending).map (·.2) ++ s.live

structure Placed (family : Family ι) (state : State ι) (m : AppMapping ι) : Prop where
  ptr : m.ptr = state.basePointer family + m.offset
  pos : 0 < m.size
  fits : m.offset + m.size < 2 ^ 32

structure Covered (family : Family ι) (s : System ι) : Prop where
  recorded : Recorded s
  count : s.state.mapCount.toNat = (outstanding s).length
  placed : ∀ m ∈ outstanding s, m.writes = true → Placed family s.state m
  apart : s.live.Pairwise fun m m' => m.writes = true → m'.writes = true →
    Apart m.offset m.size m'.offset m'.size

theorem covered_init (family : Family ι) : Covered family System.init :=
  ⟨recorded_init, rfl, by simp [outstanding, endings, System.init, State.init], .nil⟩

/-! ### Acceptance -/

section Acceptance

variable {family : Family ι} {s : System ι} (h : Covered family s)

theorem Placed.overlaps_iff (hm : Placed family s.state m)
    (hr : HasRecord (s.state.writeMappings none) m r) (hactive : r.isActive = true)
    (hsize : 0 < size.toNat) (hlt : offset.toNat + size.toNat < 2 ^ 64) :
    r.overlaps offset size = true ↔ ¬Apart offset.toNat size.toNat m.offset m.size := by
  have hfits := hm.fits
  have hpos := hm.pos
  rw [← hr.offset, ← hr.size] at *
  exact overlaps_record_iff hactive hfits hpos hsize hlt

include h

theorem Covered.of_live (hm : m ∈ s.live) (hw : m.writes = true) :
    Placed family s.state m :=
  h.placed m (mem_append_right _ hm) hw

theorem Covered.of_ended {e : MemObject ι × AppMapping ι} (he : e ∈ endings s.state.pending)
    (hw : e.2.writes = true) : Placed family s.state e.2 :=
  h.placed e.2 (mem_append_left _ (mem_map_of_mem he)) hw

/-- The table of the parent finds exactly the write mappings that the application has. -/
theorem overlaps_parent_iff (hsize : 0 < size.toNat) (hlt : offset.toNat + size.toNat < 2 ^ 64)
    (hended : ∀ e ∈ endings s.state.pending, e.1.isSome = true → e.2.writes = true →
      Apart offset.toNat size.toNat e.2.offset e.2.size) :
    overlaps (s.state.writeMappings none) offset size = true ↔
      ∃ m ∈ s.live, m.writes = true ∧ ¬Apart offset.toNat size.toNat m.offset m.size := by
  have hledger := h.recorded.ledger
  rw [overlaps, any_iff_lookup]
  constructor
  · rintro ⟨p, r, hlookup, hoverlaps⟩
    have hactive : r.isActive = true := by
      rw [WriteMapping.overlaps, Bool.and_eq_true] at hoverlaps
      exact hoverlaps.1
    have hp : p ∈ s.state.writeMappings none := by
      rw [← Finmap.lookup_isSome, hlookup]
      rfl
    rcases hledger.owned p hp with ⟨m, hm, hw, rfl⟩ | ⟨e, he, hw, rfl⟩
    · obtain ⟨r', hr', -⟩ := hledger.ofLive m hm hw
      obtain rfl : r = r' := Option.some.inj (hlookup.symm.trans hr'.lookup)
      exact ⟨m, hm, hw, ((h.of_live hm hw).overlaps_iff hr' hactive hsize hlt).1 hoverlaps⟩
    · obtain ⟨r', hr', hinactive⟩ := hledger.ofEnded e he hw
      obtain rfl : r = r' := Option.some.inj (hlookup.symm.trans hr'.lookup)
      -- an active record of an ended mapping was unmapped through a sub-buffer
      have hsub : e.1.isSome = true := by
        rw [Option.isSome_iff_ne_none]
        intro hnone
        rw [hinactive hnone] at hactive
        cases hactive
      exact absurd (hended e he hsub hw)
        (((h.of_ended he hw).overlaps_iff hr' hactive hsize hlt).1 hoverlaps)
  · rintro ⟨m, hm, hw, hnot⟩
    obtain ⟨r, hr, hactive⟩ := hledger.ofLive m hm hw
    exact ⟨m.ptr, r, hr.lookup,
      ((h.of_live hm hw).overlaps_iff hr hactive hsize hlt).2 hnot⟩

/-- A careful call passes the check of its object exactly when its range is free. -/
theorem overlaps_object_iff {buffer : MemObject ι} {mapFlags : UInt64} {base : Nat}
    (hsize : 0 < size.toNat) (writes : (mapAccess mapFlags).writes = true)
    (careful : Careful family s (.map buffer mapFlags offset size base)) :
    overlaps (s.state.writeMappings buffer) offset size = false ↔
      ∀ m ∈ s.live, m.writes = true →
        Apart ((family.object buffer).offset.toNat + offset.toNat) size.toNat m.offset m.size := by
  obtain ⟨-, hcareful⟩ := careful
  obtain ⟨hlt, -, hsub, hparent⟩ := hcareful writes
  cases buffer with
  | some =>
    refine iff_of_true ?_ (hsub rfl)
    rw [h.recorded.subBuffers]
    rfl
  | none =>
    have hzero : (family.object none).offset.toNat = 0 := by
      rw [Family.object, family.parent_offset, UInt64.toNat_zero]
    rw [hzero] at hlt ⊢
    rw [← Bool.not_eq_true, overlaps_parent_iff h hsize (by omega) (hparent rfl)]
    simp

end Acceptance

/-! ### Runs -/

section Runs

variable [DecidableEq ι] {family : Family ι} {s t : System ι} {memobj : MemObject ι}
  {state : State ι} {call : Call ι}

/-- The pointer of an accepted careful call is new. -/
theorem Covered.orderly (h : Covered family s) (careful : Careful family s call)
    (hstep : StepCases family s call t) : Orderly family s call := by
  cases hstep with
  | @map buffer mapFlags offset size base access arguments free =>
    intro writes
    obtain ⟨rfl, hpos, -⟩ := checkMapArguments_access arguments
    have hapart := (overlaps_object_iff h hpos writes careful).1 (free writes)
    obtain ⟨hlt, hended, -⟩ := careful.2 writes
    refine ⟨by omega, ?_, hended⟩
    intro m hm hw heq
    have hplaced := h.of_live hm hw
    have hcount : s.state.mapCount ≠ 0 := by
      intro hzero
      have := h.count
      rw [hzero, outstanding] at this
      have := length_pos_of_mem hm
      simp at *
      omega
    have hsum : (offset + (family.object buffer).offset).toNat =
        (family.object buffer).offset.toNat + offset.toNat := by
      rw [UInt64.toNat_add]
      omega
    rw [hplaced.ptr, nextPointer, if_neg hcount, State.basePointer] at heq
    have hpos' := hplaced.pos
    rcases hapart m hm hw with hle | hle <;> omega
  | stray | unmap => exact careful
  | executeMap => trivial
  | executeUnmap => trivial

omit [DecidableEq ι] in
theorem Placed.of_base {state' : State ι} (h : Placed family state m)
    (hbase : state'.mapBasePointer = state.mapBasePointer) : Placed family state' m :=
  ⟨by rw [h.ptr, State.basePointer, State.basePointer, hbase], h.pos, h.fits⟩

/-- The memory is mapped again only when no mapping is outstanding. -/
theorem Covered.placed_pushMapMemory (h : Covered family s)
    (hm : m ∈ outstanding s) (hw : m.writes = true) (buffer : MemObject ι) (offset size : UInt64)
    (access : MapAccess) (base : Nat) :
    Placed family (pushMapMemory family s.state buffer offset size access base).2 m := by
  refine (h.placed m hm hw).of_base ?_
  rw [pushMapMemory_mapBasePointer, if_neg]
  intro hzero
  have hcount := h.count
  rw [hzero, UInt32.toNat_zero] at hcount
  have := length_pos_of_mem hm
  omega

theorem Covered.map {buffer : MemObject ι} {mapFlags : UInt64} {base : Nat}
    {access : MapAccess} (h : Covered family s)
    (careful : Careful family s (.map buffer mapFlags offset size base))
    (arguments : checkMapArguments family buffer mapFlags offset size = .ok access)
    (free : access.writes = true →
      overlaps (s.state.writeMappings buffer) offset size = false)
    (orderly : Orderly family s (.map buffer mapFlags offset size base)) :
    Covered family ⟨(pushMapMemory family s.state buffer offset size access base).2,
      s.live ++ [appMapping family buffer mapFlags offset size
        (nextPointer family s.state buffer offset base)]⟩ := by
  have hrecorded := h.recorded.map arguments orderly
  obtain ⟨rfl, hpos, -⟩ := checkMapArguments_access arguments
  obtain ⟨hcount, hcareful⟩ := careful
  refine ⟨hrecorded, ?_, ?_, ?_⟩
  · simp only [outstanding, pushMapMemory_mapCount, pushMapMemory_pending, endings_append_map,
      ← append_assoc, length_append, length_singleton]
    rw [UInt32.toNat_add, UInt32.toNat_one, Nat.mod_eq_of_lt hcount, h.count, outstanding,
      length_append]
  · intro m hm hw
    simp only [outstanding, pushMapMemory_pending, endings_append_map, ← append_assoc] at hm
    rcases mem_append.1 hm with hold | hnew
    · exact h.placed_pushMapMemory hold hw ..
    · obtain rfl := mem_singleton.1 hnew
      obtain ⟨hlt, -⟩ := hcareful hw
      refine ⟨?_, hpos, hlt⟩
      simp only [appMapping, nextPointer, State.basePointer, pushMapMemory_mapBasePointer]
      rw [UInt64.toNat_add]
      omega
  · refine pairwise_append.2 ⟨h.apart, pairwise_singleton _ _, ?_⟩
    intro m hm m' hm' hw hw'
    obtain rfl := mem_singleton.1 hm'
    have := (overlaps_object_iff h hpos hw' ⟨hcount, hcareful⟩).1 (free hw') m hm hw
    exact this.symm

theorem Covered.unmap (h : Covered family s) (hmem : m ∈ s.live)
    (hrecorded : Recorded ⟨state, s.live.erase m⟩)
    (hcount : state.mapCount = s.state.mapCount)
    (hbase : state.mapBasePointer = s.state.mapBasePointer)
    (hpending : state.pending = s.state.pending ++ [.unmap memobj m.ptr (some m)]) :
    Covered family ⟨state, s.live.erase m⟩ := by
  have hperm : (outstanding ⟨state, s.live.erase m⟩).Perm (outstanding s) := by
    simp only [outstanding, hpending, endings_append_unmap, map_append, append_assoc]
    exact (perm_cons_erase hmem).symm.append_left _
  refine ⟨hrecorded, ?_, ?_, h.apart.sublist erase_sublist⟩
  · exact (congrArg UInt32.toNat hcount).trans (h.count.trans hperm.length_eq.symm)
  · exact fun m' hm' hw => (h.placed m' (hperm.mem_iff.1 hm') hw).of_base hbase

omit [DecidableEq ι] in
/-- The memory is unmapped only by the command of the last mapping. -/
theorem Covered.execute {rest : List (Command ι)} (h : Covered family s)
    (hnext : s.state.pending = .unmap memobj m.ptr (some m) :: rest)
    (hrecorded : Recorded ⟨state, s.live⟩) (hcount : state.mapCount = s.state.mapCount - 1)
    (hbase : state.mapBasePointer = if s.state.mapCount = 1 then 0 else s.state.mapBasePointer)
    (hpending : state.pending = rest) : Covered family ⟨state, s.live⟩ := by
  have houtstanding : outstanding s = m :: outstanding ⟨state, s.live⟩ := by
    simp only [outstanding, hnext, hpending, endings_cons_unmap, map_cons, cons_append]
  have hlength := h.count
  rw [houtstanding, length_cons] at hlength
  refine ⟨hrecorded, ?_, ?_, h.apart⟩
  · rw [hcount, UInt32.toNat_sub_of_le _ _ (UInt32.le_iff_toNat_le.2 (by simp; omega)), hlength]
    rfl
  · intro m' hm' hw
    refine (h.placed m' (houtstanding ▸ mem_cons_of_mem _ hm') hw).of_base ?_
    rw [hbase, if_neg]
    intro hone
    have := length_pos_of_mem hm'
    rw [hone, UInt32.toNat_one] at hlength
    omega

theorem covered_step (careful : Careful family s call)
    (hstep : s.step family call = some t) (h : Covered family s) : Covered family t := by
  have orderly := h.orderly careful (step_cases hstep)
  have hrecorded := recorded_step orderly hstep h.recorded
  cases step_cases hstep with
  | map arguments free => exact h.map careful arguments free orderly
  | stray => exact absurd careful id
  | unmap hmem => exact h.unmap hmem hrecorded rfl rfl rfl
  | @executeMap offset size access rest hpending =>
    have houtstanding : outstanding s = outstanding ⟨{ s.state with pending := rest }, s.live⟩ := by
      rw [outstanding, hpending]
      rfl
    exact ⟨hrecorded, houtstanding ▸ h.count,
      fun m hm hw => (h.placed m (houtstanding ▸ hm) hw).of_base rfl, h.apart⟩
  | @executeUnmap memobj ptr ends rest hpending =>
    obtain ⟨m, rfl, rfl⟩ := h.recorded.named memobj ptr ends (hpending ▸ mem_cons_self ..)
    exact h.execute hpending hrecorded rfl rfl rfl

theorem covered_of_runs (run : Runs (System.step family) (Careful family) System.init s) :
    Covered family s :=
  run.invariant covered_step (covered_init family)

/-- In a run of careful calls the write mappings of the application are disjoint, and a further
careful call for writing is accepted exactly when its bytes are free. -/
theorem map_accepted_iff_free
    (run : Runs (System.step family) (Careful family) System.init s)
    {buffer : MemObject ι} {mapFlags offset size : UInt64} {base : Nat} {access : MapAccess}
    (arguments : checkMapArguments family buffer mapFlags offset size = .ok access)
    (writes : access.writes = true)
    (careful : Careful family s (.map buffer mapFlags offset size base)) :
    (s.live.Pairwise fun m m' => m.writes = true → m'.writes = true →
      Disjoint m.bytes m'.bytes) ∧
    ((∃ result, enqueueMapBuffer family s.state buffer mapFlags offset size base = .ok result) ↔
      ∀ m ∈ s.live, m.writes = true →
        Disjoint (Set.Ico ((family.object buffer).offset.toNat + offset.toNat)
          ((family.object buffer).offset.toNat + offset.toNat + size.toNat)) m.bytes) := by
  have h := covered_of_runs run
  obtain ⟨haccess, hpos, -⟩ := checkMapArguments_access arguments
  constructor
  · refine h.apart.imp_of_mem fun hm hm' hapart hw hw' => ?_
    exact (disjoint_iff_apart (h.of_live hm hw).pos (h.of_live hm' hw').pos).2 (hapart hw hw')
  · have hfree := overlaps_object_iff h hpos (haccess ▸ writes) careful
    have hdisjoint : (∀ m ∈ s.live, m.writes = true →
        Apart ((family.object buffer).offset.toNat + offset.toNat) size.toNat m.offset m.size) ↔
        ∀ m ∈ s.live, m.writes = true →
          Disjoint (Set.Ico ((family.object buffer).offset.toNat + offset.toNat)
            ((family.object buffer).offset.toNat + offset.toNat + size.toNat)) m.bytes :=
      forall₂_congr fun m hm => forall_congr' fun hw =>
        (disjoint_iff_apart hpos (h.of_live hm hw).pos).symm
    rw [← hdisjoint, ← hfree]
    simp only [enqueueMapBuffer, arguments, writes]
    cases overlaps (s.state.writeMappings buffer) offset size <;> simp

end Runs

theorem map_accepted_next_to_live : ∃ s : System Unit,
    Runs (System.step smallFamily) (Careful smallFamily) System.init s ∧
    s.live = [firstBytes none] ∧
    ∃ result, enqueueMapBuffer smallFamily s.state none 2 16 16 4096 = .ok result := by
  have run := Runs.follow_getD (System.step smallFamily) (Careful smallFamily) System.init
    [.map none 2 0 16 4096] System.init (by decide)
  have arguments : checkMapArguments smallFamily none 2 16 16 = .ok ⟨false, true, false⟩ := rfl
  refine ⟨_, run, rfl, (map_accepted_iff_free run arguments rfl (by decide)).2.2 ?_⟩
  intro m hm _
  obtain rfl : m = firstBytes none := mem_singleton.1 hm
  exact (disjoint_iff_apart (by decide) (by decide)).2 (by decide)

/-- A sub-buffer is mapped where its parent is; a mapping unmapped through its sub-buffer is still
in the way; a mapping that takes the pointer of an unmapped one is not seen. -/
theorem map_accepted_iff_free_fails :
    ¬Disjoint (Set.Ico 0 16) (firstBytes none).bytes ∧
    (∃ s : System Unit, Runs (System.step smallFamily) (fun _ _ => True) System.init s ∧
      firstBytes none ∈ s.live ∧
      ∃ result, enqueueMapBuffer smallFamily s.state (some ()) 2 0 16 4096 = .ok result) ∧
    (∃ s : System Unit, Runs (System.step smallFamily) (fun _ _ => True) System.init s ∧
      s.live = [] ∧
      enqueueMapBuffer smallFamily s.state none 2 0 16 4096 = .error .invalidOperation) ∧
    (∃ s : System Unit, Runs (System.step smallFamily) (fun _ _ => True) System.init s ∧
      firstBytes none ∈ s.live ∧
      ∃ result, enqueueMapBuffer smallFamily s.state none 2 0 16 4096 = .ok result) := by
  refine ⟨?_, ?_, ?_, ?_⟩
  · exact fun h => absurd ((@disjoint_iff_apart 0 16 0 16 (by decide) (by decide)).1 h) (by decide)
  · exact ⟨_, Runs.follow_getD (System.step smallFamily) (fun _ _ => True) System.init
      [.map none 2 0 16 4096] System.init (by decide), by decide, _, rfl⟩
  · exact ⟨_, Runs.follow_getD (System.step smallFamily) (fun _ _ => True) System.init
      [.map (some ()) 2 0 16 4096, .unmap (some ()) 4096 (some (firstBytes (some ())))]
      System.init (by decide), by decide, rfl⟩
  · exact ⟨_, Runs.follow_getD (System.step smallFamily) (fun _ _ => True) System.init
      [.map none 2 0 16 4096, .unmap none 4096 (some (firstBytes none)), .map none 2 0 16 4096]
      System.init (by decide), by decide, _, rfl⟩

end ConstructionKit.Mem
