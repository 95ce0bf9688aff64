import Mathlib.Data.List.Basic

/-! Components that write records, one after the other, to a binary and read them back from it. -/

namespace ConstructionKit.ProofKit

open List

/-- `init` gets the binary to read, if there is one.  `none` and `false` are calls that fail, except
that `read` also has no record at the end. -/
structure RecordStore (ε H B M : Type) where
  init : Option B → Except ε (Option H)
  write : H → M → Bool × H
  finalize : H → Except ε (Option B)
  read : H → Except ε (Option M × H)

namespace RecordStore

variable {ε H B M : Type} (store : RecordStore ε H B M)

/-- The records are written up to the first that is refused; whether there was none. -/
def writeAll : H → List M → Bool × H
  | handler, [] => (true, handler)
  | handler, md :: records =>
    let (done, handler) := store.write handler md
    if done then writeAll handler records else (false, handler)

def written (records : List M) : Except ε (Option B) := do
  match ← store.init none with
  | none => return none
  | some handler =>
    let (done, handler) := store.writeAll handler records
    if done then store.finalize handler else return none

/-- `read` gives the records, and then none. -/
def ReadsBack : H → List M → Prop
  | handler, [] => ∃ handler', store.read handler = .ok (none, handler')
  | handler, md :: records =>
    ∃ handler', store.read handler = .ok (some md, handler') ∧ ReadsBack handler' records

def RoundTrips (records : List M) : Prop :=
  ∃ binary handler, store.written records = .ok (some binary) ∧
    store.init (some binary) = .ok (some handler) ∧ store.ReadsBack handler records

/-- The states of a store that holds up to `limit` records: `holding records` after they have been
written, `binary records` as they are finalized and `reading front rest` when `front` has been read.
Records are read back if they are `valid` and their binary `fits`. -/
structure Represents (limit : Nat) (valid : M → Prop) (fits : B → Prop) (holding : List M → H)
    (binary : List M → B) (reading : List M → List M → H) : Prop where
  init_none : store.init none = .ok (some (holding []))
  write_of_lt {records : List M} (md : M) : records.length < limit →
    store.write (holding records) md = (true, holding (records ++ [md]))
  write_of_eq {records : List M} (md : M) : records.length = limit →
    (store.write (holding records) md).1 = false
  finalize_eq (records : List M) : store.finalize (holding records) = .ok (some (binary records))
  init_some {records : List M} : fits (binary records) →
    store.init (some (binary records)) = .ok (some (reading [] records))
  read_cons (front : List M) {md : M} (rest : List M) : valid md →
    store.read (reading front (md :: rest)) = .ok (some md, reading (front ++ [md]) rest)
  read_nil (front : List M) : store.read (reading front []) = .ok (none, reading front [])

namespace Represents

variable {store} {limit : Nat} {valid : M → Prop} {fits : B → Prop} {holding : List M → H}
  {binary : List M → B} {reading : List M → List M → H}
  (h : store.Represents limit valid fits holding binary reading) {records : List M}
include h

theorem writeAll_of_le (front records : List M) (hlimit : front.length + records.length ≤ limit) :
    store.writeAll (holding front) records = (true, holding (front ++ records)) := by
  induction records generalizing front with
  | nil => rw [writeAll, append_nil]
  | cons md records ih =>
    rw [length_cons] at hlimit
    rw [writeAll, h.write_of_lt md (by omega)]
    have hrest := ih (front ++ [md]) (by
      rw [length_append, length_singleton]
      omega)
    rwa [← append_cons] at hrest

theorem writeAll_of_lt (front records : List M) (hfront : front.length ≤ limit)
    (hlimit : limit < front.length + records.length) :
    (store.writeAll (holding front) records).1 = false := by
  induction records generalizing front with
  | nil =>
    rw [length_nil] at hlimit
    omega
  | cons md records ih =>
    rw [length_cons] at hlimit
    rw [writeAll]
    obtain hlt | heq := Nat.lt_or_eq_of_le hfront
    · rw [h.write_of_lt md hlt]
      apply ih
      all_goals
        rw [length_append, length_singleton]
        omega
    · simp only [h.write_of_eq md heq, Bool.false_eq_true, if_false]

theorem written_eq (records : List M) : store.written records =
    if (store.writeAll (holding []) records).1 = true then
      store.finalize (store.writeAll (holding []) records).2 else .ok none := by
  rw [written, h.init_none]
  rfl

theorem written_of_le (hlimit : records.length ≤ limit) :
    store.written records = .ok (some (binary records)) := by
  rw [h.written_eq, h.writeAll_of_le [] records (by rw [length_nil]; omega)]
  exact h.finalize_eq records

/-- More records are refused. -/
theorem not_roundTrips (hlimit : limit < records.length) : ¬ store.RoundTrips records := by
  rintro ⟨binary', handler, hwritten, -⟩
  have hfails := h.writeAll_of_lt [] records (Nat.zero_le _) (by rw [length_nil]; omega)
  rw [h.written_eq, hfails] at hwritten
  cases hwritten

theorem readsBack (front : List M) (hvalid : ∀ md ∈ records, valid md) :
    store.ReadsBack (reading front records) records := by
  induction records generalizing front with
  | nil => exact ⟨_, h.read_nil front⟩
  | cons md records ih =>
    obtain ⟨hmd, hrecords⟩ := forall_mem_cons.1 hvalid
    exact ⟨_, h.read_cons front records hmd, ih (front ++ [md]) hrecords⟩

/-- Records come back exactly up to the limit. -/
theorem roundTrips_iff_length_le (hvalid : ∀ md ∈ records, valid md)
    (hfits : ∀ binary, store.written records = .ok (some binary) → fits binary) :
    store.RoundTrips records ↔ records.length ≤ limit := by
  constructor
  · intro hround
    by_contra hlimit
    exact h.not_roundTrips (by omega) hround
  · intro hlimit
    have hwritten := h.written_of_le hlimit
    exact ⟨_, _, hwritten, h.init_some (hfits _ hwritten), h.readsBack [] hvalid⟩

end Represents

end RecordStore

end ConstructionKit.ProofKit
