/-! The fill of a buffer on the host: `commandFillBuffer` (`host/source/queue.cpp`), which copies what
it has filled as long as that fits.  Pointers are offsets in the buffer. -/

namespace ConstructionKit.Host

variable {β : Type}

/-- A `std::memcpy` inside of the buffer. -/
structure Memcpy where
  dst : Nat
  src : Nat
  size : Nat
deriving DecidableEq, Repr

def Memcpy.run (data : Nat → β) (m : Memcpy) (i : Nat) : β :=
  if m.dst ≤ i ∧ i < m.dst + m.size then data (m.src + (i - m.dst)) else data i

/-- The first `std::memcpy`. -/
def copyPattern (data : Nat → β) (start : Nat) (pattern : List β) (i : Nat) : β :=
  if start ≤ i then pattern[i - start]?.getD (data i) else data i

/-- The loop and the `std::memcpy` behind it. -/
def fillCopies (start stop : Nat) : Nat → Nat → Nat → Option (List Memcpy)
  | 0, _, _ => none
  | fuel + 1, current, size =>
    if current + size < stop then
      (fillCopies start stop fuel (current + size) (size * 2)).map (⟨current, start, size⟩ :: ·)
    else some [⟨current, start, stop - current⟩]

def commandFillBuffer (fuel : Nat) (data : Nat → β) (offset : Nat) (pattern : List β) (size : Nat) :
    Option (List Memcpy × (Nat → β)) := do
  let copies ← fillCopies offset (offset + size) fuel (offset + pattern.length) pattern.length
  return (copies, copies.foldl Memcpy.run (copyPattern data offset pattern))

/-- Source and destination lie in the range that is filled, and are disjoint. -/
def Memcpy.Inside (m : Memcpy) (start stop : Nat) : Prop :=
  start ≤ m.src ∧ m.src + m.size ≤ m.dst ∧ m.dst + m.size ≤ stop

/-- The bytes of the pattern again and again, and around them what was there. -/
def Filled (pattern : List β) (start size : Nat) (data data' : Nat → β) : Prop :=
  ∀ i, some (data' i) = if start ≤ i ∧ i < start + size then
    pattern[(i - start) % pattern.length]? else some (data i)

variable {pattern : List β} {start size : Nat} {data data' : Nat → β}

theorem filled_copyPattern : Filled pattern start pattern.length data (copyPattern data start pattern) := by
  intro i
  by_cases hi : start ≤ i ∧ i < start + pattern.length
  · have hlt : i - start < pattern.length := by omega
    simp [copyPattern, hi, Nat.mod_eq_of_lt hlt, hlt]
  · rw [copyPattern]
    split
    · rw [List.getElem?_eq_none (by omega), Option.getD_none]
    · rfl

theorem Filled.run (h : Filled pattern start size data data') (hdvd : pattern.length ∣ size) {n : Nat}
    (hn : n ≤ size) :
    Filled pattern start (size + n) data (Memcpy.run data' ⟨start + size, start, n⟩) := by
  intro i
  simp only [Memcpy.run]
  by_cases hi : start + size ≤ i ∧ i < start + size + n
  · obtain ⟨k, rfl⟩ := hdvd
    rw [if_pos hi, h, if_pos (by omega), if_pos (by omega), show i - start =
      start + (i - (start + pattern.length * k)) - start + pattern.length * k by omega,
      Nat.add_mul_mod_self_left]
  · rw [if_neg hi, h]
    congr 1
    exact propext (by omega)

/-- What is filled is as long as the next copy, and a multiple of the pattern. -/
theorem fillCopies_spec {stop fuel : Nat} (hsize : 1 ≤ size) (hdvd : pattern.length ∣ size)
    (hstop : start + size ≤ stop) (hfuel : stop < start + size + fuel) :
    ∃ copies, fillCopies start stop fuel (start + size) size = some copies ∧
      (∀ m ∈ copies, m.Inside start stop) ∧ ∀ data', Filled pattern start size data data' →
        Filled pattern start (stop - start) data (copies.foldl Memcpy.run data') := by
  induction fuel generalizing size with
  | zero => omega
  | succ fuel ih =>
    rw [fillCopies]
    split
    · next hlt =>
      obtain ⟨copies, hcopies, hinside, hfilled⟩ := @ih (size + size) (by omega)
        (Nat.dvd_add hdvd hdvd) (by omega) (by omega)
      rw [Nat.add_assoc, Nat.mul_two, hcopies]
      refine ⟨_, rfl, List.forall_mem_cons.2 ⟨?_, hinside⟩, fun data' h => ?_⟩
      · exact ⟨Nat.le_refl _, Nat.le_refl _, Nat.le_of_lt hlt⟩
      · exact hfilled _ (h.run hdvd (Nat.le_refl _))
    · next hge =>
      refine ⟨_, rfl, List.forall_mem_singleton.2 ⟨Nat.le_refl _, ?_, ?_⟩, fun data' h => ?_⟩
      · show start + (stop - (start + size)) ≤ start + size
        omega
      · show start + size + (stop - (start + size)) ≤ stop
        omega
      · have := h.run hdvd (show stop - (start + size) ≤ size by omega)
        rwa [show size + (stop - (start + size)) = stop - start by omega] at this

theorem commandFillBuffer_fills (data : Nat → β) (offset : Nat) (pattern : List β) (size fuel : Nat)
    (hpattern : 1 ≤ pattern.length) (hsize : pattern.length ≤ size) (hfuel : size ≤ fuel) :
    ∃ copies data', commandFillBuffer fuel data offset pattern size = some (copies, data') ∧
      (∀ m ∈ copies, m.Inside offset (offset + size)) ∧ Filled pattern offset size data data' := by
  obtain ⟨copies, hcopies, hinside, hfilled⟩ := @fillCopies_spec β pattern offset pattern.length data
    (offset + size) fuel hpattern (Nat.dvd_refl _) (by omega) (by omega)
  have := hfilled _ filled_copyPattern
  rw [Nat.add_sub_cancel_left] at this
  exact ⟨copies, _, by rw [commandFillBuffer, hcopies]; rfl, hinside, this⟩

theorem commandFillBuffer_fills_five :
    ∃ copies data', commandFillBuffer 5 (fun _ => 0) 1 [1, 2] 5 = some (copies, data') ∧
      (∀ m ∈ copies, m.Inside 1 6) ∧ Filled [1, 2] 1 5 (fun _ => 0) data' :=
  commandFillBuffer_fills _ 1 [1, 2] 5 5 (by decide) (by decide) (by decide)

end ConstructionKit.Host
