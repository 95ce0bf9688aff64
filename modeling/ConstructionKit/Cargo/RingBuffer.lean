import Mathlib.Data.Nat.ModEq

/-! The ring buffer of cargo (`cargo/ring_buffer.h`) refines a queue with a bound on its length. -/

namespace ConstructionKit.Cargo

open List

variable {T : Type}

structure RingBuffer (T : Type) where
  payload : Nat → T
  enqueueIndex : Nat
  dequeueIndex : Nat
  empty : Bool

/-- The calls; `copies` tells the two overloads of `enqueue` apart. -/
inductive RingCall (T : Type) where
  | enqueue (copies : Bool) (t : T)
  | dequeue

inductive RingResult (T : Type) where
  | success
  | overflow
  | outOfBounds
  | item (t : T)

/-- What an overload returns if the buffer is full. -/
def full (copies : Bool) : RingResult T := if copies then .outOfBounds else .overflow

namespace RingBuffer

def init (payload : Nat → T) : RingBuffer T := ⟨payload, 0, 0, true⟩

def enqueue (N : Nat) (b : RingBuffer T) (copies : Bool) (t : T) : RingResult T × RingBuffer T :=
  if b.enqueueIndex = b.dequeueIndex ∧ b.empty = false then (full copies, b)
  else
    (.success, { b with
      payload := Function.update b.payload b.enqueueIndex t
      enqueueIndex := (b.enqueueIndex + 1) &&& (N - 1)
      empty := if b.enqueueIndex = b.dequeueIndex then false else b.empty })

def dequeue (N : Nat) (b : RingBuffer T) : RingResult T × RingBuffer T :=
  if b.empty then (.outOfBounds, b)
  else
    let dequeueIndex := (b.dequeueIndex + 1) &&& (N - 1)
    (.item (b.payload b.dequeueIndex),
      { b with dequeueIndex, empty := dequeueIndex = b.enqueueIndex })

def call (N : Nat) (b : RingBuffer T) : RingCall T → RingResult T × RingBuffer T
  | .enqueue copies t => b.enqueue N copies t
  | .dequeue => b.dequeue N

end RingBuffer

/-- A queue of at most `N` items. -/
def callQueue (N : Nat) (queue : List T) : RingCall T → RingResult T × List T
  | .enqueue copies t => if queue.length = N then (full copies, queue) else (.success, queue ++ [t])
  | .dequeue => match queue with
    | [] => (.outOfBounds, [])
    | t :: queue => (.item t, queue)

/-- The results of some calls. -/
def results {σ : Type} (call : σ → RingCall T → RingResult T × σ) :
    σ → List (RingCall T) → List (RingResult T)
  | _, [] => []
  | s, c :: calls => (call s c).1 :: results call (call s c).2 calls

/-- After `r` items were dequeued, the `n` next ones are in the payload, around its end. -/
def RingBuffer.Rep (N : Nat) (b : RingBuffer T) (queue : List T) : Prop :=
  ∃ r n, n ≤ N ∧ b.dequeueIndex = r % N ∧ b.enqueueIndex = (r + n) % N ∧ b.empty = decide (n = 0) ∧
    queue = (List.range' r n).map fun i => b.payload (i % N)

theorem add_mod_eq_iff {r n N : Nat} (h : n ≤ N) : (r + n) % N = r % N ↔ n = 0 ∨ n = N := by
  refine ⟨fun heq => ?_, by rintro (rfl | rfl) <;> simp⟩
  have hzero : n ≡ 0 [MOD N] := Nat.ModEq.add_left_cancel' r heq
  have hdvd := Nat.modEq_zero_iff_dvd.1 hzero
  rcases Nat.eq_zero_or_pos n with hzero | hpos
  · exact .inl hzero
  · exact .inr (Nat.le_antisymm h (Nat.le_of_dvd hpos hdvd))

/-- A call returns what the queue returns, and leaves what represents the queue after it. -/
theorem RingBuffer.Rep.call {k : Nat} {b : RingBuffer T} {queue : List T} (h : b.Rep (2 ^ k) queue)
    (c : RingCall T) :
    (b.call (2 ^ k) c).1 = (callQueue (2 ^ k) queue c).1 ∧
      (b.call (2 ^ k) c).2.Rep (2 ^ k) (callQueue (2 ^ k) queue c).2 := by
  obtain ⟨payload, enqueueIndex, dequeueIndex, empty⟩ := b
  obtain ⟨r, n, hn, rfl, rfl, rfl, rfl⟩ := h
  have hpos := Nat.two_pow_pos k
  cases c with
  | enqueue copies t =>
    simp only [RingBuffer.call, RingBuffer.enqueue, callQueue, length_map, length_range',
      add_mod_eq_iff hn]
    split
    · next hfull =>
      have hn : n = 2 ^ k := by simp at hfull; omega
      rw [if_pos hn]
      exact ⟨rfl, r, n, hn.le, rfl, rfl, rfl, rfl⟩
    · next hroom =>
      have hlt : n < 2 ^ k := by simp at hroom; omega
      rw [if_neg hlt.ne]
      refine ⟨rfl, r, n + 1, hlt, rfl, ?_, ?_, ?_⟩
      · simp [Nat.add_assoc]
      · simp [hlt.ne]
      · have hkept : ∀ i ∈ List.range' r n, i % 2 ^ k ≠ (r + n) % 2 ^ k := by
          intro i hi heq
          rw [mem_range'_1] at hi
          rw [show r + n = i + (r + n - i) by omega, eq_comm, add_mod_eq_iff (by omega)] at heq
          omega
        simp only [range'_1_concat, map_append, map_singleton, Function.update_self]
        rw [map_congr_left fun i hi => (Function.update_of_ne (hkept i hi) t payload).symm]
  | dequeue =>
    cases n with
    | zero => exact ⟨rfl, r, 0, hn, rfl, rfl, rfl, rfl⟩
    | succ n =>
      simp only [RingBuffer.call, RingBuffer.dequeue]
      refine ⟨rfl, r + 1, n, by omega, ?_, ?_, ?_, rfl⟩
      · simp [Nat.and_two_pow_sub_one_eq_mod]
      · simp [Nat.add_assoc, Nat.add_comm 1]
      · have hindex : (r + 1) % 2 ^ k = (r + (n + 1)) % 2 ^ k ↔ n = 0 := by
          rw [Nat.add_comm n, ← Nat.add_assoc, eq_comm, add_mod_eq_iff (by omega)]
          omega
        simp [hindex]

/-- Every sequence of calls on a new buffer returns what the queue returns. -/
theorem ringBuffer_refines (k : Nat) (payload : Nat → T) (calls : List (RingCall T)) :
    results (RingBuffer.call (2 ^ k)) (.init payload) calls =
      results (callQueue (2 ^ k)) [] calls := by
  have hrun : ∀ (b : RingBuffer T) queue, b.Rep (2 ^ k) queue →
      results (RingBuffer.call (2 ^ k)) b calls = results (callQueue (2 ^ k)) queue calls := by
    induction calls with
    | nil => exact fun b queue _ => rfl
    | cons c calls ih =>
      intro b queue h
      rw [results, results, (h.call c).1, ih _ _ (h.call c).2]
  exact hrun _ _ ⟨0, 0, Nat.zero_le _, (Nat.zero_mod _).symm, (Nat.zero_mod _).symm, rfl, rfl⟩

end ConstructionKit.Cargo
