import Mathlib.Algebra.GroupWithZero.Nat
import Mathlib.Order.Interval.Finset.Nat

/-! Intervals of natural numbers that are cut into cells, each of which is free or taken. -/

namespace ConstructionKit.ProofKit

open List

structure Cell where
  start : Nat
  stop : Nat
  free : Bool
deriving DecidableEq, Repr

/-- The cells lie one after the other and none is empty. -/
def Tiles (lo hi : Nat) : List Cell → Prop
  | [] => lo = hi
  | c :: cells => c.start = lo ∧ c.start < c.stop ∧ Tiles c.stop hi cells

variable {lo hi : Nat} {c d : Cell} {cells front back : List Cell}

theorem tiles_append : Tiles lo hi (front ++ back) ↔ ∃ mid, Tiles lo mid front ∧ Tiles mid hi back := by
  induction front generalizing lo with
  | nil => simp [Tiles]
  | cons c front ih => simp only [cons_append, Tiles, ih, exists_and_left, and_assoc]

section

variable (h : Tiles lo hi cells)
include h

theorem Tiles.le : lo ≤ hi := by
  induction cells generalizing lo with
  | nil => exact Nat.le_of_eq h
  | cons c cells ih =>
    obtain ⟨hstart, hlt, htail⟩ := h
    have := ih htail
    omega

theorem Tiles.bounds (hc : c ∈ cells) :
    lo ≤ c.start ∧ c.start < c.stop ∧ c.stop ≤ hi := by
  obtain ⟨front, back, rfl⟩ := append_of_mem hc
  obtain ⟨mid, hfront, hstart, hlt, hback⟩ := tiles_append.1 h
  have hlo := hfront.le
  have hhi := hback.le
  omega

theorem Tiles.pairwise : cells.Pairwise fun c d => c.stop ≤ d.start := by
  induction cells generalizing lo with
  | nil => exact .nil
  | cons c cells ih =>
    obtain ⟨-, -, htail⟩ := h
    exact .cons (fun d hd => (htail.bounds hd).1) (ih htail)

theorem Tiles.apart (hc : c ∈ cells) (hd : d ∈ cells) (hne : c ≠ d) :
    c.stop ≤ d.start ∨ d.stop ≤ c.start := by
  obtain ⟨front, back, rfl⟩ := append_of_mem hc
  have hpairs := h.pairwise
  rw [pairwise_append, pairwise_cons] at hpairs
  obtain ⟨-, ⟨hback, -⟩, hfront⟩ := hpairs
  rw [mem_append, mem_cons] at hd
  obtain hd | rfl | hd := hd
  · exact .inr (hfront d hd c (mem_cons_self ..))
  · exact absurd rfl hne
  · exact .inl (hback d hd)

theorem Tiles.nodup_starts : (cells.map (·.start)).Nodup := by
  rw [List.Nodup, pairwise_map]
  refine h.pairwise.imp_of_mem fun {c d} hc _ hle => ?_
  have := (h.bounds hc).2.1
  omega

theorem Tiles.eq_of_start (hc : c ∈ cells) (hd : d ∈ cells)
    (hstart : c.start = d.start) : c = d :=
  inj_on_of_nodup_map h.nodup_starts hc hd hstart

end

def taken (cells : List Cell) : List Cell := cells.filter (!·.free)

theorem mem_taken : c ∈ taken cells ↔ c ∈ cells ∧ c.free = false := by
  rw [taken, mem_filter, Bool.not_eq_true']

theorem taken_append : taken (front ++ back) = taken front ++ taken back := filter_append ..

theorem nodup_taken (h : Tiles lo hi cells) : ((taken cells).map (·.start)).Nodup :=
  h.nodup_starts.sublist (filter_sublist.map _)

/-! ### Free space -/

/-- The numbers that no taken cell covers. -/
def uncovered (lo hi : Nat) (cells : List Cell) : Finset Nat :=
  (Finset.Ico lo hi).filter fun x => ∀ c ∈ cells, c.free = false → ¬ (c.start ≤ x ∧ x < c.stop)

def freeSize (cells : List Cell) : Nat := ((cells.filter (·.free)).map fun c => c.stop - c.start).sum

theorem uncovered_cons (h : Tiles lo hi (c :: cells)) :
    uncovered lo hi (c :: cells) =
      (if c.free then Finset.Ico c.start c.stop else ∅) ∪ uncovered c.stop hi cells := by
  obtain ⟨hstart, hlt, htail⟩ := h
  have hle := htail.le
  ext x
  simp only [uncovered, Finset.mem_filter, Finset.mem_union, Finset.mem_Ico, mem_cons,
    forall_eq_or_imp]
  constructor
  · rintro ⟨hx, hfirst, hrest⟩
    by_cases hin : x < c.stop
    · have hfree : c.free = true := by
        by_contra hne
        exact hfirst (by simpa using hne) ⟨by omega, hin⟩
      rw [if_pos hfree]
      exact .inl (Finset.mem_Ico.2 ⟨by omega, hin⟩)
    · exact .inr ⟨by omega, hrest⟩
  · rintro (hx | ⟨hx, hrest⟩)
    · by_cases hfree : c.free = true
      · rw [if_pos hfree, Finset.mem_Ico] at hx
        refine ⟨by omega, fun hne => absurd hfree (by simp [hne]), fun d hd _ hin => ?_⟩
        have := (htail.bounds hd).1
        omega
      · rw [if_neg hfree] at hx
        cases hx
    · exact ⟨by omega, fun _ hin => by omega, hrest⟩

/-- The sizes of the free cells add up to the space that is not taken. -/
theorem card_uncovered (h : Tiles lo hi cells) : (uncovered lo hi cells).card = freeSize cells := by
  induction cells generalizing lo with
  | nil =>
    obtain rfl : lo = hi := h
    simp [uncovered, freeSize]
  | cons c cells ih =>
    have hdisjoint : Disjoint (if c.free then Finset.Ico c.start c.stop else ∅)
        (uncovered c.stop hi cells) := by
      rw [Finset.disjoint_left]
      intro x hx hrest
      have hge := (Finset.mem_Ico.1 (Finset.mem_filter.1 hrest).1).1
      split at hx
      · have := (Finset.mem_Ico.1 hx).2
        omega
      · cases hx
    rw [uncovered_cons h, Finset.card_union_of_disjoint hdisjoint, ih h.2.2]
    by_cases hfree : c.free = true <;> simp [freeSize, hfree]

/-! ### Cutting -/

/-- No two cells that touch are both free. -/
def Separated (cells : List Cell) : Prop := cells.IsChain fun c d => ¬ (c.free ∧ d.free)

/-- A free cell from the end of which a part is taken. -/
def cut (base start stop : Nat) : List Cell :=
  if start = base then [⟨start, stop, false⟩] else [⟨base, start, true⟩, ⟨start, stop, false⟩]

variable {base start stop : Nat}

theorem tiles_cut (h : Tiles lo hi (front ++ ⟨base, stop, true⟩ :: back)) (hle : base ≤ start)
    (hlt : start < stop) : Tiles lo hi (front ++ (cut base start stop ++ back)) := by
  obtain ⟨mid, hfront, rfl, -, hback⟩ := tiles_append.1 h
  refine tiles_append.2 ⟨base, hfront, ?_⟩
  rw [cut]
  split
  · rename_i heq
    exact ⟨heq, hlt, hback⟩
  · exact ⟨rfl, by simp only; omega, rfl, hlt, hback⟩

theorem separated_cut (h : Separated (front ++ ⟨base, stop, true⟩ :: back)) :
    Separated (front ++ (cut base start stop ++ back)) := by
  rw [Separated, isChain_append] at h ⊢
  obtain ⟨hfront, hmiddle, hcross⟩ := h
  have hback : back.IsChain fun c d => ¬ (c.free ∧ d.free) := hmiddle.tail
  -- The last cell of the cut is taken, and the first one is as free as the old cell or taken.
  have hlast : (⟨start, stop, false⟩ :: back : List Cell).IsChain fun c d => ¬ (c.free ∧ d.free) :=
    isChain_cons.2 ⟨fun _ _ hfree => absurd hfree.1 (by simp), hback⟩
  rw [cut]
  split
  · refine ⟨hfront, hlast, fun c hc d hd => ?_⟩
    obtain rfl : ⟨start, stop, false⟩ = d := by simpa using hd
    simp
  · refine ⟨hfront, isChain_cons_cons.2 ⟨by simp, hlast⟩, fun c hc d hd => ?_⟩
    obtain rfl : ⟨base, start, true⟩ = d := by simpa using hd
    simpa using hcross c hc _ rfl

theorem taken_cut : taken (cut base start stop) = [⟨start, stop, false⟩] := by
  rw [cut]
  split <;> rfl

/-! ### Merging -/

/-- Free cells are merged with the free cells behind them. -/
def merge (c : Cell) : List Cell → List Cell
  | [] => [c]
  | d :: cells =>
    if c.free ∧ d.free then merge ⟨c.start, d.stop, true⟩ cells else c :: merge d cells

theorem tiles_merge (h : Tiles lo hi (c :: cells)) : Tiles lo hi (merge c cells) := by
  induction cells generalizing lo c with
  | nil => exact h
  | cons d cells ih =>
    obtain ⟨hstart, hlt, hnext, hlt', htail⟩ := h
    rw [merge]
    split
    · exact ih ⟨hstart, by simp only; omega, htail⟩
    · exact ⟨hstart, hlt, ih ⟨hnext, hlt', htail⟩⟩

/-- The first cell of what was merged starts where it started and is as free as it was. -/
theorem merge_eq_cons (c : Cell) (cells : List Cell) :
    ∃ stop rest, merge c cells = ⟨c.start, stop, c.free⟩ :: rest := by
  induction cells generalizing c with
  | nil => exact ⟨c.stop, [], rfl⟩
  | cons d cells ih =>
    rw [merge]
    split
    · rename_i hfree
      obtain ⟨stop, rest, heq⟩ := ih ⟨c.start, d.stop, true⟩
      exact ⟨stop, rest, by rw [heq, hfree.1]⟩
    · exact ⟨c.stop, merge d cells, rfl⟩

theorem separated_merge (c : Cell) (cells : List Cell) : Separated (merge c cells) := by
  induction cells generalizing c with
  | nil => exact isChain_singleton _
  | cons d cells ih =>
    rw [merge]
    split
    · exact ih _
    · rename_i hfree
      obtain ⟨stop, rest, heq⟩ := merge_eq_cons d cells
      have htail := ih d
      rw [heq] at htail ⊢
      exact isChain_cons_cons.2 ⟨hfree, htail⟩

theorem taken_merge (c : Cell) (cells : List Cell) :
    taken (merge c cells) = taken (c :: cells) := by
  induction cells generalizing c with
  | nil => rfl
  | cons d cells ih =>
    rw [merge]
    split
    · rename_i hfree
      rw [ih]
      simp [taken, hfree]
    · rw [← singleton_append, taken_append, ih, ← taken_append, singleton_append]

def mergeAll : List Cell → List Cell
  | [] => []
  | c :: cells => merge c cells

theorem tiles_mergeAll (h : Tiles lo hi cells) : Tiles lo hi (mergeAll cells) := by
  cases cells with
  | nil => exact h
  | cons => exact tiles_merge h

theorem separated_mergeAll (cells : List Cell) : Separated (mergeAll cells) := by
  cases cells with
  | nil => exact isChain_nil
  | cons c cells => exact separated_merge c cells

theorem taken_mergeAll (cells : List Cell) :
    taken (mergeAll cells) = taken cells := by
  cases cells with
  | nil => rfl
  | cons c cells => exact taken_merge c cells

/-- If nothing is taken, cells that are separated are one cell. -/
theorem eq_singleton_of_separated (h : Tiles lo hi cells) (hlt : lo < hi)
    (hseparated : Separated cells) (hfree : ∀ c ∈ cells, c.free = true) :
    cells = [⟨lo, hi, true⟩] := by
  match cells, h with
  | [], h => exact absurd h (Nat.ne_of_lt hlt)
  | [c], ⟨hstart, _, hstop⟩ =>
    cases c
    simp_all [Tiles]
  | c :: d :: cells, _ =>
    have hboth := (isChain_cons_cons.1 hseparated).1
    exact absurd ⟨hfree c (by simp), hfree d (by simp)⟩ hboth

end ConstructionKit.ProofKit
