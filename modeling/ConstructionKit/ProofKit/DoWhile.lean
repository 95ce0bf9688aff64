import Mathlib.Algebra.Order.Group.Nat

/-! Loops that test behind their body.  A loop carries an index and a state, and its fuel bounds the
number of turns.  Where each turn performs a list of actions on the state, a run of the loop performs
the lists of its turns one after the other. -/

namespace ConstructionKit.ProofKit

open List

variable {ι σ α : Type}

/-- `do s := body i s; i := next i while again i`. -/
def doWhile (body : ι → σ → Option σ) (next : ι → ι) (again : ι → Bool) :
    Nat → ι → σ → Option σ
  | 0, _, _ => none
  | fuel + 1, i, s => do
    let s ← body i s
    if again (next i) then doWhile body next again fuel (next i) s else some s

/-- What the first `n` turns from index `i` do, if a turn at `i` performs `acts i`. -/
def turns (next : ι → ι) (acts : ι → List α) (i : ι) (n : Nat) : List α :=
  (List.range n).flatMap fun k => acts (next^[k] i)

variable {next : ι → ι} {acts : ι → List α}

theorem turns_zero (i : ι) : turns next acts i 0 = [] := rfl

theorem turns_succ (i : ι) (n : Nat) :
    turns next acts i (n + 1) = acts i ++ turns next acts (next i) n := by
  simp only [turns, range_succ_eq_map, flatMap_cons, flatMap_map]
  rfl

variable {body : ι → σ → Option σ} {again : ι → Bool} {act : σ → α → σ} {R : σ → σ → Prop}
  {fuel n : Nat} {s t : σ} {i : ι}

/-- A loop that goes on for `n` turns has performed the actions of these turns. -/
theorem doWhile_add (hbody : ∀ i s, body i s = some ((acts i).foldl act s)) :
    ∀ {i : ι} {s : σ}, (∀ k < n, again (next^[k + 1] i)) → ∀ fuel,
      doWhile body next again (n + fuel) i s =
        doWhile body next again fuel (next^[n] i) ((turns next acts i n).foldl act s) := by
  induction n with
  | zero =>
    intro i s _ fuel
    rw [Nat.zero_add]
    rfl
  | succ n ih =>
    intro i s hagain fuel
    have hfirst : again (next i) = true := hagain 0 (Nat.succ_pos n)
    have hrest : ∀ k < n, again (next^[k + 1] (next i)) :=
      fun k hk => hagain (k + 1) (Nat.succ_lt_succ hk)
    rw [show n + 1 + fuel = n + fuel + 1 by omega, doWhile, hbody]
    show (if again (next i) = true then _ else _) = _
    rw [if_pos hfirst, ih hrest, turns_succ, foldl_append]
    rfl

/-- A loop that stops behind its turn `n + 1` returns, with the actions of these turns performed. -/
theorem doWhile_eq_some (hbody : ∀ i s, body i s = some ((acts i).foldl act s))
    (hagain : ∀ k < n, again (next^[k + 1] i)) (hstop : ¬again (next^[n + 1] i))
    (hfuel : n < fuel) :
    doWhile body next again fuel i s = some ((turns next acts i (n + 1)).foldl act s) := by
  obtain ⟨rest, rfl⟩ : ∃ rest, fuel = n + (rest + 1) := ⟨fuel - n - 1, by omega⟩
  have hlast : turns next acts i (n + 1) = turns next acts i n ++ acts (next^[n] i) := by
    simp [turns, range_succ]
  rw [doWhile_add hbody hagain, doWhile, hbody, hlast, foldl_append]
  show (if again (next (next^[n] i)) = true then _ else _) = _
  rw [← Function.iterate_succ_apply' next n i, if_neg hstop]

/-- A loop that returns has gone through its first turn, and the turns behind it relate the state
after the first turn to the final one, if every turn does so. -/
theorem exists_first_turn (hrefl : ∀ s, R s s)
    (htrans : ∀ {s t u}, R s t → R t u → R s u) (hbody : ∀ {i s t}, body i s = some t → R s t)
    :
    ∀ {i : ι} {s t : σ}, doWhile body next again fuel i s = some t →
      ∃ u, body i s = some u ∧ R u t := by
  induction fuel with
  | zero =>
    intro i s t h
    cases h
  | succ fuel ih =>
    intro i s t h
    obtain ⟨u, hu, htail⟩ := Option.bind_eq_some_iff.1 h
    refine ⟨u, hu, ?_⟩
    split at htail
    · obtain ⟨v, hv, hvt⟩ := ih htail
      exact htrans (hbody hv) hvt
    · exact Option.some.inj htail ▸ hrefl u

theorem doWhile_related (hrefl : ∀ s, R s s)
    (htrans : ∀ {s t u}, R s t → R t u → R s u) (hbody : ∀ {i s t}, body i s = some t → R s t)
    (h : doWhile body next again fuel i s = some t) : R s t := by
  obtain ⟨u, hu, hut⟩ := exists_first_turn hrefl htrans hbody h
  exact htrans (hbody hu) hut

/-- A loop that returns and goes on for `n` turns has performed the actions of `n + 1` turns, and
possibly more. -/
theorem exists_foldl_turns (acts : ι → List α) (act : σ → α → σ)
    (hbody : ∀ i s, body i s = some ((acts i).foldl act s))
    (hagain : ∀ k < n, again (next^[k + 1] i))
    (h : doWhile body next again fuel i s = some t) :
    ∃ rest, t = (turns next acts i (n + 1) ++ rest).foldl act s := by
  induction n generalizing fuel i s with
  | zero =>
    obtain ⟨u, hu, rest, rfl⟩ := exists_first_turn (R := fun s t => ∃ l : List α, t = l.foldl act s)
      (fun _ => ⟨[], rfl⟩)
      (by rintro s _ _ ⟨l, rfl⟩ ⟨l', rfl⟩; exact ⟨l ++ l', by rw [foldl_append]⟩)
      (by intro i s t h; exact ⟨acts i, (Option.some.inj ((hbody i s).symm.trans h)).symm⟩) h
    refine ⟨rest, ?_⟩
    rw [turns_succ, turns_zero, append_nil, foldl_append,
      Option.some.inj ((hbody i s).symm.trans hu)]
  | succ n ih =>
    cases fuel with
    | zero => cases h
    | succ =>
      have hfirst : again (next i) = true := hagain 0 (Nat.succ_pos n)
      rw [doWhile, hbody] at h
      change (if again (next i) = true then _ else _) = _ at h
      rw [if_pos hfirst] at h
      obtain ⟨rest, rfl⟩ := ih (fun k hk => hagain (k + 1) (Nat.succ_lt_succ hk)) h
      exact ⟨rest, by rw [turns_succ i, append_assoc, foldl_append (l := acts i)]⟩

/-- A measure that every turn raises by `m`, behind a loop that goes on for `n` turns. -/
theorem add_mul_le_of_doWhile {f : σ → Nat} {m : Nat}
    (hbody : ∀ {i s t}, body i s = some t → f s + m ≤ f t)
    (hagain : ∀ k < n, again (next^[k + 1] i)) (h : doWhile body next again fuel i s = some t) :
    f s + (n + 1) * m ≤ f t := by
  induction n generalizing fuel i s with
  | zero =>
    obtain ⟨u, hu, hut⟩ := exists_first_turn (R := fun s t => f s ≤ f t) (fun _ => le_rfl)
      (fun h h' => h.trans h') (fun h => (Nat.le_add_right _ m).trans (hbody h)) h
    have := hbody hu
    omega
  | succ n ih =>
    cases fuel with
    | zero => cases h
    | succ =>
      obtain ⟨u, hu, htail⟩ := Option.bind_eq_some_iff.1 h
      have hfirst : again (next i) = true := hagain 0 (Nat.succ_pos n)
      rw [if_pos hfirst] at htail
      have hrest := ih (fun k hk => hagain (k + 1) (Nat.succ_lt_succ hk)) htail
      have := hbody hu
      rw [Nat.succ_mul]
      omega

/-- The output of a list of groups of actions, where each group keeps an invariant and appends its
own output. -/
theorem foldl_flatMap_appends {β : Type} (I : σ → Prop) (out : σ → List β) {v : ι → List β}
    {l : List ι}
    (h : ∀ i ∈ l, ∀ s, I s → I ((acts i).foldl act s) ∧ out ((acts i).foldl act s) = out s ++ v i)
    (hs : I s) :
    I ((l.flatMap acts).foldl act s) ∧ out ((l.flatMap acts).foldl act s) = out s ++ l.flatMap v := by
  induction l generalizing s with
  | nil => exact ⟨hs, (append_nil _).symm⟩
  | cons i l ih =>
    obtain ⟨hI, hout⟩ := h i mem_cons_self s hs
    obtain ⟨hI', hout'⟩ := ih (fun j hj => h j (mem_cons_of_mem i hj)) hI
    rw [flatMap_cons, foldl_append]
    refine ⟨hI', ?_⟩
    rw [hout', hout, flatMap_cons, append_assoc]

end ConstructionKit.ProofKit
