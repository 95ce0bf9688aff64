import ConstructionKit.Cargo.SmallVectorMoves
import ConstructionKit.ProofKit.Runs

/-! Sequences of operations on vectors, next to the same operations on lists. -/

namespace ConstructionKit.Cargo

open ProofKit List Function Option

variable {T : Type} {N : UInt64} {s s' : State T} {a : Lists T} {v other : Nat} {vec o : Vec}
  {xs : List T} {op : Op T}

/-! ### The operations on lists -/

/-- The operations of `std::vector`; a list that was moved from is empty. -/
def spec (a : Lists T) : Op T → Lists T
  | .construct v => update a v (some [])
  | .moveConstruct v other => update (update a v (a other)) other (some [])
  | .destruct v => update a v none
  | .moveAssign v other =>
    if v = other then a else update (update a v (a other)) other (some [])
  | .assign v filling => update a v (some filling.values)
  | .reserve _ _ => a
  | .shrinkToFit _ => a
  | .clear v => update a v (some [])
  | .insert v pos insertion =>
    update a v ((a v).map fun xs => xs.take pos ++ insertion.values ++ xs.drop pos)
  | .erase v pos => update a v ((a v).map fun xs => xs.take pos ++ xs.drop (pos + 1))
  | .eraseRange v first last =>
    update a v ((a v).map fun xs => xs.take first ++ xs.drop last)
  | .pushBack v x => update a v ((a v).map (· ++ [x]))
  | .popBack v => update a v ((a v).map List.dropLast)
  | .resize v count x => update a v ((a v).map fun xs =>
      xs.take count.toNat ++ .replicate (count.toNat - xs.length) x)
  | .swap v other => update (update a v (a other)) other (a v)
  | .clone v other => update a other (a v)

/-- What the caller has to see to: vectors that live or do not live yet, and positions in them. -/
def Allowed (a : Lists T) : Op T → Prop
  | .construct v => a v = none
  | .moveConstruct v other => a v = none ∧ (a other).isSome
  | .destruct v => (a v).isSome
  | .moveAssign v other => (a v).isSome ∧ (a other).isSome
  | .assign v _ => (a v).isSome
  | .reserve v _ => (a v).isSome
  | .shrinkToFit v => (a v).isSome
  | .clear v => (a v).isSome
  | .insert v pos _ => ∃ xs, a v = some xs ∧ pos ≤ xs.length
  | .erase v pos => ∃ xs, a v = some xs ∧ pos < xs.length
  | .eraseRange v first last => ∃ xs, a v = some xs ∧ first ≤ last ∧ last ≤ xs.length
  | .pushBack v _ => (a v).isSome
  | .popBack v => ∃ xs, a v = some xs ∧ xs ≠ []
  | .resize v _ _ => (a v).isSome
  | .swap v other => (a v).isSome ∧ (a other).isSome
  | .clone v other => (a v).isSome ∧ a other = none

/-! ### The representation -/

/-- A vector begins at its own embedded storage exactly if its capacity is that of the storage, and
otherwise at a live block on the heap, of its capacity and of no other vector; it has at most as many
elements as its capacity; and they are those of its list. -/
structure Sound (N : UInt64) (s : State T) (a : Lists T) : Prop where
  live_iff : ∀ v, (s.vectors v).isSome ↔ (a v).isSome
  embedded_iff : ∀ v vec, s.vectors v = some vec → (vec.start = .embedded v ↔ vec.capacity = N)
  heap : ∀ v vec, s.vectors v = some vec → vec.capacity ≠ N → ∃ b cells, vec.start = .heap b ∧
    s.mem (.heap b) = some cells ∧ cells.length = vec.capacity.toNat ∧
      ∀ v' vec', s.vectors v' = some vec' → vec'.start = .heap b → v' = v
  size_le : ∀ v vec, s.vectors v = some vec → vec.size ≤ vec.capacity.toNat
  contents : ∀ v vec xs, s.vectors v = some vec → a v = some xs →
    s.mem.load vec.start 0 vec.size = some (xs.map some)

theorem Rep.sound (h : Rep N s a) : Sound N s a := by
  constructor
  · intro v
    cases hv : a v with
    | none =>
      rw [h.dead v hv]
      exact Iff.rfl
    | some xs =>
      obtain ⟨vec, hvec, -⟩ := h.live v xs hv
      rw [hvec]
      exact Iff.rfl
  · intro v vec hvec
    obtain ⟨xs, -, hrep⟩ := h.vecRep hvec
    exact ⟨hrep.capacity_eq, hrep.start_eq⟩
  · intro v vec hvec hne
    obtain ⟨xs, -, hrep⟩ := h.vecRep hvec
    obtain ⟨⟨b, hb⟩, -⟩ := hrep.heap_of_ne hne
    obtain ⟨rest, hcells, hlength⟩ := hrep.cells
    refine ⟨b, xs.map some ++ rest, hb, hb ▸ hcells, ?_, ?_⟩
    · rw [length_append, length_map, hlength]
    · exact fun v' vec' hvec' hb' => h.separate hvec' hvec hb' hb
  · intro v vec hvec
    obtain ⟨xs, hv, -⟩ := h.vecRep hvec
    obtain ⟨hsize, rest, -, hlength⟩ := h.cells hvec hv
    omega
  · intro v vec xs hvec hv
    obtain ⟨hsize, rest, hcells, -⟩ := h.cells hvec hv
    exact Blocks.load_middle (show _ = some ([] ++ _ ++ _) from hcells) rfl
      (by rw [length_map, hsize])

/-! ### The operations that work -/

/-- The operations that keep the representation, of those that are allowed. -/
def Handled (N : UInt64) (s : State T) : Op T → Prop
  | .moveAssign v other => v = other ∨ ∀ vec o, s.vectors v = some vec → s.vectors other = some o →
      vec.capacity = N ∨ o.capacity ≠ N
  | .swap v other => v = other ∨ ∀ vec o, s.vectors v = some vec → s.vectors other = some o →
      (vec.capacity = N ∧ o.size ≤ N.toNat) ∨ (vec.capacity ≠ N ∧ o.capacity ≠ N)
  | .assign v filling => ∀ vec, s.vectors v = some vec → Fits { vec with size := 0 } filling.values.length
  | .insert v _ insertion => ∀ vec, s.vectors v = some vec → Fits vec insertion.values.length
  | .pushBack v _ => ∀ vec, s.vectors v = some vec → Fits vec 1
  | _ => True

/-- The elements of a vector on the heap are replaced by those of one in embedded storage: the
capacity is that of embedded storage, but the vector begins at the block that was freed. -/
theorem moveAssign_dangling (h : Rep N s a) (hne : v ≠ other) (hvec : s.vectors v = some vec)
    (ho : s.vectors other = some o) (hheap : vec.capacity ≠ N) (hsmall : o.capacity = N)
    (hs' : moveAssign N s v other = some s') :
    ∃ vec', s'.vectors v = some vec' ∧ vec'.capacity = N ∧ vec'.start ≠ .embedded v := by
  obtain ⟨xs, -, hrep⟩ := h.vecRep hvec
  obtain ⟨⟨b, hb⟩, hlt⟩ := hrep.heap_of_ne hheap
  simp only [moveAssign, if_neg hne, hvec, ho, bind_eq_bind, bind_some] at hs'
  obtain ⟨s₁, -, hs'⟩ := bind_eq_some_iff.1 hs'
  obtain ⟨s₂, -, hs'⟩ := bind_eq_some_iff.1 hs'
  rw [if_pos (by rw [hsmall]; exact UInt64.le_refl N)] at hs'
  obtain ⟨s₃, -, hs'⟩ := bind_eq_some_iff.1 hs'
  obtain ⟨s₄, -, hs'⟩ := bind_eq_some_iff.1 hs'
  cases hs'
  refine ⟨⟨_, vec.start, o.size⟩, (update_of_ne hne ..).trans (update_self ..), ?_, ?_⟩
  · rw [if_pos hlt, hsmall]
  · rw [hb]
    exact Block.noConfusion

/-- The elements of a vector on the heap are exchanged with those of one in embedded storage: the
first then begins at the storage of the second. -/
theorem swap_shared (h : Rep N s a) (hne : v ≠ other) (hvec : s.vectors v = some vec)
    (ho : s.vectors other = some o) (hheap : vec.capacity ≠ N) (hsmall : o.capacity = N)
    (hs' : swap N s v other = some s') :
    ∃ vec', s'.vectors v = some vec' ∧ vec'.capacity = N ∧ vec'.start ≠ .embedded v := by
  obtain ⟨xs, -, hrep⟩ := h.vecRep ho
  simp only [swap, hvec, ho, bind_eq_bind, bind_some, if_neg (Ne.symm hheap)] at hs'
  cases hs'
  refine ⟨_, (update_of_ne hne ..).trans (update_self ..), hsmall, ?_⟩
  rw [hrep.start_eq hsmall]
  exact fun heq => hne (Block.embedded.inj heq).symm

/-- More elements than the embedded storage has room for are exchanged with those in it. -/
theorem swap_eq_none (h : Rep N s a) (hvec : s.vectors v = some vec)
    (ho : s.vectors other = some o) (hsmall : vec.capacity = N) (hsize : N.toNat < o.size) :
    swap N s v other = none := by
  obtain ⟨xs, hxs, hrep⟩ := h.vecRep hvec
  obtain ⟨hxsSize, rest, hcells, hlength⟩ := h.cells hvec hxs
  rw [hsmall] at hlength
  have hlocal : vec.start ≠ .localArray := (h.owned_old hvec (.inr rfl)).1
  obtain ⟨s₁, hfirst, -, -, -, ⟨cells₁, hcells₁, hlength₁⟩, -⟩ :=
    swapRanges_out N.toNat vec.size hlocal hcells (by omega)
      (by rw [length_append, length_map]; omega)
  rw [length_append, length_map] at hlength₁
  have hload : s₁.mem.load vec.start 0 o.size = none :=
    Blocks.load_eq_none hcells₁ (by omega) (by omega)
  have hsecond : s₁.swapRanges o.start o.size vec.start = none := by
    simp only [State.swapRanges, hload, bind_eq_bind, bind_none, bind_fun_none]
  simp only [swap, hvec, ho, if_pos hsmall.symm, hfirst, hsecond, bind_eq_bind,
    bind_some, bind_none]

/-! ### One operation -/

/-- An `assign` is an insertion to a vector that was emptied. -/
theorem assign_eq (h : Rep N s a) (hvec : s.vectors v = some vec) (filling : Filling T) :
    ∃ s₁, Rep N s₁ (update a v (some [])) ∧
      s₁.vectors v = some { vec with size := 0 } ∧
      assign N s v filling = insertValues N s₁ v filling.keeps 0 filling.values := by
  obtain ⟨xs, hv, -⟩ := h.vecRep hvec
  obtain ⟨hsize, -⟩ := h.cells hvec hv
  have hparts : a v = some ([] ++ xs ++ []) := by rw [nil_append, append_nil, hv]
  obtain ⟨cells, herase, hcells, hlength⟩ := eraseRange_eq h hvec hparts
  rw [length_nil, Nat.zero_add, ← hsize] at herase
  refine ⟨s.put v vec cells 0, h.put hvec hcells hlength rfl, update_self .., ?_⟩
  simp only [assign, hvec, herase, bind_eq_bind, bind_some]
  rfl

section Insert

variable (h : Rep N s a) (hvec : s.vectors v = some vec) (hv : a v = some xs) {pos : Nat}
  (hpos : pos ≤ xs.length) (keep : Bool) (values : List T)
include h hvec hv hpos

theorem insertValues_take_rep (hfits : Fits vec values.length) :
    ∃ s', insertValues N s v keep pos values = some s' ∧
      Rep N s' (update a v (some (xs.take pos ++ values ++ xs.drop pos))) := by
  rw [← take_append_drop pos xs] at hv
  have hinsert := insertValues_rep h hvec hv keep values hfits
  rwa [length_take_of_le hpos] at hinsert

theorem insertValues_take_eq_none (hfits : ¬ Fits vec values.length) :
    insertValues N s v keep pos values = none := by
  rw [← take_append_drop pos xs] at hv
  have hinsert := insertValues_eq_none h hvec hv keep values hfits
  rwa [length_take_of_le hpos] at hinsert

end Insert

/-- What is handled works as the operation on lists does. -/
theorem step_rep (h : Rep N s a) (hallowed : Allowed a op) (hhandled : Handled N s op) :
    ∃ s', step N s op = some s' ∧ Rep N s' (spec a op) := by
  cases op with
  | construct => exact ⟨_, rfl, construct_rep h hallowed⟩
  | moveConstruct =>
    obtain ⟨xs, hxs⟩ := isSome_iff_exists.1 hallowed.2
    exact moveConstruct_rep h hallowed.1 hxs
  | destruct =>
    obtain ⟨xs, hv⟩ := isSome_iff_exists.1 hallowed
    exact destruct_rep h hv
  | moveAssign v other =>
    obtain ⟨xs, hv⟩ := isSome_iff_exists.1 hallowed.1
    obtain ⟨ys, hother⟩ := isSome_iff_exists.1 hallowed.2
    obtain ⟨vec, hvec, -⟩ := h.live v xs hv
    obtain ⟨o, ho, -⟩ := h.live other ys hother
    by_cases hne : v = other
    · rw [spec, if_pos hne]
      exact ⟨s, if_pos hne, h⟩
    · rw [spec, if_neg hne]
      exact moveAssign_rep h hne hvec ho hother (hhandled.resolve_left hne vec o hvec ho)
  | assign v filling =>
    obtain ⟨xs, hv⟩ := isSome_iff_exists.1 hallowed
    obtain ⟨vec, hvec, -⟩ := h.live v xs hv
    obtain ⟨s₁, h₁, hvec₁, hassign⟩ := assign_eq h hvec filling
    obtain ⟨s', hinsert, h'⟩ := insertValues_take_rep h₁ hvec₁ (update_self ..)
      (Nat.zero_le _) filling.keeps filling.values (hhandled vec hvec)
    refine ⟨s', hassign.trans hinsert, ?_⟩
    rw [drop_zero, append_nil,
      update_idem] at h'
    exact h'
  | reserve v size =>
    obtain ⟨xs, hv⟩ := isSome_iff_exists.1 hallowed
    obtain ⟨vec, hvec, -⟩ := h.live v xs hv
    obtain ⟨s', vec', hreserve, h', -⟩ := reserve_rep h hvec size
    exact ⟨s', hreserve, h'⟩
  | shrinkToFit =>
    obtain ⟨xs, hv⟩ := isSome_iff_exists.1 hallowed
    exact shrinkToFit_rep h hv
  | clear =>
    obtain ⟨xs, hv⟩ := isSome_iff_exists.1 hallowed
    exact clear_rep h hv
  | insert v pos insertion =>
    obtain ⟨xs, hv, hpos⟩ := hallowed
    obtain ⟨vec, hvec, -⟩ := h.live v xs hv
    rw [spec, hv]
    exact insertValues_take_rep h hvec hv hpos insertion.keeps insertion.values (hhandled vec hvec)
  | erase v pos =>
    obtain ⟨xs, hv, hpos⟩ := hallowed
    obtain ⟨vec, hvec, -⟩ := h.live v xs hv
    have hsize : vec.size = xs.length := (h.cells hvec hv).1
    rw [step, spec, hv, erase_eq_eraseRange hvec (by omega)]
    exact eraseRange_rep h hv (Nat.le_succ pos) hpos
  | eraseRange =>
    obtain ⟨xs, hv, hfirst, hlast⟩ := hallowed
    rw [spec, hv]
    exact eraseRange_rep h hv hfirst hlast
  | pushBack v x =>
    obtain ⟨xs, hv⟩ := isSome_iff_exists.1 hallowed
    obtain ⟨vec, hvec, -⟩ := h.live v xs hv
    obtain ⟨s', hinsert, h'⟩ :=
      insertValues_take_rep h hvec hv (Nat.le_refl _) true [x] (hhandled vec hvec)
    refine ⟨s', (pushBack_eq_insertValues h hv x).trans hinsert, ?_⟩
    rw [take_length, drop_length, append_nil] at h'
    rw [spec, hv]
    exact h'
  | popBack =>
    obtain ⟨xs, hv, hne⟩ := hallowed
    obtain ⟨x, hx⟩ : ∃ x, xs = xs.dropLast ++ [x] :=
      ⟨xs.getLast hne, (dropLast_concat_getLast hne).symm⟩
    rw [spec, hv]
    rw [hx] at hv
    exact popBack_rep h hv
  | resize v count x =>
    obtain ⟨xs, hv⟩ := isSome_iff_exists.1 hallowed
    rw [spec, hv]
    exact resize_rep h hv count x
  | swap v other =>
    obtain ⟨xs, hv⟩ := isSome_iff_exists.1 hallowed.1
    obtain ⟨ys, hother⟩ := isSome_iff_exists.1 hallowed.2
    obtain ⟨vec, hvec, -⟩ := h.live v xs hv
    obtain ⟨o, ho, -⟩ := h.live other ys hother
    by_cases hne : v = other
    · subst hne
      rw [spec, update_eq_self, update_eq_self]
      exact swap_self_rep h hvec
    · rcases hhandled.resolve_left hne vec o hvec ho with ⟨hsmall, hsize⟩ | ⟨hheap, hheap'⟩
      · exact swap_embedded_rep h hne hvec ho hsmall hsize
      · exact swap_heap_rep h hne hvec ho hheap hheap'
  | clone =>
    obtain ⟨xs, hv⟩ := isSome_iff_exists.1 hallowed.1
    exact clone_rep h hv hallowed.2

/-- What is not handled has no result, or one that is not sound. -/
theorem handled_of_sound (h : Rep N s a) (hallowed : Allowed a op) (hstep : step N s op = some s')
    (hsound : Sound N s' (spec a op)) : Handled N s op := by
  cases op with
  | moveAssign v other =>
    by_cases hne : v = other
    · exact .inl hne
    right
    intro vec o hvec ho
    by_contra hbad
    obtain ⟨hheap, hsmall⟩ := not_or.1 hbad
    obtain ⟨vec', hvec', hcapacity, hstart⟩ :=
      moveAssign_dangling h hne hvec ho hheap (not_not.1 hsmall) hstep
    exact hstart ((hsound.embedded_iff v vec' hvec').2 hcapacity)
  | swap v other =>
    by_cases hne : v = other
    · exact .inl hne
    right
    intro vec o hvec ho
    by_cases hcapacity : vec.capacity = N
    · by_cases hsize : o.size ≤ N.toNat
      · exact .inl ⟨hcapacity, hsize⟩
      · have hnone := swap_eq_none h hvec ho hcapacity (Nat.lt_of_not_le hsize)
        cases hnone.symm.trans hstep
    · refine .inr ⟨hcapacity, fun hsmall => ?_⟩
      obtain ⟨vec', hvec', hcapacity', hstart⟩ := swap_shared h hne hvec ho hcapacity hsmall hstep
      exact hstart ((hsound.embedded_iff v vec' hvec').2 hcapacity')
  | assign v filling =>
    intro vec hvec
    obtain ⟨s₁, h₁, hvec₁, hassign⟩ := assign_eq h hvec filling
    by_contra hfits
    have hnone := insertValues_take_eq_none h₁ hvec₁ (update_self ..) (Nat.zero_le _)
      filling.keeps filling.values hfits
    cases (hassign.trans hnone).symm.trans hstep
  | insert v pos insertion =>
    intro vec hvec
    obtain ⟨xs, hv, hpos⟩ := hallowed
    by_contra hfits
    have hnone :=
      insertValues_take_eq_none h hvec hv hpos insertion.keeps insertion.values hfits
    cases hnone.symm.trans hstep
  | pushBack v x =>
    intro vec hvec
    obtain ⟨xs, hv⟩ := isSome_iff_exists.1 hallowed
    by_contra hfits
    have hnone := insertValues_take_eq_none h hvec hv (Nat.le_refl _) true [x] hfits
    cases ((pushBack_eq_insertValues h hv x).trans hnone).symm.trans hstep
  | _ => trivial

/-! ### Sequences of operations -/

/-- The vectors and the lists after an operation. -/
def next (N : UInt64) (p : State T × Lists T) (op : Op T) : State T × Lists T :=
  ((step N p.1 op).getD p.1, spec p.2 op)

/-- The operation does what it does on the lists, and keeps the representation. -/
def Refines (N : UInt64) (p : State T × Lists T) (op : Op T) : Prop :=
  ∃ s', step N p.1 op = some s' ∧ Sound N s' (spec p.2 op)

theorem rep_init : Rep N (State.init : State T) fun _ => none :=
  ⟨fun _ _ => rfl, fun _ _ h => (nomatch h), fun h => (nomatch h), fun _ _ => rfl⟩

end ConstructionKit.Cargo
