import ConstructionKit.ProofKit.Stores

/-! A memory in regions with a copy on each of several devices.  A region has a home, once a device has
fetched it: the device that others fetch it from.  A ledger records what was stored last in each
cell, and whether that is where fetches find it. -/

namespace ConstructionKit.ProofKit

variable {ι δ α β : Type}

structure Replicas (ι δ α β : Type) where
  memory : δ → α → β
  home : ι → Option δ

section Fetch

variable {region : α → Option ι} {s t u : Replicas ι δ α β} {d o : δ} {b b' : ι} {a : α} {v : β}

/-- Device `d` fetches region `b`: it becomes the home of a region that has none, and gets a copy of
one that has; both devices can be the home then. -/
structure Replicas.Fetches (region : α → Option ι) (d : δ) (b : ι) (s t : Replicas ι δ α β) :
    Prop where
  homes : ∀ b', b' ≠ b → t.home b' = s.home b'
  outside : ∀ e a, region a ≠ some b → t.memory e a = s.memory e a
  elsewhere : ∀ e a, e ≠ d → t.memory e a = s.memory e a
  adopts : s.home b = none → t.home b = some d ∧ ∀ a, t.memory d a = s.memory d a
  copies : ∀ o, s.home b = some o → (t.home b = some o ∨ t.home b = some d) ∧
    ∀ a, region a = some b → t.memory d a = s.memory o a

theorem Replicas.Fetches.of_home (hhome : s.home b = some d) : Fetches region d b s s where
  homes _ _ := rfl
  outside _ _ _ := rfl
  elsewhere _ _ _ := rfl
  adopts hnone := by cases hhome.symm.trans hnone
  copies o ho := by
    cases hhome.symm.trans ho
    exact ⟨.inl hhome, fun _ _ => rfl⟩

theorem Replicas.Fetches.of_none (hnone : s.home b = none) (hhome : t.home b = some d)
    (hhomes : ∀ b', b' ≠ b → t.home b' = s.home b') (hmemory : t.memory = s.memory) :
    Fetches region d b s t where
  homes := hhomes
  outside _ _ _ := by rw [hmemory]
  elsewhere _ _ _ := by rw [hmemory]
  adopts _ := ⟨hhome, fun _ => by rw [hmemory]⟩
  copies o ho := by cases hnone.symm.trans ho

theorem Replicas.Fetches.of_copy [DecidableEq ι] [DecidableEq δ] (ho : s.home b = some o)
    (hhome : t.home b = some o ∨ t.home b = some d) (hhomes : ∀ b', b' ≠ b → t.home b' = s.home b')
    (hcopy : ∀ a, t.memory d a = if region a = some b then s.memory o a else s.memory d a)
    (helse : ∀ e, e ≠ d → t.memory e = s.memory e) : Fetches region d b s t where
  homes := hhomes
  outside e a ha := by
    by_cases he : e = d
    · rw [he, hcopy, if_neg ha]
    · rw [helse e he]
  elsewhere e a he := by rw [helse e he]
  adopts hnone := by cases ho.symm.trans hnone
  copies o' ho' := by
    cases ho.symm.trans ho'
    exact ⟨hhome, fun a ha => by rw [hcopy, if_pos ha]⟩

/-- Device `d` has what the home of the region has. -/
def Replicas.Ready (region : α → Option ι) (d : δ) (b : ι) (s : Replicas ι δ α β) : Prop :=
  ∃ o, s.home b = some o ∧ ∀ a, region a = some b → s.memory d a = s.memory o a

theorem Replicas.Fetches.home_memory [DecidableEq δ] (h : Fetches region d b s t)
    (hhome : s.home b = some o) (ha : region a = some b) : t.memory o a = s.memory o a := by
  by_cases hod : o = d
  · rw [hod, (h.copies o hhome).2 a ha, hod]
  · exact h.elsewhere o a hod

theorem Replicas.Fetches.ready [DecidableEq δ] (h : Fetches region d b s t) : t.Ready region d b := by
  cases hhome : s.home b with
  | none => exact ⟨d, (h.adopts hhome).1, fun _ _ => rfl⟩
  | some o =>
    obtain ⟨hhome', hcopy⟩ := h.copies o hhome
    rcases hhome' with hhome' | hhome'
    · exact ⟨o, hhome', fun a ha => (hcopy a ha).trans (h.home_memory hhome ha).symm⟩
    · exact ⟨d, hhome', fun _ _ => rfl⟩

/-- A region stays ready while the device fetches others. -/
theorem Replicas.Fetches.ready_of_ready [DecidableEq ι] [DecidableEq δ] (h : Fetches region d b s t) (hready : s.Ready region d b') :
    t.Ready region d b' := by
  by_cases hb : b' = b
  · subst hb
    exact h.ready
  · obtain ⟨o, hhome, hsame⟩ := hready
    refine ⟨o, (h.homes b' hb).trans hhome, fun a ha => ?_⟩
    have hout : region a ≠ some b := fun heq => hb (Option.some.inj (ha.symm.trans heq))
    rw [h.outside d a hout, h.outside o a hout]
    exact hsame a ha

end Fetch

/-! ### The ledger -/

/-- Where the last byte stored in a cell is: nowhere yet, so that all devices have what they had at
first; on the device that stored it, or where fetches take it to; or where no fetch finds it. -/
inductive Place (δ : Type) where
  | unstored
  | on (device : δ)
  | lost
deriving DecidableEq, Repr

structure Ledger (δ α β : Type) where
  left : α → Option β
  place : α → Place δ

namespace Ledger

variable [DecidableEq ι] [DecidableEq δ] [DecidableEq α] (g : Ledger δ α β)

/-- The first fetch of a region; it finds what its own device stored. -/
def adopt (region : α → Option ι) (d : δ) (b : ι) : Ledger δ α β :=
  { g with place := fun a => match g.place a with
      | .on e => if region a = some b ∧ e ≠ d then .lost else .on e
      | place => place }

def fetch (region : α → Option ι) (d : δ) (b : ι) (home : Option δ) : Ledger δ α β :=
  match home with
  | none => g.adopt region d b
  | some _ => g

/-- The ledger after a device has fetched a list of regions, in a system whose state has copies of a
memory in it. -/
def fetchAll {σ : Type} (view : σ → Replicas ι δ α β) (fetch : σ → ι → σ) (region : α → Option ι)
    (d : δ) (g : Ledger δ α β) (s : σ) : List ι → Ledger δ α β
  | [] => g
  | b :: bs => fetchAll view fetch region d (g.fetch region d b ((view s).home b)) (fetch s b) bs

/-- The place of a byte that `target` stores. -/
def placeOf (target : δ) : Option δ → Place δ
  | none => .on target
  | some o => if o = target then .on target else .lost

def store (home : α → Option δ) (target : δ) (stores : List (α × β)) : Ledger δ α β where
  left := storeAll g.left (stores.map (Prod.map id some))
  place := storeAll g.place (stores.map fun store => (store.1, placeOf target (home store.1)))

end Ledger

section Holds

variable {region : α → Option ι} {s t : Replicas ι δ α β} {g : Ledger δ α β} {d : δ} {b : ι} {a : α}
  {v : β}

/-- A device that has the last byte stored in a cell, where the ledger knows one. -/
def Replicas.Has (s : Replicas ι δ α β) (a : α) (b : ι) (v : β) : Place δ → Prop
  | .unstored => ∀ d, s.memory d a = v
  | .on d => ∀ e, s.home b = some e ∨ s.home b = none ∧ e = d → s.memory e a = v
  | .lost => True

def Replicas.Holds (region : α → Option ι) (s : Replicas ι δ α β) (g : Ledger δ α β) : Prop :=
  ∀ a b v, region a = some b → g.left a = some v → s.Has a b v (g.place a)

/-- What a fetch takes to its device is what was stored last, unless it is lost. -/
theorem Replicas.Holds.memory (hs : s.Holds region g) (hready : s.Ready region d b)
    (ha : region a = some b) (hleft : g.left a = some v) (hplace : g.place a ≠ .lost) :
    s.memory d a = v := by
  obtain ⟨o, hhome, hsame⟩ := hready
  rw [hsame a ha]
  have hhas := hs a b v ha hleft
  cases hp : g.place a with
  | unstored =>
    rw [hp] at hhas
    exact hhas o
  | on =>
    rw [hp] at hhas
    exact hhas o (.inl hhome)
  | lost => exact absurd hp hplace

theorem Replicas.Has.congr {place : Place δ} (hhas : s.Has a b v place)
    (hmemory : ∀ e, t.memory e a = s.memory e a) (hhome : t.home b = s.home b) :
    t.Has a b v place := by
  cases place with
  | unstored => exact fun e => (hmemory e).trans (hhas e)
  | on =>
    intro e he
    rw [hhome] at he
    exact (hmemory e).trans (hhas e he)
  | lost => trivial

variable [DecidableEq ι] [DecidableEq δ] {σ : Type}

theorem Ledger.fetch_left (g : Ledger δ α β) (region : α → Option ι) (d : δ) (b : ι) (home : Option δ) :
    (g.fetch region d b home).left = g.left := by
  cases home <;> rfl

theorem Ledger.adopt_place_of_ne (g : Ledger δ α β) (d : δ) (ha : region a ≠ some b) :
    (g.adopt region d b).place a = g.place a := by
  rw [adopt]
  dsimp only
  split
  · next e hplace => rw [if_neg fun h => ha h.1, hplace]
  · rfl

/-- Fetches keep what is stored, or the ledger says that it is lost. -/
theorem Replicas.Fetches.holds (h : Fetches region d b s t) (hs : s.Holds region g) :
    t.Holds region (g.fetch region d b (s.home b)) := by
  intro a b' v ha hleft
  rw [Ledger.fetch_left] at hleft
  have hhas := hs a b' v ha hleft
  by_cases hb : b' = b
  · subst hb
    cases hhome : s.home b' with
    | none =>
      obtain ⟨hhome', hmemory⟩ := h.adopts hhome
      have hsame : ∀ e, t.memory e a = s.memory e a := by
        intro e
        by_cases he : e = d
        · rw [he, hmemory a]
        · exact h.elsewhere e a he
      rw [Ledger.fetch, Ledger.adopt]
      dsimp only
      cases hplace : g.place a with
      | unstored =>
        rw [hplace] at hhas
        exact fun e => (hsame e).trans (hhas e)
      | on e =>
        rw [hplace] at hhas
        dsimp only
        split
        · trivial
        · next hed =>
          have hed : e = d := by
            by_contra hne
            exact hed ⟨ha, hne⟩
          intro e' he'
          have he' : e' = d := by
            rcases he' with he' | he'
            · exact (Option.some.inj (hhome'.symm.trans he')).symm
            · exact he'.2.trans hed
          rw [he', hsame d]
          exact hhas d (.inr ⟨hhome, hed.symm⟩)
      | lost => trivial
    | some o =>
      obtain ⟨hhome', hcopy⟩ := h.copies o hhome
      rw [Ledger.fetch]
      cases hplace : g.place a with
      | unstored =>
        rw [hplace] at hhas
        intro e
        by_cases he : e = d
        · rw [he, hcopy a ha]
          exact hhas o
        · rw [h.elsewhere e a he]
          exact hhas e
      | on =>
        rw [hplace] at hhas
        have hv := hhas o (.inl hhome)
        intro e' he'
        rcases he' with he' | ⟨he', -⟩
        · rcases hhome' with hhome' | hhome'
          · rw [← Option.some.inj (hhome'.symm.trans he'), h.home_memory hhome ha]
            exact hv
          · rw [← Option.some.inj (hhome'.symm.trans he'), hcopy a ha]
            exact hv
        · rcases hhome' with hhome' | hhome' <;> cases hhome'.symm.trans he'
      | lost => trivial
  · have hout : region a ≠ some b := fun heq => hb (Option.some.inj (ha.symm.trans heq))
    have hplace : (g.fetch region d b (s.home b)).place a = g.place a := by
      cases s.home b with
      | none => exact g.adopt_place_of_ne d hout
      | some => rfl
    rw [hplace]
    exact hhas.congr (fun e => h.outside e a hout) (h.homes b' hb)

/-- After a device has fetched some regions, they are ready and the ledger is right. -/
theorem Replicas.Holds.fetchAll {view : σ → Replicas ι δ α β} {fetch : σ → ι → σ}
    {Inv : σ → Prop} (hfetch : ∀ s b, Inv s → Inv (fetch s b) ∧ Fetches region d b (view s) (view (fetch s b)))
    {s : σ} (hinv : Inv s) (hs : (view s).Holds region g) (bs : List ι) :
    Inv (bs.foldl fetch s) ∧ (view (bs.foldl fetch s)).Holds region (g.fetchAll view fetch region d s bs) ∧
      ∀ b, b ∈ bs ∨ (view s).Ready region d b → (view (bs.foldl fetch s)).Ready region d b := by
  induction bs generalizing s g with
  | nil => exact ⟨hinv, hs, fun b hb => hb.resolve_left List.not_mem_nil⟩
  | cons b bs ih =>
    obtain ⟨hinv', h⟩ := hfetch s b hinv
    obtain ⟨hinv'', hs', hready⟩ := ih hinv' (h.holds hs)
    refine ⟨hinv'', hs', fun b' hb' => hready b' ?_⟩
    rcases hb' with hb' | hb'
    · rcases List.mem_cons.1 hb' with rfl | hb'
      · exact .inr h.ready
      · exact .inl hb'
    · exact .inr (h.ready_of_ready hb')

theorem Ledger.fetchAll_left (view : σ → Replicas ι δ α β) (fetch : σ → ι → σ)
    (region : α → Option ι) (d : δ) (g : Ledger δ α β) (s : σ) (bs : List ι) :
    (g.fetchAll view fetch region d s bs).left = g.left := by
  induction bs generalizing g s with
  | nil => rfl
  | cons b bs ih => rw [fetchAll, ih, fetch_left]

variable [DecidableEq α] {stores : List (α × β)}

theorem Ledger.store_of_notMem (g : Ledger δ α β) (home : α → Option δ) (target : δ)
    (ha : a ∉ stores.map Prod.fst) :
    (g.store home target stores).left a = g.left a ∧
      (g.store home target stores).place a = g.place a := by
  constructor
  all_goals
    refine storeAll_of_notMem _ ?_
    rw [List.map_map]
    exact ha

omit [DecidableEq ι] in
theorem Replicas.Holds.store (hs : s.Holds region g) {target : δ} : Holds region
      { s with memory := Function.update s.memory target (storeAll (s.memory target) stores) }
      (g.store (fun a => (region a).bind s.home) target stores) := by
  intro a b v ha hleft
  by_cases hmem : a ∈ stores.map Prod.fst
  · have hv : storeAll (s.memory target) stores a = v :=
      Option.some.inj ((storeAll_map some (s.memory target) g.left hmem).symm.trans hleft)
    have hplace : (g.store (fun a => (region a).bind s.home) target stores).place a =
        Ledger.placeOf target (s.home b) := by
      refine (storeAll_key (fun a => Ledger.placeOf target ((region a).bind s.home)) g.place hmem).trans ?_
      rw [ha]
      rfl
    have hnew : ∀ e, e = target →
        Function.update s.memory target (storeAll (s.memory target) stores) e a = v := by
      rintro e rfl
      rw [Function.update_self]
      exact hv
    rw [hplace]
    cases hhome : s.home b with
    | none =>
      intro e he
      rcases he with he | he
      · cases hhome.symm.trans he
      · exact hnew e he.2
    | some =>
      rw [Ledger.placeOf]
      split
      · next ho =>
        intro e he
        rcases he with he | he
        · exact hnew e ((Option.some.inj (hhome.symm.trans he)).symm.trans ho)
        · cases hhome.symm.trans he.1
      · trivial
  · obtain ⟨hleft', hplace⟩ := g.store_of_notMem (fun a => (region a).bind s.home) target hmem
    rw [hplace]
    rw [hleft'] at hleft
    refine (hs a b v ha hleft).congr (fun e => ?_) rfl
    by_cases he : e = target
    · subst he
      change Function.update s.memory e _ e a = s.memory e a
      rw [Function.update_self, storeAll_of_notMem _ hmem]
    · change Function.update s.memory target _ e a = s.memory e a
      rw [Function.update_of_ne he]

end Holds

end ConstructionKit.ProofKit
