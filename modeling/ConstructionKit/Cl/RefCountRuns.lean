import ConstructionKit.Cl.RefCount
import ConstructionKit.ProofKit.Runs
import Mathlib.Algebra.Order.BigOperators.Group.Finset

/-! Reference counts under every interleaving of clients that release only what they hold. -/

namespace ConstructionKit.Cl

open ProofKit Function Finset

variable {ι : Type} [DecidableEq ι] {s t : Object ι} {i j : ι} {member : Member} {a : Action ι}

/-! ### What clients hold -/

/-- The internal references that a client has to release: its own, and the common one of the external
references if it released the last of these. -/
def Client.internalRefs (c : Client) : Nat :=
  c.internal + match c.pc with
    | .load (.releaseInternal true) => 1
    | .exchange (.releaseInternal true) _ _ => 1
    | _ => 0

/-- A client that runs a member holds a reference, and the one that it releases; only where there is
no external reference may it try to release one that it does not hold. -/
def Client.MayRun (external : UInt32) (c : Client) : Member → Prop
  | .retainExternal => 0 < c.external + c.internal
  | .releaseExternal => 0 < c.external ∨ (0 < c.internal ∧ external = 0)
  | .retainInternal => 0 < c.external + c.internal
  | .releaseInternal shared => shared = false → 0 < c.internal

instance (external : UInt32) (c : Client) : ∀ member, Decidable (c.MayRun external member)
  | .retainExternal => inferInstanceAs (Decidable (0 < c.external + c.internal))
  | .releaseExternal => inferInstanceAs (Decidable (0 < c.external ∨ (0 < c.internal ∧ external = 0)))
  | .retainInternal => inferInstanceAs (Decidable (0 < c.external + c.internal))
  | .releaseInternal shared => inferInstanceAs (Decidable (shared = false → 0 < c.internal))

/-- The calls that clients may make, and the references that they may hand on. -/
def Object.Allowed (s : Object ι) : Action ι → Prop
  | .call i member =>
    member ≠ .releaseInternal true ∧ (s.clients i).MayRun s.refCountExternal member
  | .give i _ .external => (s.clients i).pc = .idle ∧ 0 < (s.clients i).external
  | .give i _ .internal => (s.clients i).pc = .idle ∧ 0 < (s.clients i).internal
  | _ => True

instance (s : Object ι) : ∀ a, Decidable (s.Allowed a)
  | .call i member => inferInstanceAs (Decidable
      (member ≠ .releaseInternal true ∧ (s.clients i).MayRun s.refCountExternal member))
  | .give i _ .external =>
    inferInstanceAs (Decidable ((s.clients i).pc = .idle ∧ 0 < (s.clients i).external))
  | .give i _ .internal =>
    inferInstanceAs (Decidable ((s.clients i).pc = .idle ∧ 0 < (s.clients i).internal))
  | .load _ => inferInstanceAs (Decidable True)
  | .exchange _ _ => inferInstanceAs (Decidable True)
  | .delete _ => inferInstanceAs (Decidable True)

/-! ### Totals -/

variable [Fintype ι] {c c' : Client} {n external external' : UInt32}

def Object.total (s : Object ι) (weight : Client → Nat) : Nat := ∑ i, weight (s.clients i)

theorem Object.total_setClient (s : Object ι) (i : ι) (c : Client) (weight : Client → Nat) :
    (s.setClient i c).total weight + weight (s.clients i) = s.total weight + weight c := by
  have hnew : (s.setClient i c).total weight =
      weight c + ∑ j ∈ Finset.univ.erase i, weight (s.clients j) := by
    rw [total, ← add_sum_erase _ _ (mem_univ i)]
    refine congrArg₂ (· + ·) (congrArg weight (s.setClient_self i c)) ?_
    refine sum_congr rfl fun j hj => congrArg weight ?_
    exact s.setClient_of_ne c (ne_of_mem_erase hj)
  have hold : s.total weight =
      weight (s.clients i) + ∑ j ∈ Finset.univ.erase i, weight (s.clients j) :=
    (add_sum_erase _ _ (mem_univ i)).symm
  omega

omit [DecidableEq ι] in
theorem Object.le_total (s : Object ι) (i : ι) (weight : Client → Nat) :
    weight (s.clients i) ≤ s.total weight :=
  single_le_sum (f := fun i => weight (s.clients i)) (fun _ _ => Nat.zero_le _)
    (mem_univ i)

/-! ### The counts are the numbers of references -/

def Client.Valid (external : UInt32) (c : Client) : Prop :=
  match c.pc with
  | .load member => c.MayRun external member
  | .exchange member last next => c.MayRun external member ∧ member.next last = .ok next
  | _ => True

structure Object.Counted (s : Object ι) : Prop where
  external : s.refCountExternal.toNat = s.total Client.external
  internal : s.refCountInternal.toNat =
    s.total Client.internalRefs + if s.refCountExternal = 0 then 0 else 1
  valid : ∀ i, (s.clients i).Valid s.refCountExternal

theorem Client.MayRun.mono (h : c.MayRun external member) (hexternal : external = 0 → external' = 0)
    (hle : c.external ≤ c'.external) (hle' : c.internal ≤ c'.internal) :
    c'.MayRun external' member := by
  cases member with
  | releaseExternal =>
    refine h.imp (fun hpos => Nat.lt_of_lt_of_le hpos hle) fun hnone => ?_
    exact ⟨Nat.lt_of_lt_of_le hnone.1 hle', hexternal hnone.2⟩
  | releaseInternal => exact fun hshared => Nat.lt_of_lt_of_le (h hshared) hle'
  | _ =>
    simp only [Client.MayRun] at h ⊢
    omega

theorem Client.Valid.mono (h : c.Valid external)
    (hexternal : external = 0 → external' = 0) (hpc : c'.pc = c.pc)
    (hle : c.external ≤ c'.external) (hle' : c.internal ≤ c'.internal) : c'.Valid external' := by
  unfold Client.Valid at h ⊢
  rw [hpc]
  split at h
  · exact h.mono hexternal hle hle'
  · exact ⟨h.1.mono hexternal hle hle', h.2⟩
  · trivial

theorem eq_zero_iff : n = 0 ↔ n.toNat = 0 := UInt32.toNat_inj.symm

theorem retain_toNat (h : ¬ n + 1 < n) : (n + 1).toNat = n.toNat + 1 := by
  rw [UInt32.lt_iff_toNat_lt, UInt32.toNat_add] at h
  rw [UInt32.toNat_add]
  have hone : (1 : UInt32).toNat = 1 := rfl
  omega

theorem release_toNat (h : n ≠ 0) : (n - 1).toNat + 1 = n.toNat := by
  have hpos : 1 ≤ n.toNat := Nat.one_le_iff_ne_zero.2 fun hzero => h (eq_zero_iff.2 hzero)
  have hle : 1 ≤ n := UInt32.le_iff_toNat_le.2 hpos
  rw [UInt32.toNat_sub_of_le _ _ hle]
  exact Nat.sub_add_cancel hpos

section Next

variable {last next : UInt32}

theorem retainExternal_next (h : Member.retainExternal.next last = .ok next) :
    last ≠ 0 ∧ next.toNat = last.toNat + 1 := by
  rw [Member.next] at h
  split at h
  · cases h
  · next hpos =>
    split at h
    · cases h
    · next hwrap =>
      cases h
      exact ⟨hpos, retain_toNat hwrap⟩

theorem releaseExternal_next (h : Member.releaseExternal.next last = .ok next) :
    last ≠ 0 ∧ next.toNat + 1 = last.toNat := by
  rw [Member.next] at h
  split at h
  · cases h
  · next hpos =>
    cases h
    exact ⟨hpos, release_toNat hpos⟩

theorem retainInternal_next (h : Member.retainInternal.next last = .ok next) :
    next.toNat = last.toNat + 1 := by
  rw [Member.next] at h
  split at h
  · cases h
  · next hwrap =>
    cases h
    exact retain_toNat hwrap

end Next

/-- A step of one client, by what it changes in the counts and in what the client holds. -/
theorem Object.Counted.change (h : s.Counted) (hclients : t.clients = update s.clients i c)
    (hexternal : t.refCountExternal.toNat + (s.clients i).external =
      s.refCountExternal.toNat + c.external)
    (hinternal : t.refCountInternal.toNat + (s.clients i).internalRefs +
        (if s.refCountExternal = 0 then 0 else 1) =
      s.refCountInternal.toNat + c.internalRefs + if t.refCountExternal = 0 then 0 else 1)
    (hzero : s.refCountExternal = 0 → t.refCountExternal = 0)
    (hvalid : c.Valid t.refCountExternal) : t.Counted := by
  have htotal : ∀ weight, t.total weight = (s.setClient i c).total weight := by
    intro weight
    rw [total, hclients]
    rfl
  refine ⟨?_, ?_, ?_⟩
  · have hsum := s.total_setClient i c Client.external
    have hold := h.external
    rw [htotal]
    omega
  · have hsum := s.total_setClient i c Client.internalRefs
    have hold := h.internal
    rw [htotal]
    omega
  · intro j
    rw [hclients]
    by_cases hj : j = i
    · subst hj
      rw [update_self]
      exact hvalid
    · rw [update_of_ne hj]
      exact (h.valid j).mono hzero rfl (Nat.le_refl _) (Nat.le_refl _)

theorem Client.internalRefs_of_idle (h : c.pc = .idle) : c.internalRefs = c.internal := by
  rw [internalRefs, h]
  rfl

/-- The checks of the loop change neither the counts nor what the client holds. -/
theorem Object.Counted.enter (h : s.Counted) (hrun : (s.clients i).MayRun s.refCountExternal member)
    (hrefs : (s.clients i).internalRefs = (s.clients i).internal +
      if member = .releaseInternal true then 1 else 0) : (s.enter i member).Counted := by
  unfold Object.enter
  dsimp only
  split
  · next result hnext =>
    have hshared : member ≠ .releaseInternal true := by
      rintro rfl
      cases hnext
    rw [if_neg hshared] at hrefs
    refine h.change rfl rfl ?_ id trivial
    rw [hrefs]
    rfl
  · next next hnext =>
    refine h.change rfl rfl ?_ id ⟨hrun, hnext⟩
    rw [hrefs]
    congr 2
    cases member with
    | releaseInternal shared => cases shared <;> rfl
    | _ => rfl

theorem Client.internalRefs_of_exchange {last next : UInt32}
    (h : c.pc = .exchange member last next) :
    c.internalRefs = c.internal + if member = .releaseInternal true then 1 else 0 := by
  rw [internalRefs, h]
  cases member with
  | releaseInternal shared => cases shared <;> rfl
  | _ => rfl

theorem Client.internalRefs_of_load (h : c.pc = .load member) :
    c.internalRefs = c.internal + if member = .releaseInternal true then 1 else 0 := by
  rw [internalRefs, h]
  cases member with
  | releaseInternal shared => cases shared <;> rfl
  | _ => rfl

omit [DecidableEq ι] in
/-- Whoever holds a reference keeps the internal count from 0. -/
theorem Object.Counted.internal_ne_zero (h : s.Counted)
    (hheld : 0 < (s.clients i).external + (s.clients i).internalRefs) : s.refCountInternal ≠ 0 := by
  have hexternal := h.external
  have hinternal := h.internal
  have hle := s.le_total i Client.external
  have hle' := s.le_total i Client.internalRefs
  rw [Ne, eq_zero_iff]
  split at hinternal
  · next hzero =>
    rw [eq_zero_iff] at hzero
    omega
  · omega

omit [DecidableEq ι] in
theorem Object.Counted.held (h : s.Counted) (i : ι) (hidle : (s.clients i).pc ≠ .idle)
    (hdelete : (s.clients i).pc ≠ .delete) :
    0 < (s.clients i).external + (s.clients i).internalRefs := by
  have hrun : ∀ member, (s.clients i).MayRun s.refCountExternal member →
      (s.clients i).internalRefs = (s.clients i).internal +
        (if member = .releaseInternal true then 1 else 0) →
      0 < (s.clients i).external + (s.clients i).internalRefs := by
    intro member hrun hrefs
    rw [hrefs]
    cases member with
    | releaseExternal =>
      rcases hrun with hpos | ⟨hpos, -⟩
      · omega
      · omega
    | releaseInternal shared =>
      cases shared with
      | true => exact Nat.succ_pos _
      | false =>
        have hpos := hrun rfl
        omega
    | _ =>
      simp only [Client.MayRun] at hrun
      omega
  have hvalid := h.valid i
  cases hpc : (s.clients i).pc with
  | idle => exact absurd hpc hidle
  | delete => exact absurd hpc hdelete
  | load member =>
    rw [Client.Valid, hpc] at hvalid
    exact hrun member hvalid (Client.internalRefs_of_load hpc)
  | exchange member =>
    rw [Client.Valid, hpc] at hvalid
    exact hrun member hvalid.1 (Client.internalRefs_of_exchange hpc)

theorem Object.Counted.exchange {last next : UInt32} (h : s.Counted)
    (hpc : (s.clients i).pc = .exchange member last next) (hlast : s.count member.counter = last) :
    ((s.setCount next member.counter).setClient i (leave (s.clients i) next member)).Counted := by
  have hvalid := h.valid i
  rw [Client.Valid, hpc] at hvalid
  obtain ⟨hrun, hnext⟩ := hvalid
  have hrefs := Client.internalRefs_of_exchange hpc
  cases member with
  | retainExternal =>
    obtain rfl : s.refCountExternal = last := hlast
    obtain ⟨hpos, hcount⟩ := retainExternal_next hnext
    have hpos' : next ≠ 0 := by
      rw [Ne, eq_zero_iff]
      omega
    refine h.change rfl ?_ ?_ (fun hzero => absurd hzero hpos) trivial
    · change next.toNat + _ = _ + ((s.clients i).external + 1)
      omega
    · change _ + _ + _ = _ + (s.clients i).internal + if next = 0 then 0 else 1
      rw [hrefs, if_neg hpos, if_neg hpos']
      rfl
  | releaseExternal =>
    obtain rfl : s.refCountExternal = last := hlast
    obtain ⟨hpos, hcount⟩ := releaseExternal_next hnext
    have hheld : 0 < (s.clients i).external := hrun.resolve_right fun hnone => hpos hnone.2
    by_cases hlast : next = 0
    · have hleave : leave (s.clients i) next .releaseExternal = { s.clients i with
          external := (s.clients i).external - 1, pc := .load (.releaseInternal true) } := if_pos hlast
      rw [hleave]
      refine h.change rfl ?_ ?_ (fun hzero => absurd hzero hpos) nofun
      · change next.toNat + _ = _ + ((s.clients i).external - 1)
        omega
      · change _ + _ + _ = _ + ((s.clients i).internal + 1) + if next = 0 then 0 else 1
        rw [hrefs, if_neg hpos, if_pos hlast]
        rfl
    · have hleave : leave (s.clients i) next .releaseExternal = { s.clients i with
          external := (s.clients i).external - 1, pc := .idle, result := some .success } :=
        if_neg hlast
      rw [hleave]
      refine h.change rfl ?_ ?_ (fun hzero => absurd hzero hpos) trivial
      · change next.toNat + _ = _ + ((s.clients i).external - 1)
        omega
      · change _ + _ + _ = _ + (s.clients i).internal + if next = 0 then 0 else 1
        rw [hrefs, if_neg hpos, if_neg hlast]
        rfl
  | retainInternal =>
    obtain rfl : s.refCountInternal = last := hlast
    have hcount := retainInternal_next hnext
    refine h.change rfl rfl ?_ id trivial
    change next.toNat + _ + (if s.refCountExternal = 0 then 0 else 1) =
      _ + ((s.clients i).internal + 1) + if s.refCountExternal = 0 then 0 else 1
    rw [hrefs, if_neg nofun]
    omega
  | releaseInternal shared =>
    obtain rfl : s.refCountInternal = last := hlast
    cases hnext
    have hheld : (s.clients i).internalRefs = 1 + if shared then (s.clients i).internal
        else (s.clients i).internal - 1 := by
      rw [hrefs]
      cases shared with
      | true => exact Nat.add_comm ..
      | false =>
        have hpos := hrun rfl
        simp only [Member.releaseInternal.injEq, Bool.false_eq_true, if_false]
        omega
    have hpos : s.refCountInternal ≠ 0 := h.internal_ne_zero (i := i) (by omega)
    have hcount := release_toNat hpos
    have hkept : (leave (s.clients i) (s.refCountInternal - 1) (.releaseInternal shared)).internalRefs =
        (if shared then (s.clients i).internal else (s.clients i).internal - 1) := by
      rw [leave]
      split <;> rfl
    refine h.change rfl ?_ ?_ id ?_
    · rw [leave]
      split <;> rfl
    · change (s.refCountInternal - 1).toNat + _ + (if s.refCountExternal = 0 then 0 else 1) =
        _ + _ + if s.refCountExternal = 0 then 0 else 1
      omega
    · rw [leave]
      split <;> trivial

theorem Client.internalRefs_gain (c : Client) :
    (c.gain .internal).internalRefs = c.internalRefs + 1 :=
  Nat.add_right_comm ..

/-- A reference is handed on: what one client loses another one has. -/
theorem Object.Counted.hand {d : Client} (h : s.Counted) (hidle : c.pc = .idle)
    (hpc : d.pc = ((s.setClient i c).clients j).pc)
    (hexternal : c.external + d.external =
      (s.clients i).external + ((s.setClient i c).clients j).external)
    (hinternal : c.internalRefs + d.internalRefs =
      (s.clients i).internalRefs + ((s.setClient i c).clients j).internalRefs)
    (hle : ((s.setClient i c).clients j).external ≤ d.external)
    (hle' : ((s.setClient i c).clients j).internal ≤ d.internal) :
    ((s.setClient i c).setClient j d).Counted := by
  have hvalid : ∀ k, ((s.setClient i c).clients k).Valid s.refCountExternal := by
    intro k
    by_cases hk : k = i
    · subst hk
      rw [setClient_self, Client.Valid, hidle]
      trivial
    · rw [setClient_of_ne _ _ hk]
      exact h.valid k
  refine ⟨?_, ?_, ?_⟩
  · have htake := s.total_setClient i c Client.external
    have hgive := (s.setClient i c).total_setClient j d Client.external
    have hold := h.external
    change s.refCountExternal.toNat = _
    omega
  · have htake := s.total_setClient i c Client.internalRefs
    have hgive := (s.setClient i c).total_setClient j d Client.internalRefs
    have hold := h.internal
    change s.refCountInternal.toNat = _ + if s.refCountExternal = 0 then 0 else 1
    omega
  · intro k
    by_cases hk : k = j
    · subst hk
      rw [setClient_self]
      exact (hvalid k).mono id hpc hle hle'
    · rw [setClient_of_ne _ _ hk]
      exact hvalid k

theorem Object.Counted.give (h : s.Counted) (j : ι) {type : RefCountType}
    (hallowed : s.Allowed (.give i j type)) : (s.give i j type).Counted := by
  cases type with
  | external =>
    obtain ⟨hidle, hheld⟩ := hallowed
    refine h.hand hidle rfl ?_ rfl (Nat.le_succ _) (Nat.le_refl _)
    change _ - 1 + (_ + 1) = _
    omega
  | internal =>
    obtain ⟨hidle, hheld⟩ := hallowed
    refine h.hand hidle rfl rfl ?_ (Nat.le_refl _) (Nat.le_succ _)
    have hlose : ((s.clients i).lose .internal).internalRefs = (s.clients i).internal - 1 :=
      Client.internalRefs_of_idle hidle
    rw [Client.internalRefs_of_idle hidle, Client.internalRefs_gain]
    omega

theorem Object.Counted.step (h : s.Counted) (hallowed : s.Allowed a) (ht : s.step a = some t) :
    t.Counted := by
  cases a with
  | call =>
    rw [Object.step] at ht
    split at ht
    · next hidle =>
      cases ht
      refine h.change rfl rfl ?_ id hallowed.2
      rw [Client.internalRefs_of_idle hidle, Client.internalRefs_of_load rfl, if_neg hallowed.1]
      rfl
    · cases ht
  | load i =>
    rw [Object.step] at ht
    split at ht
    · next member hpc =>
      cases ht
      have hvalid := h.valid i
      rw [Client.Valid, hpc] at hvalid
      exact h.enter hvalid (Client.internalRefs_of_load hpc)
    · cases ht
  | exchange i =>
    rw [Object.step] at ht
    split at ht
    · next member last next hpc =>
      split at ht
      · next hlast =>
        cases ht
        exact h.exchange hpc hlast.1
      · cases ht
        have hvalid := h.valid i
        rw [Client.Valid, hpc] at hvalid
        exact h.enter hvalid.1 (Client.internalRefs_of_exchange hpc)
    · cases ht
  | delete i =>
    rw [Object.step] at ht
    split at ht
    · next hpc =>
      cases ht
      have hrefs : (s.clients i).internalRefs = (s.clients i).internal := by
        rw [Client.internalRefs, hpc]
        rfl
      refine h.change rfl rfl ?_ id trivial
      rw [hrefs]
      rfl
    · cases ht
  | give i j =>
    cases ht
    exact h.give j hallowed

/-! ### Destruction -/

/-- The client that makes a step. -/
def Action.client : Action ι → ι
  | .call i _ => i
  | .load i => i
  | .exchange i _ => i
  | .delete i => i
  | .give i _ _ => i

/-- What a step does to the object's life. -/
inductive Object.Effect (s : Object ι) (i : ι) (t : Object ι) : Prop where
  | kept (hzero : t.refCountInternal = 0 ↔ s.refCountInternal = 0) (hdeleted : t.deletedBy = s.deletedBy)
      (hpc : ∀ j, (t.clients j).pc = .delete ↔ (s.clients j).pc = .delete)
  | zeroed (hpos : s.refCountInternal ≠ 0) (hzero : t.refCountInternal = 0)
      (hdeleted : t.deletedBy = s.deletedBy) (hself : (t.clients i).pc = .delete)
      (hothers : ∀ j, j ≠ i → (t.clients j).pc = (s.clients j).pc)
  | deleted (hpc : (s.clients i).pc = .delete) (hcount : t.refCountInternal = s.refCountInternal)
      (hdeleted : t.deletedBy = s.deletedBy ++ [i]) (hself : (t.clients i).pc = .idle)
      (hothers : ∀ j, j ≠ i → (t.clients j).pc = (s.clients j).pc)

omit [Fintype ι] in
theorem Object.Effect.of_client (hclients : t.clients = update s.clients i c)
    (hold : (s.clients i).pc ≠ .delete) (hnew : c.pc ≠ .delete)
    (hzero : t.refCountInternal = 0 ↔ s.refCountInternal = 0) (hdeleted : t.deletedBy = s.deletedBy) :
    s.Effect i t := by
  refine .kept hzero hdeleted fun j => ?_
  rw [hclients]
  by_cases hj : j = i
  · subst hj
    rw [update_self]
    exact iff_of_false hnew hold
  · rw [update_of_ne hj]

omit [Fintype ι] in
theorem Object.enter_effect (s : Object ι) (i : ι) (member : Member)
    (hold : (s.clients i).pc ≠ .delete) : s.Effect i (s.enter i member) := by
  unfold Object.enter
  dsimp only
  split <;> exact .of_client rfl hold nofun Iff.rfl rfl

theorem Object.exchange_effect {last next : UInt32} (h : s.Counted)
    (hpc : (s.clients i).pc = .exchange member last next) (hlast : s.count member.counter = last) :
    s.Effect i ((s.setCount next member.counter).setClient i (leave (s.clients i) next member)) := by
  have hold : (s.clients i).pc ≠ .delete := by
    rw [hpc]
    exact nofun
  have hpos : s.refCountInternal ≠ 0 := h.internal_ne_zero (h.held i (by rw [hpc]; exact nofun) hold)
  have hvalid := h.valid i
  rw [Client.Valid, hpc] at hvalid
  obtain ⟨-, hnext⟩ := hvalid
  cases member with
  | retainExternal => exact .of_client rfl hold nofun Iff.rfl rfl
  | releaseExternal =>
    refine .of_client rfl hold ?_ Iff.rfl rfl
    rw [leave]
    split <;> exact nofun
  | retainInternal =>
    have hcount := retainInternal_next hnext
    refine .of_client rfl hold nofun (iff_of_false ?_ hpos) rfl
    change next ≠ 0
    rw [Ne, eq_zero_iff]
    omega
  | releaseInternal =>
    obtain rfl : s.refCountInternal = last := hlast
    cases hnext
    by_cases hzero : s.refCountInternal - 1 = 0
    · refine .zeroed hpos hzero rfl ?_ ?_
      · rw [setClient_self, leave, if_pos hzero]
      · intro j hj
        rw [setClient_of_ne _ _ hj]
        rfl
    · refine .of_client rfl hold ?_ (iff_of_false hzero hpos) rfl
      rw [leave, if_neg hzero]
      exact nofun

omit [Fintype ι] in
theorem Object.pc_give (s : Object ι) (i j : ι) (type : RefCountType) (k : ι) :
    ((s.give i j type).clients k).pc = (s.clients k).pc := by
  have hlose : ∀ k, ((s.setClient i ((s.clients i).lose type)).clients k).pc = (s.clients k).pc := by
    intro k
    by_cases hk : k = i
    · subst hk
      rw [setClient_self]
      cases type <;> rfl
    · rw [setClient_of_ne _ _ hk]
  refine Eq.trans ?_ (hlose k)
  by_cases hk : k = j
  · subst hk
    rw [give, setClient_self]
    cases type <;> rfl
  · rw [give, setClient_of_ne _ _ hk]

theorem Object.step_effect (h : s.Counted) (hallowed : s.Allowed a) (ht : s.step a = some t) :
    s.Effect a.client t := by
  cases a with
  | call i =>
    rw [Object.step] at ht
    split at ht
    · next hidle =>
      cases ht
      have hold : (s.clients i).pc ≠ .delete := by
        rw [hidle]
        exact nofun
      exact .of_client rfl hold nofun Iff.rfl rfl
    · cases ht
  | load i =>
    rw [Object.step] at ht
    split at ht
    · next member hpc =>
      cases ht
      exact s.enter_effect i member (by rw [hpc]; exact nofun)
    · cases ht
  | exchange i =>
    rw [Object.step] at ht
    split at ht
    · next member last next hpc =>
      split at ht
      · next hlast =>
        cases ht
        exact exchange_effect h hpc hlast.1
      · cases ht
        exact s.enter_effect i member (by rw [hpc]; exact nofun)
    · cases ht
  | delete i =>
    rw [Object.step] at ht
    split at ht
    · next hpc =>
      cases ht
      refine .deleted hpc rfl rfl ?_ fun j hj => ?_
      · exact congrArg Client.pc (s.setClient_self i _)
      · exact congrArg Client.pc (s.setClient_of_ne _ hj)
    · cases ht
  | give i j type =>
    cases ht
    refine .kept (by cases type <;> exact Iff.rfl) (by cases type <;> rfl) fun k => ?_
    rw [s.pc_give]

/-- An object, and the clients whose calls took its internal count to 0. -/
structure History (ι : Type) where
  object : Object ι
  zeroedBy : List ι

def History.step (h : History ι) (a : Action ι) : Option (History ι) := do
  let t ← h.object.step a
  let zeroed := h.object.refCountInternal ≠ 0 ∧ t.refCountInternal = 0
  return ⟨t, if zeroed then h.zeroedBy ++ [a.client] else h.zeroedBy⟩

/-- An object without internal references is destroyed, or about to be, by the client that released
the last one; an object with internal references is not. -/
structure History.Destroyed (h : History ι) : Prop where
  zero : h.object.refCountInternal = 0 → ∃ i, h.zeroedBy = [i] ∧
    ((h.object.deletedBy = [] ∧ (h.object.clients i).pc = .delete) ∨
      (h.object.deletedBy = [i] ∧ (h.object.clients i).pc ≠ .delete))
  positive : h.object.refCountInternal ≠ 0 → h.zeroedBy = [] ∧ h.object.deletedBy = []
  delete : ∀ i, (h.object.clients i).pc = .delete →
    h.object.refCountInternal = 0 ∧ h.zeroedBy = [i] ∧ h.object.deletedBy = []

variable {h h' : History ι}

theorem History.Destroyed.step (hcounted : h.object.Counted) (hdestroyed : h.Destroyed)
    (hallowed : h.object.Allowed a) (hstep : h.step a = some h') : h'.Destroyed := by
  obtain ⟨t, ht, hstep⟩ := Option.bind_eq_some_iff.1 hstep
  cases hstep
  rcases Object.step_effect hcounted hallowed ht with
    ⟨hzero, hdeleted, hpc⟩ | ⟨hpos, hzero, hdeleted, hself, hothers⟩ |
    ⟨hpc, hcount, hdeleted, hself, hothers⟩
  · have hsame : ¬ (h.object.refCountInternal ≠ 0 ∧ t.refCountInternal = 0) :=
      fun hchange => hchange.1 (hzero.1 hchange.2)
    rw [if_neg hsame]
    refine ⟨fun hcount => ?_, fun hcount => ?_, fun i hi => ?_⟩
    · obtain ⟨i, hi, hcases⟩ := hdestroyed.zero (hzero.1 hcount)
      refine ⟨i, hi, ?_⟩
      rwa [hdeleted, Ne, hpc]
    · rw [hdeleted]
      exact hdestroyed.positive fun hcount' => hcount (hzero.2 hcount')
    · obtain ⟨hcount, hi', hnone⟩ := hdestroyed.delete i ((hpc i).1 hi)
      exact ⟨hzero.2 hcount, hi', hdeleted.trans hnone⟩
  · obtain ⟨hnone, hnone'⟩ := hdestroyed.positive hpos
    rw [if_pos ⟨hpos, hzero⟩, hnone]
    refine ⟨fun _ => ⟨_, rfl, .inl ⟨hdeleted.trans hnone', hself⟩⟩, fun hne => absurd hzero hne, ?_⟩
    intro i hi
    by_cases hi' : i = a.client
    · subst hi'
      exact ⟨hzero, rfl, hdeleted.trans hnone'⟩
    · exact absurd (hdestroyed.delete i ((hothers i hi').symm.trans hi)).1 hpos
  · obtain ⟨hzero, hby, hnone⟩ := hdestroyed.delete _ hpc
    have hsame : ¬ (h.object.refCountInternal ≠ 0 ∧ t.refCountInternal = 0) :=
      fun hchange => hchange.1 hzero
    rw [if_neg hsame]
    refine ⟨fun _ => ⟨a.client, hby, .inr ⟨?_, ?_⟩⟩, fun hne => absurd (hcount.trans hzero) hne, ?_⟩
    · rw [hdeleted, hnone, List.nil_append]
    · rw [hself]
      exact nofun
    · intro i hi
      by_cases hi' : i = a.client
      · subst hi'
        cases hself.symm.trans hi
      · have hby' := (hdestroyed.delete i ((hothers i hi').symm.trans hi)).2.1
        exact absurd (List.singleton_inj.1 (hby'.symm.trans hby)) hi'

/-! ### Calls without external references -/

/-- A client is in `retainExternal` or in the loop of `releaseExternal`. -/
def Client.InExternalCall (c : Client) : Prop :=
  ∃ member : Member, member.counter = .external ∧
    (c.pc = .load member ∨ ∃ last next, c.pc = .exchange member last next)

omit [Fintype ι] in
theorem Object.enter_external (hmember : member.counter = .external) (hzero : s.refCountExternal = 0) :
    s.enter i member =
      s.setClient i { s.clients i with pc := .idle, result := some .invalidObject } := by
  have hnext : member.next (s.count member.counter) = .error .invalidObject := by
    rw [hmember, count, hzero]
    cases member with
    | retainExternal | releaseExternal => rfl
    | retainInternal | releaseInternal => cases hmember
  rw [enter, hnext]

theorem Object.step_invalid (h : s.Counted) (hcall : (s.clients a.client).InExternalCall)
    (hzero : s.refCountExternal = 0) (hallowed : s.Allowed a) (ht : s.step a = some t) :
    t = s.setClient a.client
      { s.clients a.client with pc := .idle, result := some .invalidObject } := by
  obtain ⟨member, hmember, hpc⟩ := hcall
  cases a with
  | call | delete =>
    rw [Object.step] at ht
    split at ht
    · next hother =>
      rcases hpc with hpc | ⟨last, next, hpc⟩ <;> cases hother.symm.trans hpc
    · cases ht
  | load =>
    rw [Object.step] at ht
    split at ht
    · next m hload =>
      cases ht
      rcases hpc with hpc | ⟨last, next, hpc⟩
      · cases hload.symm.trans hpc
        exact enter_external hmember hzero
      · cases hload.symm.trans hpc
    · cases ht
  | exchange i spurious =>
    rw [Object.step] at ht
    split at ht
    · next m last next hexchange =>
      rcases hpc with hpc | ⟨last', next', hpc⟩
      · cases hexchange.symm.trans hpc
      · cases hexchange.symm.trans hpc
        -- the loop would have returned at a count of 0
        have hpos : last ≠ 0 := by
          have hvalid := h.valid i
          rw [Client.Valid, hexchange] at hvalid
          cases member with
          | retainExternal => exact (retainExternal_next hvalid.2).1
          | releaseExternal => exact (releaseExternal_next hvalid.2).1
          | retainInternal | releaseInternal => cases hmember
        have hcount : ¬ (s.count member.counter = last ∧ spurious = false) := by
          rw [hmember, count, hzero]
          exact fun hlast => hpos hlast.1.symm
        rw [if_neg hcount] at ht
        cases ht
        exact enter_external hmember hzero
    · cases ht
  | give i j type =>
    have hidle : (s.clients i).pc = .idle := by
      cases type <;> exact hallowed.1
    rcases hpc with hpc | ⟨last, next, hpc⟩ <;> cases hidle.symm.trans hpc

/-! ### Every interleaving -/

/-- The counts are the numbers of references, so that they do not wrap around; the object is destroyed
once, by the call that takes the internal count to 0, when there is no external reference and nobody
uses it; and calls on external references fail where there is none. -/
structure History.Sound (h : History ι) : Prop where
  external_eq : h.object.refCountExternal.toNat = ∑ i, (h.object.clients i).external
  internal_eq : h.object.refCountInternal.toNat =
    ∑ i, (h.object.clients i).internalRefs + if h.object.refCountExternal = 0 then 0 else 1
  destroyed : h.Destroyed
  unreferenced : h.object.refCountInternal = 0 → h.object.refCountExternal = 0 ∧
    ∀ i, (h.object.clients i).pc = .idle ∨ (h.object.clients i).pc = .delete
  invalid : ∀ a t, (h.object.clients a.client).InExternalCall → h.object.refCountExternal = 0 →
    h.object.Allowed a → h.object.step a = some t →
      t = h.object.setClient a.client
        { h.object.clients a.client with pc := .idle, result := some .invalidObject }

theorem create_counted (type : RefCountType) (owner : ι) : (Object.create type owner).Counted := by
  have hself : (Object.create type owner).clients owner = .gain ⟨0, 0, .idle, none⟩ type := if_pos rfl
  have hothers : ∀ i, i ≠ owner → (Object.create type owner).clients i = ⟨0, 0, .idle, none⟩ :=
    fun i hi => if_neg hi
  have htotal : ∀ weight : Client → Nat, weight ⟨0, 0, .idle, none⟩ = 0 →
      (Object.create type owner).total weight = weight (.gain ⟨0, 0, .idle, none⟩ type) := by
    intro weight hweight
    rw [← hself]
    refine sum_eq_single owner (fun i _ hi => ?_) fun h => absurd (mem_univ owner) h
    rw [hothers i hi]
    exact hweight
  refine ⟨?_, ?_, ?_⟩
  iterate 2
    · rw [htotal _ rfl]
      cases type <;> rfl
  · intro i
    by_cases hi : i = owner
    · rw [hi, hself]
      cases type <;> trivial
    · rw [hothers i hi]
      trivial

theorem refCounts_sound (type : RefCountType) (owner : ι)
    (hruns : Runs History.step (fun h : History ι => h.object.Allowed)
      ⟨Object.create type owner, []⟩ h) : h.Sound := by
  obtain ⟨hcounted, hdestroyed⟩ : h.object.Counted ∧ h.Destroyed := by
    apply hruns.invariant
    · intro h h' a hallowed hstep hinv
      refine ⟨?_, hinv.2.step hinv.1 hallowed hstep⟩
      obtain ⟨t, ht, hstep⟩ := Option.bind_eq_some_iff.1 hstep
      cases hstep
      exact hinv.1.step hallowed ht
    · refine ⟨create_counted type owner, ?_, ?_, ?_⟩
      · intro hzero
        cases type <;> cases hzero
      · exact fun _ => ⟨rfl, rfl⟩
      · intro i hi
        have hidle : ((Object.create type owner).clients i).pc = .idle := by
          by_cases hself : i = owner
          · rw [show (Object.create type owner).clients i = .gain ⟨0, 0, .idle, none⟩ type from
              if_pos hself]
            cases type <;> rfl
          · exact congrArg Client.pc (if_neg hself)
        cases hidle.symm.trans hi
  refine ⟨hcounted.external, hcounted.internal, hdestroyed, fun hzero => ⟨?_, fun i => ?_⟩, ?_⟩
  · have hinternal := hcounted.internal
    rw [eq_zero_iff.1 hzero] at hinternal
    by_contra hpos
    rw [if_neg hpos] at hinternal
    omega
  · by_contra hbusy
    obtain ⟨hidle, hdelete⟩ := not_or.1 hbusy
    exact hcounted.internal_ne_zero (hcounted.held i hidle hdelete) hzero
  · exact fun a t hcall hzero hallowed ht => Object.step_invalid hcounted hcall hzero hallowed ht

/-- Two clients: the last external reference is released while the other client releases an internal
one, so that an exchange fails once. -/
theorem refCounts_sound_race :
    let h := (follow History.step (fun h : History (Fin 2) => h.object.Allowed)
      ⟨Object.create .external 0, []⟩ [.call 0 .retainInternal, .load 0, .exchange 0 false,
        .give 0 1 .internal, .call 0 .releaseExternal, .call 1 (.releaseInternal false), .load 0,
        .load 1, .exchange 0 false, .load 0, .exchange 1 false, .exchange 0 false, .exchange 0 false,
        .delete 0]).getD ⟨Object.create .external 0, []⟩
    h.Sound ∧ h.object.deletedBy = [0] :=
  ⟨refCounts_sound .external 0 (Runs.follow_getD _ _ _ _ _ (by decide)), by decide⟩

end ConstructionKit.Cl
