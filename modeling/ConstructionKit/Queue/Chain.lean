import ConstructionKit.Queue.CommandQueue

/-! The dispatches of one queue as a chain: each one that has work left waits, directly or through
others, on every earlier one that has.  Earlier means created earlier, that is, with a smaller
name. -/

namespace ConstructionKit.Queue

open List

variable {κ : Type} {signalled : List Nat} {ds ds' : List (Dispatch κ)}

/-- The order of enqueuing. -/
def Event.rank : Event κ → Nat
  | user _ => 0
  | command _ id => id

structure Chained (signalled : List Nat) (ds : List (Dispatch κ)) : Prop where
  names : (ds.map (·.signalSemaphore)).Nodup
  unsignalled : ∀ d ∈ ds, d.commands ≠ [] → d.signalSemaphore ∉ signalled
  begun : ∀ d ∈ ds, d.busy = true → ∀ w ∈ d.waitSemaphores, w ∈ signalled
  covers : ∀ d ∈ ds, d.commands ≠ [] → ∀ d' ∈ ds, d'.commands ≠ [] →
    d'.signalSemaphore < d.signalSemaphore → ∃ d'' ∈ ds, d''.commands ≠ [] ∧
      d''.signalSemaphore ∈ d.waitSemaphores ∧ d'.signalSemaphore ≤ d''.signalSemaphore
  sorted : ∀ d ∈ ds, d.commands.Pairwise (·.rank < ·.rank)
  ordered : ∀ d ∈ ds, ∀ d' ∈ ds, d.signalSemaphore < d'.signalSemaphore →
    ∀ c ∈ d.commands, ∀ c' ∈ d'.commands, c.rank < c'.rank

namespace Chained

theorem nil : Chained signalled ([] : List (Dispatch κ)) := by
  constructor <;> simp

variable {d d' : Dispatch κ} {rest : List (Event κ)}

theorem eq_of_name (h : Chained signalled ds) (hd : d ∈ ds) (hd' : d' ∈ ds)
    (heq : d.signalSemaphore = d'.signalSemaphore) : d = d' :=
  inj_on_of_nodup_map h.names hd hd' heq

/-- When its wait semaphores are signalled, a dispatch is the first one with work left. -/
theorem first_of_waits (h : Chained signalled ds) (hd : d ∈ ds)
    (hwork : d.commands ≠ []) (hwaits : ∀ w ∈ d.waitSemaphores, w ∈ signalled) (hd' : d' ∈ ds)
    (hwork' : d'.commands ≠ []) : d.signalSemaphore ≤ d'.signalSemaphore := by
  by_contra hlt
  obtain ⟨d'', hd'', hwork'', hmem, -⟩ := h.covers d hd hwork d' hd' hwork' (Nat.not_le.1 hlt)
  exact h.unsignalled d'' hd'' hwork'' (hwaits _ hmem)

/-- Among the dispatches, a command that can start has the least rank. -/
theorem rank_le_of_waits (h : Chained signalled ds) (hd : d ∈ ds)
    {c c' : Event κ} (hcommands : d.commands = c :: rest)
    (hwaits : ∀ w ∈ d.waitSemaphores, w ∈ signalled) (hd' : d' ∈ ds) (hc' : c' ∈ d'.commands) :
    c.rank ≤ c'.rank := by
  have hle := h.first_of_waits hd (by simp [hcommands]) hwaits hd' (ne_nil_of_mem hc')
  rcases Nat.lt_or_eq_of_le hle with hlt | heq
  · exact (h.ordered d hd d' hd' hlt c (by simp [hcommands]) c' hc').le
  · obtain rfl := h.eq_of_name hd hd' heq
    have hsorted := h.sorted d hd
    rw [hcommands] at hsorted hc'
    rcases mem_cons.1 hc' with rfl | hrest
    · exact le_rfl
    · exact ((pairwise_cons.1 hsorted).1 c' hrest).le

/-! ### Steps that do no work -/

/-- `d'` is `d` up to its events and to semaphores that are signalled, and busy only if it is or may
be. -/
structure Same (signalled : List Nat) (d d' : Dispatch κ) : Prop where
  name : d'.signalSemaphore = d.signalSemaphore
  commands : d'.commands = d.commands
  busy : d'.busy = true → d.busy = true ∨ ∀ w ∈ d.waitSemaphores, w ∈ signalled
  waits : d'.waitSemaphores ⊆ d.waitSemaphores
  kept : ∀ w ∈ d.waitSemaphores, w ∉ signalled → w ∈ d'.waitSemaphores

theorem Same.refl (signalled : List Nat) (d : Dispatch κ) : Same signalled d d :=
  ⟨rfl, rfl, .inl, List.Subset.refl _, fun _ h _ => h⟩

theorem of_same (h : Chained signalled ds) (hnames : (ds'.map (·.signalSemaphore)).Nodup)
    (hnew : ∀ d' ∈ ds', ∃ d ∈ ds, Same signalled d d')
    (hold : ∀ d ∈ ds, d.commands ≠ [] → ∃ d' ∈ ds', Same signalled d d') :
    Chained signalled ds' where
  names := hnames
  unsignalled d' hd' hwork := by
    obtain ⟨d, hd, hsame⟩ := hnew d' hd'
    rw [hsame.name]
    exact h.unsignalled d hd (hsame.commands ▸ hwork)
  begun d' hd' hbusy w hw := by
    obtain ⟨d, hd, hsame⟩ := hnew d' hd'
    rcases hsame.busy hbusy with hbusy' | hwaits
    · exact h.begun d hd hbusy' w (hsame.waits hw)
    · exact hwaits w (hsame.waits hw)
  covers d₁' hd₁' hwork₁ d₂' hd₂' hwork₂ hlt := by
    obtain ⟨d₁, hd₁, hsame₁⟩ := hnew d₁' hd₁'
    obtain ⟨d₂, hd₂, hsame₂⟩ := hnew d₂' hd₂'
    rw [hsame₁.name, hsame₂.name] at hlt
    obtain ⟨d, hd, hwork, hmem, hle⟩ := h.covers d₁ hd₁ (hsame₁.commands ▸ hwork₁) d₂ hd₂
      (hsame₂.commands ▸ hwork₂) hlt
    obtain ⟨d', hd', hsame⟩ := hold d hd hwork
    refine ⟨d', hd', hsame.commands ▸ hwork, ?_, ?_⟩
    · rw [hsame.name]
      exact hsame₁.kept _ hmem (h.unsignalled d hd hwork)
    · rw [hsame.name, hsame₂.name]
      exact hle
  sorted d' hd' := by
    obtain ⟨d, hd, hsame⟩ := hnew d' hd'
    exact hsame.commands ▸ h.sorted d hd
  ordered d₁' hd₁' d₂' hd₂' hlt := by
    obtain ⟨d₁, hd₁, hsame₁⟩ := hnew d₁' hd₁'
    obtain ⟨d₂, hd₂, hsame₂⟩ := hnew d₂' hd₂'
    rw [hsame₁.name, hsame₂.name] at hlt
    rw [hsame₁.commands, hsame₂.commands]
    exact h.ordered d₁ hd₁ d₂ hd₂ hlt

/-! ### Steps of the device -/

theorem signal (h : Chained signalled ds) {semaphore : Nat}
    (hother : ∀ d ∈ ds, d.signalSemaphore ≠ semaphore) :
    Chained (signalled ++ [semaphore]) ds where
  names := h.names
  unsignalled d hd hwork hmem := by
    rcases mem_append.1 hmem with hold | hnew
    · exact h.unsignalled d hd hwork hold
    · exact hother d hd (mem_singleton.1 hnew)
  begun d hd hbusy w hw := mem_append_left _ (h.begun d hd hbusy w hw)
  covers := h.covers
  sorted := h.sorted
  ordered := h.ordered

/-- The chain with one dispatch replaced by another one of the same name. -/
def replace (d : Dispatch κ) (ds : List (Dispatch κ)) : List (Dispatch κ) :=
  ds.map fun d' => if d'.signalSemaphore = d.signalSemaphore then d else d'

theorem names_replace (d : Dispatch κ) (ds : List (Dispatch κ)) :
    (replace d ds).map (·.signalSemaphore) = ds.map (·.signalSemaphore) := by
  rw [replace, map_map]
  refine map_congr_left fun d' _ => ?_
  rw [Function.comp_apply]
  split
  · exact Eq.symm ‹_›
  · rfl

theorem replace_append (d : Dispatch κ) : replace d (ds ++ ds') = replace d ds ++ replace d ds' :=
  map_append

theorem replace_of_ne (h : ∀ d' ∈ ds, d'.signalSemaphore ≠ d.signalSemaphore) :
    replace d ds = ds :=
  (map_congr_left fun d' hd' => if_neg (h d' hd')).trans (map_id _)

theorem mem_replace (hmem : ∃ d₀ ∈ ds, d₀.signalSemaphore = d.signalSemaphore) (d' : Dispatch κ) :
    d' ∈ replace d ds ↔ d' = d ∨ d' ∈ ds ∧ d'.signalSemaphore ≠ d.signalSemaphore := by
  rw [replace, mem_map]
  constructor
  · rintro ⟨d₁, hd₁, rfl⟩
    split
    · exact .inl rfl
    · exact .inr ⟨hd₁, ‹_›⟩
  · rintro (rfl | ⟨hd', hne⟩)
    · obtain ⟨d₀, hd₀, heq⟩ := hmem
      exact ⟨d₀, hd₀, if_pos heq⟩
    · exact ⟨d', hd', if_neg hne⟩

theorem finish (h : Chained signalled ds) (hd : d ∈ ds) (hbusy : d.busy = true)
    {c : Event κ} (hcommands : d.commands = c :: rest) :
    Chained (if rest = [] then signalled ++ [d.signalSemaphore] else signalled)
      (replace { d with commands := rest, busy := false } ds) := by
  have hmem := mem_replace (d := { d with commands := rest, busy := false }) ⟨d, hd, rfl⟩
  have hsubset : signalled ⊆ if rest = [] then signalled ++ [d.signalSemaphore] else signalled := by
    split
    · exact subset_append_left ..
    · exact List.Subset.refl _
  have hback : ∀ d' ∈ replace { d with commands := rest, busy := false } ds, ∃ d₀ ∈ ds,
      d'.signalSemaphore = d₀.signalSemaphore ∧ d'.commands.Sublist d₀.commands ∧
        d'.waitSemaphores = d₀.waitSemaphores ∧ (d'.busy = true → d₀.busy = true) := by
    intro d' hd'
    rcases (hmem d').1 hd' with rfl | ⟨hd', -⟩
    · exact ⟨d, hd, rfl, hcommands ▸ sublist_cons_self .., rfl, nofun⟩
    · exact ⟨d', hd', rfl, List.Sublist.refl _, rfl, id⟩
  have hwork {d' d₀ : Dispatch κ} (hsub : d'.commands.Sublist d₀.commands)
      (hne : d'.commands ≠ []) : d₀.commands ≠ [] := by
    intro hnil
    rw [hnil] at hsub
    exact hne (sublist_nil.1 hsub)
  -- a busy dispatch is the first one
  have hfirst {d' : Dispatch κ} (hd' : d' ∈ ds) (hne : d'.commands ≠ []) :
      d.signalSemaphore ≤ d'.signalSemaphore :=
    h.first_of_waits hd (by simp [hcommands]) (h.begun d hd hbusy) hd' hne
  refine ⟨by rw [names_replace]; exact h.names, ?_, ?_, ?_, ?_, ?_⟩
  · intro d' hd' hne
    rcases (hmem d').1 hd' with rfl | ⟨hd', hname⟩
    · rw [if_neg hne]
      exact h.unsignalled d hd (by simp [hcommands])
    · have hold := h.unsignalled d' hd' hne
      split
      · rw [mem_append, mem_singleton, not_or]
        exact ⟨hold, hname⟩
      · exact hold
  · intro d' hd' hbusy' w hw
    obtain ⟨d₀, hd₀, -, -, hwaits, hb⟩ := hback d' hd'
    exact hsubset (h.begun d₀ hd₀ (hb hbusy') w (hwaits ▸ hw))
  · intro d₁' hd₁' hne₁ d₂' hd₂' hne₂ hlt
    obtain ⟨d₁, hd₁, hname₁, hsub₁, hwaits₁, -⟩ := hback d₁' hd₁'
    obtain ⟨d₂, hd₂, hname₂, hsub₂, -, -⟩ := hback d₂' hd₂'
    rw [hname₁, hname₂] at hlt
    obtain ⟨d₀, hd₀, hne₀, hwait, hle⟩ :=
      h.covers d₁ hd₁ (hwork hsub₁ hne₁) d₂ hd₂ (hwork hsub₂ hne₂) hlt
    rw [hwaits₁, hname₂]
    by_cases heq : d₀.signalSemaphore = d.signalSemaphore
    · -- then `d₂` is `d`, which has work left
      have hd₂d : d₂.signalSemaphore = d.signalSemaphore :=
        le_antisymm (heq ▸ hle) (hfirst hd₂ (hwork hsub₂ hne₂))
      refine ⟨d₂', hd₂', hne₂, ?_, hname₂.ge⟩
      rw [hname₂, hd₂d, ← heq]
      exact hwait
    · exact ⟨d₀, (hmem d₀).2 (.inr ⟨hd₀, heq⟩), hne₀, hwait, hle⟩
  · intro d' hd'
    obtain ⟨d₀, hd₀, -, hsub, -⟩ := hback d' hd'
    exact (h.sorted d₀ hd₀).sublist hsub
  · intro d₁' hd₁' d₂' hd₂' hlt c₁ hc₁ c₂ hc₂
    obtain ⟨d₁, hd₁, hname₁, hsub₁, -⟩ := hback d₁' hd₁'
    obtain ⟨d₂, hd₂, hname₂, hsub₂, -⟩ := hback d₂' hd₂'
    rw [hname₁, hname₂] at hlt
    exact h.ordered d₁ hd₁ d₂ hd₂ hlt c₁ (hsub₁.subset hc₁) c₂ (hsub₂.subset hc₂)

/-! ### Enqueuing -/

theorem insert (h : Chained signalled ds)
    (hname : ∀ x ∈ ds, x.signalSemaphore ≠ d.signalSemaphore) (hcommands : d.commands = [])
    (hbusy : d.busy = false) (hperm : ds'.Perm (d :: ds)) : Chained signalled ds' := by
  have hmem {x : Dispatch κ} (hx : x ∈ ds') : x = d ∨ x ∈ ds :=
    mem_cons.1 (hperm.mem_iff.1 hx)
  have hold {x : Dispatch κ} (hx : x ∈ ds') (hne : x.commands ≠ []) : x ∈ ds :=
    (hmem hx).resolve_left fun heq => hne (heq ▸ hcommands)
  refine ⟨(hperm.map _).nodup_iff.2 (nodup_cons.2 ⟨?_, h.names⟩), ?_, ?_, ?_, ?_, ?_⟩
  · intro hmem
    obtain ⟨x, hx, heq⟩ := mem_map.1 hmem
    exact hname x hx heq
  · exact fun x hx hne => h.unsignalled x (hold hx hne) hne
  · intro x hx hb
    rcases hmem hx with rfl | hx
    · rw [hbusy] at hb
      cases hb
    · exact h.begun x hx hb
  · intro x hx hne y hy hne' hlt
    obtain ⟨z, hz, hz'⟩ := h.covers x (hold hx hne) hne y (hold hy hne') hne' hlt
    exact ⟨z, hperm.mem_iff.2 (mem_cons_of_mem _ hz), hz'⟩
  · intro x hx
    rcases hmem hx with rfl | hx
    · rw [hcommands]
      exact .nil
    · exact h.sorted x hx
  · intro x hx y hy hlt c hc c' hc'
    exact h.ordered x (hold hx (ne_nil_of_mem hc)) y (hold hy (ne_nil_of_mem hc')) hlt c
      hc c' hc'

theorem record (h : Chained signalled ds) {e : Event κ} (hd : d ∈ ds)
    (hsignalled : d.signalSemaphore ∉ signalled)
    (hlast : ∀ x ∈ ds, x.commands ≠ [] → x.signalSemaphore ≤ d.signalSemaphore)
    (hcovers : ∀ x ∈ ds, x.commands ≠ [] → x.signalSemaphore < d.signalSemaphore →
      ∃ y ∈ ds, y.commands ≠ [] ∧ y.signalSemaphore ∈ d.waitSemaphores ∧
        x.signalSemaphore ≤ y.signalSemaphore)
    (hrank : ∀ x ∈ ds, ∀ c ∈ x.commands, c.rank < e.rank) (waitEvents signalEvents : List (Event κ)) :
    Chained signalled (replace { d with
      waitEvents := waitEvents, signalEvents := signalEvents, commands := d.commands ++ [e] } ds) := by
  have hmem := mem_replace (d := { d with
    waitEvents := waitEvents, signalEvents := signalEvents, commands := d.commands ++ [e] })
    ⟨d, hd, rfl⟩
  refine ⟨by rw [names_replace]; exact h.names, ?_, ?_, ?_, ?_, ?_⟩
  · intro x hx hne
    rcases (hmem x).1 hx with rfl | ⟨hx, -⟩
    · exact hsignalled
    · exact h.unsignalled x hx hne
  · intro x hx hb
    rcases (hmem x).1 hx with rfl | ⟨hx, -⟩
    · exact h.begun d hd hb
    · exact h.begun x hx hb
  · intro x hx hne y hy hne' hlt
    -- the changed dispatch is the last one, so it is not `y`
    have hy' : y ∈ ds := by
      rcases (hmem y).1 hy with rfl | ⟨hy', -⟩
      · rcases (hmem x).1 hx with rfl | ⟨hx', -⟩
        · exact absurd hlt (Nat.lt_irrefl _)
        · exact absurd (hlast x hx' hne) (Nat.not_le.2 hlt)
      · exact hy'
    obtain ⟨z, hz, hnez, hwait, hle⟩ : ∃ z ∈ ds, z.commands ≠ [] ∧
        z.signalSemaphore ∈ x.waitSemaphores ∧ y.signalSemaphore ≤ z.signalSemaphore := by
      rcases (hmem x).1 hx with rfl | ⟨hx', -⟩
      · exact hcovers y hy' hne' hlt
      · exact h.covers x hx' hne y hy' hne' hlt
    by_cases heq : z.signalSemaphore = d.signalSemaphore
    · exact ⟨_, (hmem _).2 (.inl rfl), by simp, heq ▸ hwait, heq ▸ hle⟩
    · exact ⟨z, (hmem z).2 (.inr ⟨hz, heq⟩), hnez, hwait, hle⟩
  · intro x hx
    rcases (hmem x).1 hx with rfl | ⟨hx, -⟩
    · refine pairwise_append.2 ⟨h.sorted d hd, pairwise_singleton _ _, ?_⟩
      intro c hc c' hc'
      rw [mem_singleton.1 hc']
      exact hrank d hd c hc
    · exact h.sorted x hx
  · intro x hx y hy hlt c hc c' hc'
    rcases (hmem x).1 hx with rfl | ⟨hx', -⟩
    · rcases (hmem y).1 hy with rfl | ⟨hy', -⟩
      · exact absurd hlt (Nat.lt_irrefl _)
      · exact absurd (hlast y hy' (ne_nil_of_mem hc')) (Nat.not_le.2 hlt)
    · rcases (hmem y).1 hy with rfl | ⟨hy', -⟩
      · rcases mem_append.1 hc' with hold | hnew
        · exact h.ordered x hx' d hd hlt c hc c' hold
        · rw [mem_singleton.1 hnew]
          exact hrank x hx' c hc
      · exact h.ordered x hx' y hy' hlt c hc c' hc'

end Chained

end ConstructionKit.Queue
