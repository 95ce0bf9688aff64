import Mathlib.Data.List.Forall2

/-! Computations that may fail, and maps over lists with them. -/

namespace ConstructionKit.ProofKit

open List

variable {ε α β : Type} {f : α → Except ε β} {R : α → β → Prop} {l as : List α} {l' bs : List β}
  {b : β}

theorem bind_eq_ok {x : Except ε α} (h : x >>= f = .ok b) : ∃ a, x = .ok a ∧ f a = .ok b := by
  cases x with
  | error => exact absurd h (by rintro ⟨⟩)
  | ok a => exact ⟨a, rfl, h⟩

theorem mapM_ok (h : List.Forall₂ (fun a b => f a = .ok b) l l') : l.mapM f = .ok l' := by
  induction h with
  | nil => rfl
  | cons hhead _ ih => rw [mapM_cons, hhead, ih]; rfl

theorem exists_forall₂ (h : ∀ a ∈ l, ∃ b, R a b) : ∃ l', List.Forall₂ R l l' := by
  induction l with
  | nil => exact ⟨[], .nil⟩
  | cons a l ih =>
    rw [forall_mem_cons] at h
    obtain ⟨b, hb⟩ := h.1
    obtain ⟨l', hl'⟩ := ih h.2
    exact ⟨b :: l', .cons hb hl'⟩

theorem forall₂_comp {γ : Type} {S : β → γ → Prop}
    {cs : List γ} (h : List.Forall₂ R as bs) (h' : List.Forall₂ S bs cs) :
    List.Forall₂ (fun a c => ∃ b, R a b ∧ S b c) as cs := by
  induction h generalizing cs with
  | nil =>
    cases h'
    exact .nil
  | cons hab _ ih =>
    cases h' with
    | cons hbc h' => exact .cons ⟨_, hab, hbc⟩ (ih h')

theorem exists_of_mem_forall₂
    (h : List.Forall₂ R as bs) {a : α} (ha : a ∈ as) : ∃ b ∈ bs, R a b := by
  induction h with
  | nil => exact absurd ha not_mem_nil
  | cons hab _ ih =>
    rcases mem_cons.1 ha with rfl | ha
    · exact ⟨_, mem_cons_self, hab⟩
    · obtain ⟨b, hb, hab⟩ := ih ha
      exact ⟨b, mem_cons_of_mem _ hb, hab⟩

theorem exists_of_mem_mapM (h : l.mapM f = .ok l') (hb : b ∈ l') : ∃ a ∈ l, f a = .ok b := by
  induction l generalizing l' with
  | nil =>
    obtain rfl : [] = l' := Except.ok.inj h
    exact absurd hb not_mem_nil
  | cons a l ih =>
    rw [mapM_cons] at h
    obtain ⟨b', hb', h⟩ := bind_eq_ok h
    obtain ⟨bs, hbs, h⟩ := bind_eq_ok h
    obtain rfl : b' :: bs = l' := Except.ok.inj h
    obtain rfl | hb := mem_cons.1 hb
    · exact ⟨a, mem_cons_self, hb'⟩
    · obtain ⟨a', ha', hfa⟩ := ih hbs hb
      exact ⟨a', mem_cons_of_mem a ha', hfa⟩

end ConstructionKit.ProofKit
