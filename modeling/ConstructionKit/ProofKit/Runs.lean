import Mathlib.Logic.Relation

/-! Runs of a labelled transition function all of whose steps meet a condition on the state before
the step and its label. -/

namespace ConstructionKit.ProofKit

variable {σ ℓ : Type} {step : σ → ℓ → Option σ} {allowed : σ → ℓ → Prop} {s t u : σ}
  {labels : List ℓ}

def Runs (step : σ → ℓ → Option σ) (allowed : σ → ℓ → Prop) : σ → σ → Prop :=
  Relation.ReflTransGen fun s t => ∃ label, allowed s label ∧ step s label = some t

theorem Runs.refl : Runs step allowed s s := Relation.ReflTransGen.refl

theorem Runs.tail {label : ℓ} (h : Runs step allowed s t) (ha : allowed t label)
    (ht : step t label = some u) : Runs step allowed s u :=
  Relation.ReflTransGen.tail h ⟨label, ha, ht⟩

/-- What the allowed steps preserve holds in every state of a run. -/
theorem Runs.invariant {Inv : σ → Prop} (h : Runs step allowed s t)
    (preserves : ∀ {s t label}, allowed s label → step s label = some t → Inv s → Inv t)
    (hs : Inv s) : Inv t := by
  induction h with
  | refl => exact hs
  | tail _ hstep ih =>
    obtain ⟨label, ha, ht⟩ := hstep
    exact preserves ha ht ih

/-- The state after a list of labels, each of which is allowed where it is taken. -/
def follow (step : σ → ℓ → Option σ) (allowed : σ → ℓ → Prop) [∀ s label, Decidable (allowed s label)]
    (s : σ) : List ℓ → Option σ
  | [] => some s
  | label :: labels =>
    if allowed s label then (step s label).bind (follow step allowed · labels) else none

theorem Runs.of_follow [∀ s label, Decidable (allowed s label)]
    (h : follow step allowed s labels = some t) : Runs step allowed s t := by
  induction labels generalizing s with
  | nil => exact Option.some.inj h ▸ .refl
  | cons label labels ih =>
    rw [follow] at h
    split at h
    · rename_i ha
      obtain ⟨u, hu, htail⟩ := Option.bind_eq_some_iff.1 h
      exact Relation.ReflTransGen.head ⟨label, ha, hu⟩ (ih htail)
    · cases h

theorem Runs.follow_getD (step : σ → ℓ → Option σ) (allowed : σ → ℓ → Prop)
    [∀ s label, Decidable (allowed s label)] (s : σ) (labels : List ℓ) (default : σ)
    (h : (follow step allowed s labels).isSome) :
    Runs step allowed s ((follow step allowed s labels).getD default) := by
  obtain ⟨t, ht⟩ := Option.isSome_iff_exists.1 h
  rw [ht]
  exact .of_follow ht

/-! ### Total steps -/

section Along

variable {next : σ → ℓ → σ} {P Q : σ → ℓ → Prop}

/-- Every step of a list of labels has a property of the state before it and its label. -/
def Along (next : σ → ℓ → σ) (P : σ → ℓ → Prop) : σ → List ℓ → Prop
  | _, [] => True
  | s, label :: labels => P s label ∧ Along next P (next s label) labels

/-- Properties that agree where an invariant holds agree along every run of allowed steps, if one of
them is enough to keep the invariant. -/
theorem along_congr (Inv : σ → Prop)
    (agree : ∀ {s label}, Inv s → allowed s label → (P s label ↔ Q s label))
    (preserves : ∀ {s label}, Inv s → allowed s label → P s label → Inv (next s label))
    (hallowed : Along next allowed s labels) (hs : Inv s) :
    Along next P s labels ↔ Along next Q s labels := by
  induction labels generalizing s with
  | nil => exact Iff.rfl
  | cons label labels ih =>
    rw [Along, Along, ← agree hs hallowed.1]
    exact and_congr_right fun h => ih hallowed.2 (preserves hs hallowed.1 h)

theorem along_of_forall (h : ∀ s label, P s label) (s : σ) (labels : List ℓ) :
    Along next P s labels := by
  induction labels generalizing s with
  | nil => trivial
  | cons label labels ih => exact ⟨h s label, ih _⟩

theorem along_iff_along (Inv : σ → Prop) (agree : ∀ {s label}, Inv s → (P s label ↔ Q s label))
    (preserves : ∀ {s label}, Inv s → P s label → Inv (next s label))
    (hs : Inv s) : Along next P s labels ↔ Along next Q s labels :=
  along_congr Inv (fun h _ => agree h) (fun h _ => preserves h)
    (along_of_forall (P := fun _ _ => True) (fun _ _ => trivial) s labels) hs

end Along

end ConstructionKit.ProofKit
