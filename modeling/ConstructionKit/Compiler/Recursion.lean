import Mathlib.Logic.Relation

/-! The base module's search for recursive kernels, which compares each call with the calls before it. -/

namespace ConstructionKit.Compiler

variable {F : Type}

/-- The callers in the order of the call graph's iterator, with their callees; calls from outside the
module and of unknown functions have none. -/
abbrev CallGraph (F : Type) := List (Option F × List (Option F))

/-- The calls that the loops visit. -/
def CallGraph.calls (callgraph : CallGraph F) : List (Option F × Option F) :=
  callgraph.flatMap fun (caller, callees) =>
    if caller.isSome then callees.map (caller, ·) else []

def CallGraph.Calls (callgraph : CallGraph F) (f g : F) : Prop :=
  (some f, some g) ∈ callgraph.calls

/-- The loops from some call on; `callDep` has the calls before it. -/
def recursionFrom [DecidableEq F] (callDep : List (Option F × Option F)) :
    List (Option F × Option F) → Bool
  | [] => false
  | (caller, callee) :: calls =>
    if callee = caller ∨ (callee, caller) ∈ callDep then true
    else recursionFrom ((caller, callee) :: callDep) calls

def hasRecursiveKernels [DecidableEq F] (callgraph : CallGraph F) : Bool :=
  recursionFrom [] callgraph.calls

theorem CallGraph.isSome_of_mem {callgraph : CallGraph F} {caller callee : Option F}
    (h : (caller, callee) ∈ callgraph.calls) : caller.isSome = true := by
  obtain ⟨⟨f, callees⟩, -, hcall⟩ := List.mem_flatMap.1 h
  dsimp only at hcall
  split at hcall
  · next hsome =>
    obtain ⟨-, -, ⟨⟩⟩ := List.mem_map.1 hcall
    exact hsome
  · cases hcall

variable [DecidableEq F] (callgraph : CallGraph F)

/-- Of a call and its reverse, the later one is noticed. -/
theorem recursionFrom_iff (calls callDep : List (Option F × Option F)) :
    recursionFrom callDep calls = true ↔
      ∃ f g, (f, g) ∈ calls ∧ ((g, f) ∈ callDep ∨ (g, f) ∈ calls) := by
  induction calls generalizing callDep with
  | nil => simp [recursionFrom]
  | cons call calls ih =>
    obtain ⟨caller, callee⟩ := call
    rw [recursionFrom]
    split
    · next hfound =>
      refine iff_of_true rfl ⟨caller, callee, List.mem_cons_self, ?_⟩
      rcases hfound with rfl | hdep
      · exact .inr List.mem_cons_self
      · exact .inl hdep
    · rw [ih]
      grind

theorem hasRecursiveKernels_iff :
    hasRecursiveKernels callgraph = true ↔ ∃ f g, callgraph.Calls f g ∧ callgraph.Calls g f := by
  rw [hasRecursiveKernels, recursionFrom_iff]
  constructor
  · rintro ⟨f, g, hcall, hnone | hback⟩
    · cases hnone
    · obtain ⟨f, rfl⟩ := Option.isSome_iff_exists.1 (CallGraph.isSome_of_mem hcall)
      obtain ⟨g, rfl⟩ := Option.isSome_iff_exists.1 (CallGraph.isSome_of_mem hback)
      exact ⟨f, g, hcall, hback⟩
  · exact fun ⟨f, g, hcall, hback⟩ => ⟨f, g, hcall, .inr hback⟩

/-- Recursion is found exactly if there is a cycle, whatever the order of the calls. -/
def RecursionExact : Prop :=
  (hasRecursiveKernels callgraph = true ↔ ∃ f, Relation.TransGen callgraph.Calls f f) ∧
    ∀ other : CallGraph F, (∀ f g, other.Calls f g ↔ callgraph.Calls f g) →
      hasRecursiveKernels other = hasRecursiveKernels callgraph

theorem recursionExact_iff :
    RecursionExact callgraph ↔ ((∃ f, Relation.TransGen callgraph.Calls f f) →
      ∃ f g, callgraph.Calls f g ∧ callgraph.Calls g f) := by
  rw [RecursionExact, hasRecursiveKernels_iff]
  refine ⟨fun h => h.1.2, fun h => ⟨⟨fun ⟨f, g, hcall, hback⟩ => ?_, h⟩, fun other hsame => ?_⟩⟩
  · exact ⟨f, .tail (.single hcall) hback⟩
  · rw [Bool.eq_iff_iff, hasRecursiveKernels_iff, hasRecursiveKernels_iff]
    simp only [hsame]

/-- A cycle of three functions is not noticed. -/
theorem not_recursionExact : ¬RecursionExact (F := Fin 3)
    [(some 0, [some 1]), (some 1, [some 2]), (some 2, [some 0])] := by
  rw [recursionExact_iff]
  unfold CallGraph.Calls
  intro h
  have hcycle := h ⟨0, .tail (.tail (.single (b := 1) (by decide)) (c := 2) (by decide)) (by decide)⟩
  revert hcycle
  decide

end ConstructionKit.Compiler
