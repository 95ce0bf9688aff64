import Mathlib.Logic.Function.Basic

/-! Vulkan descriptor sets with dynamic offsets, which are added to the sets themselves. -/

namespace ConstructionKit.Vk

open Function

/-- A buffer descriptor; `dynamic` is that of its binding. -/
structure Descriptor where
  dynamic : Bool
  offset : UInt64
  deriving DecidableEq

/-- The loops over the bindings of a set and their descriptors, and the dynamic offsets that are left. -/
def addOffsets : List Descriptor → List UInt32 → List Descriptor × List UInt32
  | d :: ds, o :: os =>
    if d.dynamic then
      let (ds, os) := addOffsets ds os
      ({ d with offset := d.offset + o.toUInt64 } :: ds, os)
    else
      let (ds, os) := addOffsets ds (o :: os)
      (d :: ds, os)
  | ds, os => (ds, os)

/-- A call for a primary command buffer; without `pDynamicOffsets`, there are none. -/
structure CmdBindDescriptorSets (C S : Type) where
  commandBuffer : C
  firstSet : Nat
  descriptorSets : List S
  dynamicOffsets : List UInt32

/-- The sets, which command buffers share, and the sets that are bound.  A dispatch is expected to use
the descriptors as they were written, with the dynamic offsets of the last bind. -/
structure System (C S : Type) where
  sets : S → List Descriptor
  bound : C → Nat → Option S
  expected : C → S → List Descriptor

variable {C S : Type} [DecidableEq C] [DecidableEq S] (written : S → List Descriptor)

namespace System

def addAll (c : C) : List S → List UInt32 → System C S → System C S
  | [], _, s => s
  | set :: sets, offsets, s =>
    let (ds, left) := addOffsets (s.sets set) offsets
    addAll c sets left
      { s with
        sets := update s.sets set ds
        expected := update s.expected c
          (update (s.expected c) set (addOffsets (written set) offsets).1) }

def bind (s : System C S) (call : CmdBindDescriptorSets C S) : System C S :=
  let s := s.addAll written call.commandBuffer call.descriptorSets call.dynamicOffsets
  { s with
    bound := update s.bound call.commandBuffer fun i =>
      if call.firstSet ≤ i ∧ i < call.firstSet + call.descriptorSets.length then
        call.descriptorSets[i - call.firstSet]?
      else s.bound call.commandBuffer i }

/-- The system after calls, in whatever command buffers. -/
def after (calls : List (CmdBindDescriptorSets C S)) : System C S :=
  calls.foldl (bind written) ⟨written, fun _ _ => none, fun _ => written⟩

/-- The sets are as they were written, and what a dispatch collects of those that are bound is what it
is expected to use. -/
def Right (s : System C S) : Prop :=
  s.sets = written ∧ ∀ c i set, s.bound c i = some set → s.sets set = s.expected c set

end System

variable {written}

theorem addOffsets_zero {os : List UInt32} (h : ∀ o ∈ os, o = 0) (ds : List Descriptor) :
    (addOffsets ds os).1 = ds ∧ ∀ o ∈ (addOffsets ds os).2, o = 0 := by
  fun_induction addOffsets ds os with
  | case1 d ds o os _ ds' os' heq ih =>
    obtain ⟨rfl, hos⟩ := List.forall_mem_cons.1 h
    rw [heq] at ih
    obtain ⟨rfl, hos'⟩ := ih hos
    exact ⟨by simp, hos'⟩
  | case2 d ds o os _ ds' os' heq ih =>
    rw [heq] at ih
    obtain ⟨rfl, hos'⟩ := ih h
    exact ⟨rfl, hos'⟩
  | case3 => exact ⟨rfl, h⟩

theorem System.addAll_zero {os : List UInt32} (h : ∀ o ∈ os, o = 0) (c : C) (sets : List S)
    {s : System C S} (hsets : s.sets = written) (hexpected : ∀ c, s.expected c = written) :
    (s.addAll written c sets os).sets = written ∧
      ∀ c', (s.addAll written c sets os).expected c' = written := by
  induction sets generalizing os s with
  | nil => exact ⟨hsets, hexpected⟩
  | cons set sets ih =>
    subst hsets
    obtain ⟨hsame, hleft⟩ := addOffsets_zero h (s.sets set)
    refine ih hleft (by simp [hsame]) fun c' => ?_
    by_cases hc : c' = c <;> simp [hc, hsame, hexpected]

end ConstructionKit.Vk
