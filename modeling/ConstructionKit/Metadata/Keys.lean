import ConstructionKit.Metadata.Ops
import ConstructionKit.ProofKit.Runs
import Mathlib.Data.List.Pairwise

/-! The keys of hashtables.  Two values are compared by the storage that they refer to, so a key is
only found again through the element that was its key. -/

namespace ConstructionKit.Metadata

open ProofKit List

/-! ### Equal values -/

/-- Not a number: the exponent is all ones and the fraction is not zero. -/
def isNaN (bits : UInt64) : Bool := bits <<< 1 > 0xffe0000000000000

/-- Equality of doubles; the two zeros are equal. -/
def realEq (a b : UInt64) : Bool :=
  !isNaN a && !isNaN b && (a == b || (a <<< 1 == 0 && b <<< 1 == 0))

/-- The same type and an equal value. -/
def Scalar.sameValue : Scalar → Scalar → Bool
  | uint a, uint b => a == b
  | sint a, sint b => a == b
  | real a, real b => realEq a b
  | zstr a, zstr b => a == b
  | bytes a, bytes b => a == b
  | _, _ => false

def scalarAt (heap : List Cell) (a : Nat) : Option Scalar :=
  match heap[a]? with
  | some (.scalar value) => some value
  | _ => none

/-- The value at an address is equal to a value. -/
def holdsValue (heap : List Cell) (a : Nat) (value : Scalar) : Bool :=
  (scalarAt heap a).any (·.sameValue value)

def sameKey (heap : List Cell) (a b : Nat) : Bool := (scalarAt heap b).any (holdsValue heap a)

theorem Scalar.sameValue_comm (v w : Scalar) : v.sameValue w = w.sameValue v := by
  cases v <;> cases w <;> simp only [sameValue, realEq, Bool.beq_comm, Bool.and_comm]

section

variable {heap : List Cell} {a b : Nat}

theorem sameKey_comm (heap : List Cell) (a b : Nat) : sameKey heap a b = sameKey heap b a := by
  unfold sameKey holdsValue
  cases scalarAt heap a with
  | none => cases scalarAt heap b <;> rfl
  | some v =>
    cases scalarAt heap b with
    | none => rfl
    | some w => exact v.sameValue_comm w

/-- A change of a cell that is no scalar does not show in the values of keys. -/
theorem sameKey_set {x : Nat} {cell cell' : Cell} (hcell : heap[x]? = some cell)
    (hscalar : ∀ value, cell ≠ .scalar value) (hscalar' : ∀ value, cell' ≠ .scalar value)
    (a b : Nat) : sameKey (heap.set x cell') a b = sameKey heap a b := by
  have hvalue (a : Nat) : scalarAt (heap.set x cell') a = scalarAt heap a := by
    unfold scalarAt
    by_cases hne : x = a
    · subst hne
      rw [getElem?_set_self (List.getElem?_eq_some_iff.1 hcell).1, hcell]
      cases cell <;> cases cell' <;> first | rfl | exact absurd rfl (hscalar _) |
        exact absurd rfl (hscalar' _)
    · rw [getElem?_set_ne hne]
  unfold sameKey holdsValue
  rw [hvalue, hvalue]

theorem sameKey_append (cells : List Cell) (ha : a < heap.length) (hb : b < heap.length) :
    sameKey (heap ++ cells) a b = sameKey heap a b := by
  unfold sameKey holdsValue scalarAt
  rw [getElem?_append_left ha, getElem?_append_left hb]

end

/-! ### Unique keys -/

def UniqueKeys (heap : List Cell) : Prop :=
  ∀ (a : Nat) (entries : List (Nat × Nat)), heap[a]? = some (.hash entries) →
    entries.Pairwise fun entry entry' => sameKey heap entry.1 entry'.1 = false

variable {entries : List (Nat × Nat)} {heap : List Cell}

theorem UniqueKeys.eq (h : UniqueKeys heap) {a : Nat}
    (hcell : heap[a]? = some (.hash entries)) {entry entry' : Nat × Nat} (hentry : entry ∈ entries)
    (hentry' : entry' ∈ entries) (hsame : sameKey heap entry.1 entry'.1 = true) : entry = entry' := by
  by_contra hne
  have : Std.Symm fun entry entry' : Nat × Nat => sameKey heap entry.1 entry'.1 = false :=
    ⟨fun entry entry' hfalse => by rwa [sameKey_comm]⟩
  have hfalse := (h a entries hcell).forall hentry hentry' hne
  rw [hsame] at hfalse
  cases hfalse

/-- The uses of a stack: its operations, and lookups of a value that some stack has at an address. -/
inductive Use where
  | op (op : Op)
  | lookup (ht key : Nat) (value : Scalar)
deriving DecidableEq, Repr

def Stack.use (stack : Stack) : Use → Stack
  | .op op => stack.step op
  | .lookup .. => stack

/-- A key of a lookup is a value of this stack or of another one. -/
def IsValue (heap : List Cell) (key : Nat) (value : Scalar) : Prop :=
  heap[key]? = some (.scalar value) ∨ heap.length ≤ key

/-- Keys are unique after an operation, a key that is equal to one in the table is rejected, and a
value that is equal to a key finds it. -/
def Stack.KeySafe (stack : Stack) : Use → Prop
  | .op op => UniqueKeys (stack.step op).heap ∧
      ∀ mapIdx keyIdx valIdx, op = .hashSetKv mapIdx keyIdx valIdx →
        ∀ entries key, stack.SetsKey mapIdx keyIdx valIdx entries key →
          ∀ entry ∈ entries, sameKey stack.heap entry.1 key = true →
            stack.hashSetKv mapIdx keyIdx valIdx = (.error .duplicateKey, stack)
  | .lookup ht key value => IsValue stack.heap key value →
      ∀ entries, stack.heap[ht]? = some (.hash entries) →
        ∀ entry ∈ entries, holdsValue stack.heap entry.1 value = true →
          getHashtableKey stack.heap ht key = .ok entry.2

/-- A key that is equal to a key of the table is that key. -/
def Stack.SharesKeys (stack : Stack) : Use → Prop
  | .op op => ∀ mapIdx keyIdx valIdx, op = .hashSetKv mapIdx keyIdx valIdx →
      ∀ entries key, stack.SetsKey mapIdx keyIdx valIdx entries key →
        ∀ entry ∈ entries, sameKey stack.heap entry.1 key = true → entry.1 = key
  | .lookup ht key value => IsValue stack.heap key value →
      ∀ entries, stack.heap[ht]? = some (.hash entries) →
        ∀ entry ∈ entries, holdsValue stack.heap entry.1 value = true → entry.1 = key

namespace Stack

variable {stack : Stack}

theorem uniqueKeys_empty (fmt : Fmt) : UniqueKeys (empty fmt).heap := by
  intro a entries hcell
  simp [empty] at hcell

theorem Effect.uniqueKeys {s t : Stack} {op : Op} (heffect : Effect s op t) (hwf : s.Wf)
    (hunique : UniqueKeys s.heap) (hshares : s.SharesKeys (.op op)) : UniqueKeys t.heap := by
  cases heffect with
  | keep hheap => rwa [hheap]
  | @push cell hrefs hnul hheap =>
    rw [hheap]
    intro a entries hcell
    by_cases hnil : entries = []
    · rw [hnil]
      exact .nil
    · obtain ⟨entry, hentry⟩ := exists_mem_of_ne_nil entries hnil
      have hold := getElem?_of_mem_refs hrefs hcell (mem_refs_of_mem hentry).1
      have hlt : ∀ entry ∈ entries, entry.1 < s.heap.length := fun entry hentry =>
        (hwf.ordered.forward a _ hold _ (mem_refs_of_mem hentry).1).2
      refine (hunique a entries hold).imp_of_mem fun hentry hentry' hfalse => ?_
      rw [sameKey_append _ (hlt _ hentry) (hlt _ hentry'), hfalse]
  | pop hheap => rwa [hheap]
  | append _ _ _ hcell hheap =>
    rw [hheap]
    intro a entries ha
    obtain ⟨-, ⟨⟩⟩ | ⟨-, ha⟩ := eq_or_getElem?_of_set ha
    refine (hunique a entries ha).imp fun hfalse => ?_
    rw [sameKey_set hcell (by simp) (by simp), hfalse]
  | @set i j k map key val entries hop hsets hmap _ hfresh hheap =>
    have hcell := cell_eq_some hmap hsets.table
    have hframe (a b : Nat) : sameKey (s.heap.set map (.hash (entries ++ [(key, val)]))) a b =
        sameKey s.heap a b := sameKey_set hcell (by simp) (by simp) a b
    rw [hheap]
    intro a entries' ha
    simp only [hframe]
    obtain ⟨-, heq⟩ | ⟨-, ha⟩ := eq_or_getElem?_of_set ha
    · rw [Cell.hash.injEq] at heq
      rw [heq]
      refine pairwise_append.2 ⟨hunique map entries hcell, pairwise_singleton _ _, ?_⟩
      intro entry hentry entry' hentry'
      rw [mem_singleton.1 hentry', Bool.eq_false_iff]
      exact fun hsame => hfresh entry hentry (hshares i j k hop entries key hsets entry hentry hsame)
    · exact hunique a entries' ha

/-! ### Operations and lookups -/

variable {use : Use}

theorem hashSetKv_duplicate {mapIdx keyIdx valIdx key : Nat}
    (h : stack.SetsKey mapIdx keyIdx valIdx entries key) :
    stack.hashSetKv mapIdx keyIdx valIdx = (.error .duplicateKey, stack) ↔
      ∃ entry ∈ entries, entry.1 = key := by
  obtain ⟨map, val, -, -, heq⟩ := h.hashSetKv_eq
  rw [heq]
  constructor
  · intro hduplicate
    split at hduplicate
    · rename_i hany
      obtain ⟨entry, hentry, hkey⟩ := any_eq_true.1 hany
      exact ⟨entry, hentry, of_decide_eq_true hkey⟩
    · cases hduplicate
  · rintro ⟨entry, hentry, hkey⟩
    rw [if_pos (any_eq_true.2 ⟨entry, hentry, decide_eq_true hkey⟩)]

theorem holdsValue_of_lookup {a key : Nat} {value : Scalar}
    (hkey : heap[key]? = some (.scalar value)) : sameKey heap a key = holdsValue heap a value := by
  unfold sameKey
  rw [scalarAt, hkey]
  rfl

/-- A lookup that succeeds found the key itself. -/
theorem getHashtableKey_eq_ok {ht key val : Nat}
    (htable : heap[ht]? = some (.hash entries)) (h : getHashtableKey heap ht key = .ok val) :
    (key, val) ∈ entries := by
  rw [getHashtableKey, htable] at h
  simp only at h
  split at h
  · rename_i key' val' hfind
    cases h
    have hkey : key' = key := by simpa using find?_some hfind
    rw [← hkey]
    exact mem_of_find?_eq_some hfind
  · cases h

theorem KeySafe.sharesKeys (hwf : stack.Wf) (hunique : UniqueKeys stack.heap)
    (h : stack.KeySafe use) : stack.SharesKeys use := by
  cases use with
  | op =>
    intro mapIdx keyIdx valIdx hop entries key hsets entry hentry hsame
    have hduplicate := h.2 mapIdx keyIdx valIdx hop entries key hsets entry hentry hsame
    obtain ⟨entry', hentry', hkey⟩ := (hashSetKv_duplicate hsets).1 hduplicate
    obtain ⟨map, -, hmap, -, -⟩ := hsets.hashSetKv_eq
    rw [← hkey] at hsame ⊢
    rw [hunique.eq (cell_eq_some hmap hsets.table) hentry hentry' hsame]
  | lookup ht key =>
    intro hvalue entries htable entry hentry hholds
    have hfound := getHashtableKey_eq_ok htable (h hvalue entries htable entry hentry hholds)
    have hlt : key < stack.heap.length :=
      (hwf.ordered.forward ht _ htable _ (mem_refs_of_mem hfound).1).2
    have hkey := hvalue.resolve_right (Nat.not_le.2 hlt)
    rw [← holdsValue_of_lookup hkey] at hholds
    rw [hunique.eq htable hentry hfound hholds]

theorem SharesKeys.keySafe (hwf : stack.Wf) (hunique : UniqueKeys stack.heap)
    (h : stack.SharesKeys use) : stack.KeySafe use := by
  cases use with
  | op op =>
    refine ⟨(effect_step stack op).uniqueKeys hwf hunique h, ?_⟩
    intro mapIdx keyIdx valIdx hop entries key hsets entry hentry hsame
    have hkey := h mapIdx keyIdx valIdx hop entries key hsets entry hentry hsame
    exact (hashSetKv_duplicate hsets).2 ⟨entry, hentry, hkey⟩
  | lookup ht key =>
    intro hvalue entries htable entry hentry hholds
    have hkey := h hvalue entries htable entry hentry hholds
    have hlt : entry.1 < stack.heap.length :=
      (hwf.ordered.forward ht _ htable _ (mem_refs_of_mem hentry).1).2
    have hcell := hvalue.resolve_right (Nat.not_le.2 (hkey ▸ hlt))
    -- the first entry with this key is the only one
    have hfind : entries.find? (fun entry => decide (entry.1 = key)) = some entry := by
      cases hfind : entries.find? (fun entry => decide (entry.1 = key)) with
      | none => exact absurd (decide_eq_true hkey) (find?_eq_none.1 hfind entry hentry)
      | some entry' =>
        have hkey' : entry'.1 = key := by simpa using find?_some hfind
        rw [← holdsValue_of_lookup hcell, ← hkey'] at hholds
        rw [hunique.eq htable hentry (mem_of_find?_eq_some hfind) hholds]
    rw [getHashtableKey, htable]
    simp only [hfind]

end Stack

/-- Keys are unique, equal keys are rejected and equal values find their keys in every use of a stack
exactly if a key that is equal to a key of its table always is that key: the comparison is one of
storage, so an equal value from another push is a new key. -/
theorem keySafe_along_iff (fmt : Fmt) (uses : List Use) :
    Along Stack.use Stack.KeySafe (.empty fmt) uses ↔
      Along Stack.use Stack.SharesKeys (.empty fmt) uses := by
  apply along_iff_along fun stack => stack.Wf ∧ UniqueKeys stack.heap
  · intro stack use hstack
    exact ⟨fun h => h.sharesKeys hstack.1 hstack.2, fun h => h.keySafe hstack.1 hstack.2⟩
  · intro stack use hstack h
    cases use with
    | op op => exact ⟨hstack.1.step (stack.effect_step op), h.1⟩
    | lookup => exact hstack
  · exact ⟨Stack.wf_empty fmt, Stack.uniqueKeys_empty fmt⟩

/-- The key 1 is pushed and set twice. -/
def equalKeys : List Use :=
  [.op .pushMap, .op (.pushUnsigned 1), .op (.pushUnsigned 2), .op (.hashSetKv 0 1 2),
    .op (.pushUnsigned 1), .op (.hashSetKv 0 3 2)]

theorem not_keySafe_equalKeys : ¬ Along Stack.use Stack.KeySafe (.empty .rawBytes) equalKeys := by
  intro h
  have hunique := h.2.2.2.2.2.1.1
  have hpairwise := hunique 0 [(1, 2), (3, 2)] (by decide)
  exact absurd hpairwise (by decide)

end ConstructionKit.Metadata
