import Mathlib.Data.List.Forall2
import ConstructionKit.Metadata.Stack

/-! What the references of a stack stand for: trees.  Storage is shared, so an operation on one
element of a stack could show in another; it does not as long as an element leaves the stack when it
is put into an array or a hashtable. -/

namespace ConstructionKit.Metadata

open List

inductive Tree where
  | scalar (value : Scalar)
  | array (items : List Tree)
  | hash (entries : List (Tree × Tree))

def Cell.refs : Cell → List Nat
  | scalar _ => []
  | array items => items
  | hash entries => entries.flatMap fun entry => [entry.1, entry.2]

/-- The value at an address is a tree. -/
inductive Denotes (heap : List Cell) : Nat → Tree → Prop
  | scalar {a : Nat} {value : Scalar} :
      heap[a]? = some (.scalar value) → Denotes heap a (.scalar value)
  | array {a : Nat} {items : List Nat} {ts : List Tree} :
      heap[a]? = some (.array items) → items.length = ts.length →
      (∀ p ∈ items.zip ts, Denotes heap p.1 p.2) → Denotes heap a (.array ts)
  | hash {a : Nat} {entries : List (Nat × Nat)} {ts : List (Tree × Tree)} :
      heap[a]? = some (.hash entries) → entries.length = ts.length →
      (∀ p ∈ entries.zip ts, Denotes heap p.1.1 p.2.1) →
      (∀ p ∈ entries.zip ts, Denotes heap p.1.2 p.2.2) → Denotes heap a (.hash ts)

variable {heap heap' : List Cell} {a : Nat} {t : Tree} {entries : List (Nat × Nat)} {ts : List Tree}

theorem denotes_array_iff : Denotes heap a (.array ts) ↔
    ∃ items, heap[a]? = some (.array items) ∧ List.Forall₂ (Denotes heap) items ts := by
  constructor
  · rintro (_ | ⟨hcell, hlength, hitems⟩)
    exact ⟨_, hcell, forall₂_iff_zip.2 ⟨hlength, fun hmem => hitems _ hmem⟩⟩
  · rintro ⟨items, hcell, hitems⟩
    obtain ⟨hlength, hzip⟩ := forall₂_iff_zip.1 hitems
    exact .array hcell hlength fun p hp => hzip hp

theorem denotes_hash_iff {ts : List (Tree × Tree)} : Denotes heap a (.hash ts) ↔
    ∃ entries, heap[a]? = some (.hash entries) ∧
      List.Forall₂ (fun entry t => Denotes heap entry.1 t.1 ∧ Denotes heap entry.2 t.2)
        entries ts := by
  constructor
  · rintro (_ | _ | ⟨hcell, hlength, hkeys, hvals⟩)
    exact ⟨_, hcell, forall₂_iff_zip.2
      ⟨hlength, fun hmem => ⟨hkeys _ hmem, hvals _ hmem⟩⟩⟩
  · rintro ⟨entries, hcell, hentries⟩
    obtain ⟨hlength, hzip⟩ := forall₂_iff_zip.1 hentries
    exact .hash hcell hlength (fun p hp => (hzip hp).1) fun p hp => (hzip hp).2

theorem Denotes.lt_length (h : Denotes heap a t) : a < heap.length := by
  cases h with
  | scalar hcell | array hcell | hash hcell => exact (List.getElem?_eq_some_iff.1 hcell).1

theorem Denotes.append (h : Denotes heap a t) (cells : List Cell) :
    Denotes (heap ++ cells) a t := by
  have hkeep {b : Nat} {cell : Cell} (hcell : heap[b]? = some cell) :
      (heap ++ cells)[b]? = some cell := by
    rw [getElem?_append_left (List.getElem?_eq_some_iff.1 hcell).1, hcell]
  induction h with
  | scalar hcell => exact .scalar (hkeep hcell)
  | array hcell hlength _ ih => exact .array (hkeep hcell) hlength ih
  | hash hcell hlength _ _ ihkeys ihvals => exact .hash (hkeep hcell) hlength ihkeys ihvals

theorem mem_refs_of_mem_zip {items : List Nat} {p : Nat × Tree}
    (hp : p ∈ items.zip ts) : p.1 ∈ (Cell.array items).refs := (of_mem_zip hp).1

theorem mem_refs_of_mem {entry : Nat × Nat} (h : entry ∈ entries) :
    entry.1 ∈ (Cell.hash entries).refs ∧ entry.2 ∈ (Cell.hash entries).refs :=
  ⟨mem_flatMap.2 ⟨entry, h, by simp⟩, mem_flatMap.2 ⟨entry, h, by simp⟩⟩

theorem mem_refs_of_mem_zip_entries {ts : List (Tree × Tree)}
    {p : (Nat × Nat) × Tree × Tree} (hp : p ∈ entries.zip ts) :
    p.1.1 ∈ (Cell.hash entries).refs ∧ p.1.2 ∈ (Cell.hash entries).refs :=
  mem_refs_of_mem (of_mem_zip hp).1

theorem Denotes.set (h : Denotes heap a t) {x : Nat} (ha : a ≠ x)
    (hfree : ∀ (b : Nat) (cell : Cell), heap[b]? = some cell → x ∉ cell.refs) (cell' : Cell) :
    Denotes (heap.set x cell') a t := by
  have hkeep {b : Nat} {cell : Cell} (hb : b ≠ x) (hcell : heap[b]? = some cell) :
      (heap.set x cell')[b]? = some cell := by
    rw [getElem?_set_ne hb.symm, hcell]
  induction h with
  | scalar hcell => exact .scalar (hkeep ha hcell)
  | array hcell hlength _ ih =>
    refine .array (hkeep ha hcell) hlength fun p hp => ih p hp ?_
    exact fun heq => hfree _ _ hcell (heq ▸ mem_refs_of_mem_zip hp)
  | hash hcell hlength _ _ ihkeys ihvals =>
    refine .hash (hkeep ha hcell) hlength (fun p hp => ihkeys p hp ?_) fun p hp => ihvals p hp ?_
    · exact fun heq => hfree _ _ hcell (heq ▸ (mem_refs_of_mem_zip_entries hp).1)
    · exact fun heq => hfree _ _ hcell (heq ▸ (mem_refs_of_mem_zip_entries hp).2)

/-! ### Ordered stacks -/

/-- References lead forward, and the elements of the stack are in the order of their creation. -/
structure Ordered (heap : List Cell) (elems : List Nat) : Prop where
  forward : ∀ (a : Nat) (cell : Cell), heap[a]? = some cell → ∀ r ∈ cell.refs, a < r ∧ r < heap.length
  sorted : elems.Pairwise (· < ·)
  bound : ∀ e ∈ elems, e < heap.length

variable {cell cell' : Cell}

section

variable {elems : List Nat}

theorem getElem?_of_mem_refs {b r : Nat} (hrefs : cell.refs = [])
    (hcell : (heap ++ [cell])[b]? = some cell') (hr : r ∈ cell'.refs) : heap[b]? = some cell' := by
  by_cases hb : b < heap.length
  · rwa [getElem?_append_left hb] at hcell
  · rw [getElem?_append_right (by omega)] at hcell
    obtain ⟨_, heq⟩ := List.getElem?_eq_some_iff.1 hcell
    simp only [getElem_singleton] at heq
    rw [← heq, hrefs] at hr
    cases hr

theorem Ordered.push (h : Ordered heap elems) (hrefs : cell.refs = []) :
    Ordered (heap ++ [cell]) (elems ++ [heap.length]) := by
  refine ⟨?_, ?_, ?_⟩
  · intro b cell' hcell r hr
    have := h.forward b cell' (getElem?_of_mem_refs hrefs hcell hr) r hr
    rw [length_append]
    omega
  · refine pairwise_append.2 ⟨h.sorted, pairwise_singleton _ _, ?_⟩
    intro e he e' he'
    rw [mem_singleton.1 he']
    exact h.bound e he
  · intro e he
    rw [length_append]
    rcases mem_append.1 he with hmem | hnew
    · exact Nat.lt_succ_of_lt (h.bound e hmem)
    · rw [mem_singleton.1 hnew]
      exact Nat.lt_succ_self _

theorem Ordered.sublist (h : Ordered heap elems) {elems' : List Nat} (hsub : elems'.Sublist elems) :
    Ordered heap elems' :=
  ⟨h.forward, h.sorted.sublist hsub, fun e he => h.bound e (hsub.subset he)⟩

theorem eq_or_getElem?_of_set {x b : Nat}
    (h : (heap.set x cell')[b]? = some cell) : b = x ∧ cell = cell' ∨ b ≠ x ∧ heap[b]? = some cell := by
  by_cases hne : b = x
  · subst hne
    have hlt := (List.getElem?_eq_some_iff.1 h).1
    rw [length_set] at hlt
    rw [getElem?_set_self hlt] at h
    exact .inl ⟨rfl, (Option.some.inj h).symm⟩
  · rw [getElem?_set_ne (Ne.symm hne)] at h
    exact .inr ⟨hne, h⟩

theorem Ordered.set (h : Ordered heap elems) (hcell : heap[a]? = some cell)
    (hrefs : ∀ r ∈ cell'.refs, r ∈ cell.refs ∨ a < r ∧ r < heap.length) :
    Ordered (heap.set a cell') elems := by
  refine ⟨?_, h.sorted, fun e he => by rw [length_set]; exact h.bound e he⟩
  intro b cell'' hb r hr
  rw [length_set]
  obtain ⟨rfl, rfl⟩ | ⟨-, hb⟩ := eq_or_getElem?_of_set hb
  · rcases hrefs r hr with hr | hr
    · exact h.forward b cell hcell r hr
    · exact hr
  · exact h.forward b cell'' hb r hr

end

/-! ### Tidy stacks -/

/-- References lead forward, and none leads to an element of the stack. -/
structure Tidy (heap : List Cell) (elems : List Nat) : Prop where
  forward : ∀ (a : Nat) (cell : Cell), heap[a]? = some cell → ∀ r ∈ cell.refs, a < r ∧ r < heap.length
  sorted : elems.Pairwise (· < ·)
  bound : ∀ e ∈ elems, e < heap.length
  free : ∀ e ∈ elems, ∀ (a : Nat) (cell : Cell), heap[a]? = some cell → e ∉ cell.refs

theorem Tidy.nil : Tidy [] [] := by constructor <;> simp

section

variable {elems : List Nat}

theorem Tidy.ordered (h : Tidy heap elems) : Ordered heap elems := ⟨h.forward, h.sorted, h.bound⟩

theorem Ordered.tidy (h : Ordered heap elems)
    (hfree : ∀ e ∈ elems, ∀ (a : Nat) (cell : Cell), heap[a]? = some cell → e ∉ cell.refs) :
    Tidy heap elems := ⟨h.forward, h.sorted, h.bound, hfree⟩

theorem Tidy.push (h : Tidy heap elems) (hrefs : cell.refs = []) :
    Tidy (heap ++ [cell]) (elems ++ [heap.length]) := by
  refine (h.ordered.push hrefs).tidy fun e he b cell' hcell hr => ?_
  have hcell' := getElem?_of_mem_refs hrefs hcell hr
  rcases mem_append.1 he with hmem | hnew
  · exact h.free e hmem b cell' hcell' hr
  · have := (h.forward b cell' hcell' e hr).2
    rw [mem_singleton.1 hnew] at this
    exact Nat.lt_irrefl _ this

theorem Tidy.absorb {moved : List Nat} (h : Tidy heap (elems ++ a :: moved))
    (hcell : heap[a]? = some cell)
    (hrefs : ∀ r ∈ cell'.refs, r ∈ cell.refs ∨ r ∈ moved) :
    Tidy (heap.set a cell') (elems ++ [a]) := by
  obtain ⟨hsorted, hsorted', hlt⟩ := pairwise_append.1 h.sorted
  have hmoved : ∀ r ∈ moved, a < r := (pairwise_cons.1 hsorted').1
  have hsub : (elems ++ [a]).Sublist (elems ++ a :: moved) :=
    List.Sublist.append_left (List.Sublist.cons_cons _ (nil_sublist _)) _
  have hset : Ordered (heap.set a cell') (elems ++ a :: moved) :=
    h.ordered.set hcell fun r hr => (hrefs r hr).imp_right fun hr =>
      ⟨hmoved r hr, h.bound r (mem_append_right _ (mem_cons_of_mem _ hr))⟩
  refine (hset.sublist hsub).tidy fun e he b cell'' hb hr => ?_
  obtain ⟨rfl, rfl⟩ | ⟨-, hb⟩ := eq_or_getElem?_of_set hb
  · rcases hrefs e hr with hr | hr
    · exact h.free e (hsub.subset he) b cell hcell hr
    · rcases mem_append.1 he with hmem | hmem
      · exact Nat.lt_irrefl _ (hlt e hmem e (mem_cons_of_mem _ hr))
      · exact absurd (hmoved e hr) (by rw [mem_singleton.1 hmem]; exact Nat.lt_irrefl _)
  · exact h.free e (hsub.subset he) b cell'' hb hr

end

/-! ### Operations on trees -/

/-- A stack that is not finalized holds trees, the last one on top. -/
structure Stack.Open (stack : Stack) (fmt : Fmt) (ts : List Tree) : Prop where
  opened : stack.finalized = false
  outFmt : stack.outFmt = fmt
  tidy : Tidy stack.heap stack.elems
  denotes : List.Forall₂ (Denotes stack.heap) stack.elems ts

def Tree.isKey : Tree → Bool
  | .scalar value => (Cell.scalar value).isKey
  | _ => false

namespace Stack

variable {stack : Stack} {fmt : Fmt} {elems : List Nat} {ts' : List Tree}

theorem open_empty (fmt : Fmt) : (empty fmt).Open fmt [] := ⟨rfl, rfl, .nil, .nil⟩

section

variable (h : stack.Open fmt ts)
include h

theorem Open.length_elems : stack.elems.length = ts.length :=
  h.denotes.length_eq

theorem Open.top_eq (hne : ts ≠ []) : stack.top = .ok (ts.length - 1) := by
  have hlength := h.length_elems
  have hpos := length_pos_iff.2 hne
  rw [top, if_neg (length_pos_iff.1 (by omega)), hlength]

theorem Open.push (hrefs : cell.refs = [])
    (ht : ∀ (heap : List Cell) (a : Nat), heap[a]? = some cell → Denotes heap a t) :
    ∃ stack', stack.push cell = (.ok ts.length, stack') ∧ stack'.Open fmt (ts ++ [t]) := by
  have hopen : Open { stack with
      heap := stack.heap ++ [cell], elems := stack.elems ++ [stack.heap.length] } fmt
      (ts ++ [t]) := by
    refine ⟨h.opened, h.outFmt, h.tidy.push hrefs, rel_append ?_ (.cons ?_ .nil)⟩
    · exact h.denotes.imp fun _ _ hdenotes => hdenotes.append _
    · exact ht _ _ (by simp)
  refine ⟨_, ?_, hopen⟩
  have htop := hopen.top_eq (by simp)
  rw [length_append, length_singleton, Nat.add_sub_cancel] at htop
  rw [Stack.push, if_neg (by simp [h.opened])]
  dsimp only
  rw [htop]

theorem Open.push_scalar (value : Scalar) :
    ∃ stack', stack.push (.scalar value) = (.ok ts.length, stack') ∧
      stack'.Open fmt (ts ++ [.scalar value]) :=
  h.push rfl fun _ _ => .scalar

theorem Open.push_arr :
    ∃ stack', stack.pushArr = (.ok ts.length, stack') ∧ stack'.Open fmt (ts ++ [.array []]) :=
  h.push rfl fun _ _ hcell => denotes_array_iff.2 ⟨[], hcell, .nil⟩

theorem Open.push_map :
    ∃ stack', stack.pushMap = (.ok ts.length, stack') ∧ stack'.Open fmt (ts ++ [.hash []]) :=
  h.push rfl fun _ _ hcell => denotes_hash_iff.2 ⟨[], hcell, .nil⟩

end

theorem forall₂_append_right {R : Nat → Tree → Prop}
    (h : List.Forall₂ R elems (ts ++ ts')) : ∃ elems₁ elems₂, elems = elems₁ ++ elems₂ ∧
      List.Forall₂ R elems₁ ts ∧ List.Forall₂ R elems₂ ts' := by
  induction ts generalizing elems with
  | nil => exact ⟨[], elems, rfl, .nil, h⟩
  | cons t ts ih =>
    cases h with
    | cons hhead htail =>
      obtain ⟨elems₁, elems₂, rfl, h₁, h₂⟩ := ih htail
      exact ⟨_ :: elems₁, elems₂, rfl, .cons hhead h₁, h₂⟩

theorem Open.absorb (h : stack.Open fmt ts') {moved : List Nat}
    (helems : stack.elems = elems ++ a :: moved) (hts : List.Forall₂ (Denotes stack.heap) elems ts)
    (hcell : stack.heap[a]? = some cell)
    (hrefs : ∀ r ∈ cell'.refs, r ∈ cell.refs ∨ r ∈ moved)
    (ht : (∀ r t', r ∈ cell.refs ∨ r ∈ moved → Denotes stack.heap r t' →
      Denotes (stack.heap.set a cell') r t') → Denotes (stack.heap.set a cell') a t) :
    Open { stack with heap := stack.heap.set a cell', elems := elems ++ [a] } fmt (ts ++ [t]) := by
  have htidy := h.tidy
  rw [helems] at htidy
  have hsorted := pairwise_append.1 htidy.sorted
  have hfree := htidy.free a (mem_append_right _ (mem_cons_self ..))
  refine ⟨h.opened, h.outFmt, htidy.absorb hcell hrefs, rel_append ?_ (.cons (ht ?_) .nil)⟩
  · refine forall₂_iff_zip.2 ⟨hts.length_eq, fun {e t'} hmem => ?_⟩
    refine ((forall₂_iff_zip.1 hts).2 hmem).set (Nat.ne_of_lt ?_) hfree _
    exact hsorted.2.2 e (of_mem_zip hmem).1 a (mem_cons_self ..)
  · intro r t' hr hdenotes
    refine hdenotes.set (Nat.ne_of_gt ?_) hfree _
    rcases hr with hr | hr
    · exact (htidy.forward a cell hcell r hr).1
    · exact (pairwise_cons.1 hsorted.2.1).1 r hr

theorem pop_mk (heap : List Cell) (hne : elems ≠ []) (fmt : Fmt) :
    (Stack.mk heap elems false fmt).pop.2 = ⟨heap, elems.dropLast, false, fmt⟩ := by
  simp [pop, hne]

theorem Open.append_pop {items : List Tree} (h : stack.Open fmt (ts ++ [.array items, t])) :
    ∃ stack', stack.arrAppend ts.length (ts.length + 1) = (.ok items.length, stack') ∧
      stack'.pop.2.Open fmt (ts ++ [.array (items ++ [t])]) := by
  obtain ⟨elems, moved, helems, hts, hmoved⟩ := forall₂_append_right h.denotes
  obtain _ | ⟨harray, _ | ⟨ht, ⟨⟩⟩⟩ := hmoved
  rename_i arr elem
  obtain ⟨refs, hcell, hrefs⟩ := denotes_array_iff.1 harray
  have hlength := hts.length_eq
  have htop : stack.top = .ok (ts.length + 1) := by
    rw [h.top_eq (by simp)]
    simp
  have hidx : stack.elems[ts.length]? = some arr := by simp [helems, ← hlength]
  have hidx' : stack.elems[ts.length + 1]? = some elem := by simp [helems, ← hlength]
  have hcell' : stack.cell ts.length = some (.array refs) := by
    rw [cell, hidx]
    exact hcell
  refine ⟨{ stack with heap := stack.heap.set arr (.array (refs ++ [elem])) }, ?_, ?_⟩
  · rw [arrAppend, if_neg (by simp [h.opened]), htop]
    dsimp only
    rw [if_neg (by omega), if_neg (by omega), hidx, hidx', hcell', ← hrefs.length_eq]
  · have hdrop : (elems ++ [arr, elem]).dropLast = elems ++ [arr] := by simp
    rw [helems, h.opened, pop_mk _ (by simp), hdrop, ← h.opened]
    refine h.absorb helems hts hcell ?_ fun hframe => ?_
    · exact fun r hr => mem_append.1 hr
    · refine denotes_array_iff.2 ⟨refs ++ [elem], getElem?_set_self harray.lt_length, ?_⟩
      refine rel_append ?_ (.cons (hframe elem t (.inr (mem_singleton_self _)) ht) .nil)
      refine forall₂_iff_zip.2 ⟨hrefs.length_eq, fun {r t'} hmem => ?_⟩
      exact hframe r t' (.inl (of_mem_zip hmem).1) ((forall₂_iff_zip.1 hrefs).2 hmem)

theorem isKey_of_denotes (h : Denotes heap a t)
    (hkey : t.isKey = true) : heap[a]?.any (·.isKey) = true := by
  cases h with
  | scalar hcell =>
    rw [hcell]
    exact hkey
  | array => cases hkey
  | hash => cases hkey

/-- The two elements on top of a hashtable are moved into it.  The key is not in it, since nothing
refers to an element of the stack. -/
theorem Open.set_pop {entries : List (Tree × Tree)} {key val : Tree} (hkey : key.isKey = true)
    (h : stack.Open fmt (ts ++ [.hash entries, key, val])) :
    ∃ stack', stack.hashSetKv ts.length (ts.length + 1) (ts.length + 2) =
        (.ok entries.length, stack') ∧
      stack'.pop.2.pop.2.Open fmt (ts ++ [.hash (entries ++ [(key, val)])]) := by
  obtain ⟨elems, moved, helems, hts, hmoved⟩ := forall₂_append_right h.denotes
  obtain _ | ⟨hmap, _ | ⟨hk, _ | ⟨hv, ⟨⟩⟩⟩⟩ := hmoved
  rename_i map keyRef valRef
  obtain ⟨refs, hcell, hrefs⟩ := denotes_hash_iff.1 hmap
  have hlength := hts.length_eq
  have htop : stack.top = .ok (ts.length + 2) := by
    rw [h.top_eq (by simp)]
    simp
  have hidx : stack.elems[ts.length]? = some map := by simp [helems, ← hlength]
  have hidx' : stack.elems[ts.length + 1]? = some keyRef := by simp [helems, ← hlength]
  have hidx'' : stack.elems[ts.length + 2]? = some valRef := by simp [helems, ← hlength]
  have hcell' : stack.cell ts.length = some (.hash refs) := by
    rw [cell, hidx]
    exact hcell
  have hkey' : (stack.cell (ts.length + 1)).any (·.isKey) = true := by
    rw [cell, hidx']
    exact isKey_of_denotes hk hkey
  have hfresh : ¬refs.any (·.1 = keyRef) = true := by
    intro hany
    obtain ⟨entry, hentry, heq⟩ := any_eq_true.1 hany
    refine h.tidy.free keyRef (by simp [helems]) map _ hcell ?_
    exact mem_flatMap.2 ⟨entry, hentry, by simp [of_decide_eq_true heq]⟩
  refine ⟨{ stack with heap := stack.heap.set map (.hash (refs ++ [(keyRef, valRef)])) }, ?_, ?_⟩
  · rw [hashSetKv, if_neg (by simp [h.opened]), htop]
    dsimp only
    rw [if_neg (by omega), if_neg (by omega), hidx, hidx', hidx'', hcell']
    dsimp only
    rw [if_neg (by simp [hkey']), if_neg hfresh, ← hrefs.length_eq]
  · have hdrop : (elems ++ [map, keyRef, valRef]).dropLast.dropLast = elems ++ [map] := by simp
    rw [helems, h.opened, pop_mk _ (by simp), pop_mk _ (by simp), hdrop, ← h.opened]
    refine h.absorb helems hts hcell ?_ fun hframe => ?_
    · intro r hr
      simp only [Cell.refs, flatMap_append, mem_append] at hr
      exact hr.imp_right fun hnew => by simpa using hnew
    · refine denotes_hash_iff.2 ⟨refs ++ [(keyRef, valRef)],
        getElem?_set_self hmap.lt_length, ?_⟩
      refine rel_append ?_ (.cons ⟨hframe _ _ (.inr (by simp)) hk,
        hframe _ _ (.inr (by simp)) hv⟩ .nil)
      refine forall₂_iff_zip.2 ⟨hrefs.length_eq, fun {r t'} hmem => ?_⟩
      have hold := (forall₂_iff_zip.1 hrefs).2 hmem
      have hmem' := mem_refs_of_mem_zip_entries hmem
      exact ⟨hframe _ _ (.inl hmem'.1) hold.1, hframe _ _ (.inl hmem'.2) hold.2⟩

end Stack

end ConstructionKit.Metadata
