import ConstructionKit.Metadata.Context
import ConstructionKit.Metadata.MsgPack

/-! Sequences of operations on a stack.  An element is only put into an array or a hashtable that is
below it on the stack and so was created before it: no value contains itself, and the serializers
end. -/

namespace ConstructionKit.Metadata

open ProofKit List

inductive Op where
  | pushUnsigned (value : UInt64)
  | pushSigned (value : Int64)
  | pushReal (bits : UInt64)
  | pushZstr (text : List UInt8)
  | pushBytes (data : List UInt8)
  | pushArr
  | pushMap
  | pop
  | arrAppend (arrIdx elemIdx : Nat)
  | hashSetKv (mapIdx keyIdx valIdx : Nat)
  | freezeStack
  | setOutFmt (fmt : Fmt)
deriving DecidableEq, Repr

/-- The text of a string ends at its first null. -/
def Cell.NulFree (cell : Cell) : Prop := ∀ text, cell = .scalar (.zstr text) → 0 ∉ text

theorem not_mem_cString (text : List UInt8) : 0 ∉ cString text := fun h => by
  simpa using mem_takeWhile_imp h

namespace Stack

def step (stack : Stack) : Op → Stack
  | .pushUnsigned value => (stack.pushUnsigned value).2
  | .pushSigned value => (stack.pushSigned value).2
  | .pushReal bits => (stack.pushReal bits).2
  | .pushZstr text => (stack.pushZstr text).2
  | .pushBytes data => (stack.pushBytes data).2
  | .pushArr => stack.pushArr.2
  | .pushMap => stack.pushMap.2
  | .pop => stack.pop.2
  | .arrAppend arrIdx elemIdx => (stack.arrAppend arrIdx elemIdx).2
  | .hashSetKv mapIdx keyIdx valIdx => (stack.hashSetKv mapIdx keyIdx valIdx).2
  | .freezeStack =>
    match stack.freezeStack with
    | .ok stack => stack
    | .error _ => stack
  | .setOutFmt fmt => stack.setOutFmt fmt

def run (stack : Stack) (ops : List Op) : Stack := ops.foldl step stack

/-- `hash_set_kv` gets to the insertion of a key. -/
structure SetsKey (stack : Stack) (mapIdx keyIdx valIdx : Nat) (entries : List (Nat × Nat))
    (key : Nat) : Prop where
  opened : stack.finalized = false
  key_lt : mapIdx < keyIdx ∧ keyIdx < stack.elems.length
  val_lt : mapIdx < valIdx ∧ valIdx < stack.elems.length
  table : stack.cell mapIdx = some (.hash entries)
  elem : stack.elems[keyIdx]? = some key
  isKey : stack.heap[key]?.any (·.isKey) = true

/-- What an operation does to the values of a stack. -/
inductive Effect (s : Stack) (op : Op) (t : Stack) : Prop
  | keep : t.heap = s.heap → t.elems = s.elems → Effect s op t
  | push {cell : Cell} : cell.refs = [] → cell.NulFree → t.heap = s.heap ++ [cell] →
      t.elems = s.elems ++ [s.heap.length] → Effect s op t
  | pop : t.heap = s.heap → t.elems = s.elems.dropLast → Effect s op t
  | append {i j arr elem : Nat} {items : List Nat} : i < j → s.elems[i]? = some arr →
      s.elems[j]? = some elem → s.heap[arr]? = some (.array items) →
      t.heap = s.heap.set arr (.array (items ++ [elem])) → t.elems = s.elems → Effect s op t
  | set {i j k map key val : Nat} {entries : List (Nat × Nat)} : op = .hashSetKv i j k →
      s.SetsKey i j k entries key → s.elems[i]? = some map → s.elems[k]? = some val →
      (∀ entry ∈ entries, entry.1 ≠ key) →
      t.heap = s.heap.set map (.hash (entries ++ [(key, val)])) → t.elems = s.elems → Effect s op t

variable {s t stack : Stack} {cell : Cell}

theorem effect_push (stack : Stack) (op : Op) (hrefs : cell.refs = [])
    (hnul : cell.NulFree) : Effect stack op (stack.push cell).2 := by
  rw [push]
  split
  · exact .keep rfl rfl
  · exact .push hrefs hnul rfl rfl

theorem effect_pop (stack : Stack) (op : Op) : Effect stack op stack.pop.2 := by
  rw [pop]
  split
  · exact .keep rfl rfl
  · split
    · exact .keep rfl rfl
    · exact .pop rfl rfl

theorem cell_eq_some {idx a : Nat} (ha : stack.elems[idx]? = some a)
    (hcell : stack.cell idx = some cell) : stack.heap[a]? = some cell := by
  rw [Stack.cell, ha] at hcell
  exact hcell

theorem effect_arrAppend (stack : Stack) (op : Op) (arrIdx elemIdx : Nat) :
    Effect stack op (stack.arrAppend arrIdx elemIdx).2 := by
  rw [arrAppend]
  split
  · exact .keep rfl rfl
  · split
    · exact .keep rfl rfl
    · split
      · exact .keep rfl rfl
      · rename_i hlt
        split
        · exact .keep rfl rfl
        · split
          · rename_i harr helem hcell
            exact .append (Nat.lt_of_not_le hlt) harr helem (cell_eq_some harr hcell) rfl rfl
          · exact .keep rfl rfl

theorem SetsKey.hashSetKv_eq {mapIdx keyIdx valIdx key : Nat} {entries : List (Nat × Nat)}
    (h : stack.SetsKey mapIdx keyIdx valIdx entries key) :
    ∃ map val, stack.elems[mapIdx]? = some map ∧ stack.elems[valIdx]? = some val ∧
      stack.hashSetKv mapIdx keyIdx valIdx =
        if entries.any (·.1 = key) then (.error .duplicateKey, stack)
        else (.ok entries.length,
          { stack with heap := stack.heap.set map (.hash (entries ++ [(key, val)])) }) := by
  obtain ⟨hopened, hkeyIdx, hvalIdx, hentries, hkey, hisKey⟩ := h
  have hne : stack.elems ≠ [] := length_pos_iff.1 (by omega)
  have hmap := getElem?_eq_getElem (show mapIdx < stack.elems.length by omega)
  have hval := getElem?_eq_getElem hvalIdx.2
  have hkeyCell : (stack.cell keyIdx).any (·.isKey) = true := by
    rw [Stack.cell, hkey]
    exact hisKey
  refine ⟨_, _, hmap, hval, ?_⟩
  rw [hashSetKv, if_neg (by simp [hopened]), top, if_neg hne]
  simp only
  rw [if_neg (by omega), if_neg (by omega), hmap, hkey, hval, hentries]
  simp only [hkeyCell, Bool.not_true, Bool.false_eq_true, if_false]

/-- A call that does not get to the insertion changes nothing. -/
theorem hashSetKv_of_not {mapIdx keyIdx valIdx : Nat}
    (h : ∀ entries key, ¬ stack.SetsKey mapIdx keyIdx valIdx entries key) :
    (stack.hashSetKv mapIdx keyIdx valIdx).2 = stack := by
  rw [hashSetKv]
  split
  · rfl
  · rename_i hopened
    split
    · rfl
    · rename_i htop
      rw [top] at htop
      split at htop
      · cases htop
      · cases htop
        split
        · rfl
        · split
          · rfl
          · split
            · rename_i hmap hkey hval htable
              split
              · rfl
              · rename_i hisKey
                rw [Stack.cell, hkey] at hisKey
                exact absurd ⟨by simpa using hopened, by omega, by omega, htable, hkey,
                  by simpa using hisKey⟩ (h _ _)
            · rfl

theorem effect_hashSetKv (stack : Stack) (mapIdx keyIdx valIdx : Nat) :
    Effect stack (.hashSetKv mapIdx keyIdx valIdx) (stack.hashSetKv mapIdx keyIdx valIdx).2 := by
  by_cases hsets : ∃ entries key, stack.SetsKey mapIdx keyIdx valIdx entries key
  · obtain ⟨entries, key, hsets⟩ := hsets
    obtain ⟨map, val, hmap, hval, heq⟩ := hsets.hashSetKv_eq
    rw [heq]
    split
    · exact .keep rfl rfl
    · rename_i hany
      refine .set rfl hsets hmap hval ?_ rfl rfl
      intro entry hentry hkey
      exact hany (any_eq_true.2 ⟨entry, hentry, decide_eq_true hkey⟩)
  · rw [not_exists] at hsets
    rw [hashSetKv_of_not fun entries key h => hsets entries ⟨key, h⟩]
    exact .keep rfl rfl

theorem effect_step (stack : Stack) (op : Op) : Effect stack op (stack.step op) := by
  cases op with
  | pop => exact effect_pop stack _
  | arrAppend arrIdx elemIdx => exact effect_arrAppend stack _ arrIdx elemIdx
  | hashSetKv mapIdx keyIdx valIdx => exact effect_hashSetKv stack mapIdx keyIdx valIdx
  | freezeStack =>
    rw [step, freezeStack]
    split
    · rename_i heq
      split at heq
      · cases heq
      · cases heq
        exact .keep rfl rfl
    · exact .keep rfl rfl
  | setOutFmt => exact .keep rfl rfl
  | pushZstr text =>
    refine effect_push stack _ rfl fun text' heq => ?_
    cases heq
    exact not_mem_cString text
  | _ => exact effect_push stack _ rfl fun text heq => by cases heq

/-! ### The order of creation -/

structure Wf (stack : Stack) : Prop where
  ordered : Ordered stack.heap stack.elems
  keys : ∀ (a : Nat) (entries : List (Nat × Nat)), stack.heap[a]? = some (.hash entries) →
    ∀ entry ∈ entries, stack.heap[entry.1]?.any (·.isKey) = true
  texts : ∀ cell ∈ stack.heap, cell.NulFree

theorem wf_empty (fmt : Fmt) : (empty fmt).Wf :=
  ⟨⟨by simp [empty], by simp [empty], by simp [empty]⟩, by simp [empty], by simp [empty]⟩

theorem Wf.getElem_lt (h : s.Wf) {i j a b : Nat} (hlt : i < j) (ha : s.elems[i]? = some a)
    (hb : s.elems[j]? = some b) : a < b ∧ b < s.heap.length := by
  obtain ⟨hi, rfl⟩ := List.getElem?_eq_some_iff.1 ha
  obtain ⟨hj, rfl⟩ := List.getElem?_eq_some_iff.1 hb
  exact ⟨pairwise_iff_getElem.1 h.ordered.sorted i j hi hj hlt,
    h.ordered.bound _ (getElem_mem hj)⟩

/-- A key stays one: only arrays and hashtables are changed. -/
theorem isKey_set {heap : List Cell} {a x : Nat} {cell' : Cell} (hcell : heap[x]? = some cell)
    (hkey : cell.isKey = false) (h : heap[a]?.any (·.isKey) = true) :
    (heap.set x cell')[a]?.any (·.isKey) = true := by
  have hne : x ≠ a := by
    rintro rfl
    rw [hcell, Option.any_some, hkey] at h
    cases h
  rwa [getElem?_set_ne hne]

/-- An array or a hashtable has no text. -/
theorem Wf.texts_set (h : s.Wf) {x : Nat} (hcell : cell.NulFree) :
    ∀ cell' ∈ s.heap.set x cell, cell'.NulFree := by
  intro cell' hmem
  rcases mem_or_eq_of_mem_set hmem with hmem | rfl
  · exact h.texts cell' hmem
  · exact hcell

theorem Wf.step (h : s.Wf) {op : Op} (heffect : Effect s op t) : t.Wf := by
  cases heffect with
  | keep hheap helems =>
    refine ⟨?_, ?_, ?_⟩
    · rw [hheap, helems]
      exact h.ordered
    · rw [hheap]
      exact h.keys
    · rw [hheap]
      exact h.texts
  | @push cell hrefs hnul hheap helems =>
    refine ⟨by rw [hheap, helems]; exact h.ordered.push hrefs, ?_, ?_⟩
    · rw [hheap]
      intro a entries hcell entry hentry
      have hmem := (mem_refs_of_mem hentry).1
      have hold := getElem?_of_mem_refs hrefs hcell hmem
      rw [getElem?_append_left (h.ordered.forward a _ hold _ hmem).2]
      exact h.keys a entries hold entry hentry
    · rw [hheap]
      exact forall_mem_append.2 ⟨h.texts, forall_mem_singleton.2 hnul⟩
  | pop hheap helems =>
    refine ⟨?_, ?_, ?_⟩
    · rw [hheap, helems]
      exact h.ordered.sublist (dropLast_sublist _)
    · rw [hheap]
      exact h.keys
    · rw [hheap]
      exact h.texts
  | append hlt harr helem hcell hheap helems =>
    refine ⟨?_, ?_, by rw [hheap]; exact h.texts_set fun text heq => by cases heq⟩
    · rw [hheap, helems]
      refine h.ordered.set hcell fun r hr => (mem_append.1 hr).imp_right fun hr => ?_
      rw [mem_singleton.1 hr]
      exact h.getElem_lt hlt harr helem
    · rw [hheap]
      intro a entries ha entry hentry
      obtain ⟨-, ⟨⟩⟩ | ⟨-, ha⟩ := eq_or_getElem?_of_set ha
      exact isKey_set hcell rfl (h.keys a entries ha entry hentry)
  | @set i j k map key val entries hop hsets hmap hval hfresh hheap helems =>
    have hcell := cell_eq_some hmap hsets.table
    refine ⟨?_, ?_, by rw [hheap]; exact h.texts_set fun text heq => by cases heq⟩
    · rw [hheap, helems]
      refine h.ordered.set hcell fun r hr => ?_
      simp only [Cell.refs, flatMap_append, mem_append] at hr
      refine hr.imp_right fun hr => ?_
      obtain rfl | rfl : r = key ∨ r = val := by simpa using hr
      · exact h.getElem_lt hsets.key_lt.1 hmap hsets.elem
      · exact h.getElem_lt hsets.val_lt.1 hmap hval
    · rw [hheap]
      intro a entries' ha entry hentry
      refine isKey_set hcell rfl ?_
      obtain ⟨-, heq⟩ | ⟨-, ha⟩ := eq_or_getElem?_of_set ha
      · rw [Cell.hash.injEq] at heq
        rw [heq, mem_append, mem_singleton] at hentry
        rcases hentry with hentry | rfl
        · exact h.keys map entries hcell entry hentry
        · exact hsets.isKey
      · exact h.keys a entries' ha entry hentry

theorem Wf.run (h : s.Wf) (ops : List Op) : (s.run ops).Wf := by
  induction ops generalizing s with
  | nil => exact h
  | cons op ops ih => exact ih (h.step (effect_step s op))

end Stack

/-! ### No cycles -/

/-- A value is an item, a key or a value of another. -/
def Contains (heap : List Cell) (a b : Nat) : Prop := ∃ cell, heap[a]? = some cell ∧ b ∈ cell.refs

section

variable {heap : List Cell} {elems : List Nat} {a b : Nat}

section

variable (h : Ordered heap elems)
include h

theorem Ordered.lt_of_contains (hab : Relation.TransGen (Contains heap) a b) :
    a < b := by
  induction hab with
  | single hstep =>
    obtain ⟨cell, hcell, hmem⟩ := hstep
    exact (h.forward _ cell hcell _ hmem).1
  | tail _ hstep ih =>
    obtain ⟨cell, hcell, hmem⟩ := hstep
    exact ih.trans (h.forward _ cell hcell _ hmem).1

/-- By induction on the number of cells that are created later. -/
theorem Ordered.exists_denotes {n : Nat} (ha : a < heap.length)
    (hn : heap.length ≤ a + n) : ∃ t, Denotes heap a t := by
  induction n generalizing a with
  | zero => omega
  | succ n ih =>
    have hrefs {cell : Cell} (hcell : heap[a]? = some cell) {r : Nat} (hr : r ∈ cell.refs) :
        ∃ t, Denotes heap r t := by
      have := h.forward a cell hcell r hr
      exact ih this.2 (by omega)
    cases hcell : heap[a] with
    | scalar => exact ⟨_, .scalar (List.getElem?_eq_some_iff.2 ⟨ha, hcell⟩)⟩
    | array items =>
      replace hcell := List.getElem?_eq_some_iff.2 ⟨ha, hcell⟩
      obtain ⟨ts, hts⟩ := exists_forall₂ (fun r hr => hrefs hcell hr)
      exact ⟨.array ts, denotes_array_iff.2 ⟨items, hcell, hts⟩⟩
    | hash entries =>
      replace hcell := List.getElem?_eq_some_iff.2 ⟨ha, hcell⟩
      have hentries : ∀ entry ∈ entries, ∃ t : Tree × Tree,
          Denotes heap entry.1 t.1 ∧ Denotes heap entry.2 t.2 := by
        intro entry hentry
        obtain ⟨key, hkey⟩ := hrefs hcell (mem_refs_of_mem hentry).1
        obtain ⟨val, hval⟩ := hrefs hcell (mem_refs_of_mem hentry).2
        exact ⟨(key, val), hkey, hval⟩
      obtain ⟨ts, hts⟩ := exists_forall₂ hentries
      exact ⟨.hash ts, denotes_hash_iff.2 ⟨entries, hcell, hts⟩⟩

theorem Ordered.forall₂_denotes :
    ∃ ts, List.Forall₂ (Denotes heap) elems ts :=
  exists_forall₂ fun e he => h.exists_denotes (h.bound e he) (Nat.le_add_left ..)

theorem rawElement_ok (endianness : Endian) {depth : Nat}
    (ha : a < heap.length) (hdepth : heap.length ≤ a + depth) :
    ∃ bytes, rawElement heap endianness depth a = .ok bytes := by
  induction depth generalizing a with
  | zero => omega
  | succ depth ih =>
    have hrefs {cell : Cell} (hcell : heap[a]? = some cell) {r : Nat} (hr : r ∈ cell.refs) :
        ∃ bytes, rawElement heap endianness depth r = .ok bytes := by
      have := h.forward a cell hcell r hr
      exact ih this.2 (by omega)
    rw [rawElement]
    cases hcell : heap[a] with
    | scalar =>
      rw [List.getElem?_eq_some_iff.2 ⟨ha, hcell⟩]
      exact ⟨_, rfl⟩
    | array items =>
      replace hcell := List.getElem?_eq_some_iff.2 ⟨ha, hcell⟩
      have hitems : ∀ r ∈ items, ∃ bytes, rawElement heap endianness depth r = .ok bytes :=
        fun r hr => hrefs hcell hr
      obtain ⟨parts, hparts⟩ := exists_forall₂ hitems
      simp only [hcell, mapM_ok hparts]
      exact ⟨_, rfl⟩
    | hash entries =>
      replace hcell := List.getElem?_eq_some_iff.2 ⟨ha, hcell⟩
      have hentries : ∀ entry ∈ entries, ∃ bytes, (do
          return (← rawElement heap endianness depth entry.1) ++
            (← rawElement heap endianness depth entry.2) : Result (List UInt8)) = .ok bytes := by
        intro entry hentry
        obtain ⟨key, hkey⟩ := hrefs hcell (mem_refs_of_mem hentry).1
        obtain ⟨val, hval⟩ := hrefs hcell (mem_refs_of_mem hentry).2
        rw [hkey, hval]
        exact ⟨_, rfl⟩
      obtain ⟨parts, hparts⟩ := exists_forall₂ hentries
      simp only [hcell, mapM_ok hparts]
      exact ⟨_, rfl⟩

end

end

namespace Stack

variable {stack : Stack}

theorem Wf.serializeRaw_ok (h : stack.Wf) (endianness : Endian) :
    ∃ bytes, serializeRaw stack endianness = .ok bytes := by
  obtain ⟨parts, hparts⟩ := exists_forall₂ fun e he =>
    rawElement_ok h.ordered endianness (h.ordered.bound e he) (Nat.le_add_left ..)
  rw [serializeRaw, mapM_ok hparts]
  exact ⟨_, rfl⟩

theorem Wf.serializeMsgPack_ok (h : stack.Wf) : ∃ bytes, serializeMsgPack stack = .ok bytes := by
  obtain ⟨ts, hts⟩ := h.ordered.forall₂_denotes
  exact ⟨_, serializeMsgPack_eq h.ordered hts⟩

theorem Wf.finalizeStack_ok (h : stack.Wf) (endianness : Endian) :
    ∃ bytes, Context.finalizeStack stack endianness = .ok bytes := by
  rw [Context.finalizeStack]
  split
  · exact h.serializeRaw_ok endianness
  · exact h.serializeMsgPack_ok
  · exact ⟨_, rfl⟩

end Stack

/-- After every sequence of operations no value contains itself, and the serializers, whose recursion
is bounded by the number of values here, end. -/
theorem acyclic_run (fmt : Fmt) (ops : List Op) :
    (∀ a, ¬ Relation.TransGen (Contains ((Stack.empty fmt).run ops).heap) a a) ∧
      (∀ endianness, ∃ bytes, serializeRaw ((Stack.empty fmt).run ops) endianness = .ok bytes) ∧
      (∃ bytes, serializeMsgPack ((Stack.empty fmt).run ops) = .ok bytes) ∧
      ∀ endianness, ∃ bytes,
        Context.finalizeStack ((Stack.empty fmt).run ops) endianness = .ok bytes := by
  have h := (Stack.wf_empty fmt).run ops
  refine ⟨fun a ha => ?_, h.serializeRaw_ok, h.serializeMsgPack_ok, h.finalizeStack_ok⟩
  exact Nat.lt_irrefl a (h.ordered.lt_of_contains ha)

/-! ### Reading -/

namespace Stack

/-- A stack is the result of operations on another. -/
def Reaches (s t : Stack) : Prop := ∃ ops, t = s.run ops

variable {s t u : Stack}

theorem Reaches.refl (s : Stack) : s.Reaches s := ⟨[], rfl⟩

theorem Reaches.trans (h : s.Reaches t) (h' : t.Reaches u) : s.Reaches u := by
  obtain ⟨ops, rfl⟩ := h
  obtain ⟨ops', rfl⟩ := h'
  exact ⟨ops ++ ops', (foldl_append ..).symm⟩

theorem Reaches.step (h : s.Reaches t) (op : Op) : s.Reaches (t.step op) := h.trans ⟨[op], rfl⟩

end Stack

section

open Stack

variable {next : Stack × List UInt8 → Result (Stack × List UInt8)} {state state' : Stack × List UInt8}

section Next

variable (hnext : ∀ {state state'}, next state = .ok state' → state.1.Reaches state'.1)

include hnext

theorem repeatM_reaches {n : Nat} (h : repeatM next n state = .ok state') : state.1.Reaches state'.1 := by
  induction n generalizing state with
  | zero =>
    cases h
    exact .refl _
  | succ n ih =>
    obtain ⟨middle, hmiddle, hrest⟩ := bind_eq_ok h
    exact (hnext hmiddle).trans (ih hrest)

theorem arrayItem_reaches {arrIdx : Nat} (h : arrayItem next arrIdx state = .ok state') : state.1.Reaches state'.1 := by
  obtain ⟨⟨stack, data⟩, hstack, h⟩ := bind_eq_ok h
  obtain ⟨top, -, h⟩ := bind_eq_ok h
  cases h
  exact ((hnext hstack).step (.arrAppend arrIdx top)).step .pop

theorem mapEntry_reaches {mapIdx : Nat} (h : mapEntry next mapIdx state = .ok state') : state.1.Reaches state'.1 := by
  obtain ⟨key, hkey, h⟩ := bind_eq_ok h
  obtain ⟨⟨stack, data⟩, hstack, h⟩ := bind_eq_ok h
  obtain ⟨top, -, h⟩ := bind_eq_ok h
  cases h
  have hreaches := (hnext hkey).trans (hnext hstack)
  exact ((hreaches.step (.hashSetKv mapIdx (top - 1) top)).step .pop).step .pop

end Next

theorem nextElement_reaches {element : Stack → UInt8 → List UInt8 → Result (Stack × List UInt8)}
    (helement : ∀ {stack tag data stack' data'}, element stack tag data = .ok (stack', data') →
      stack.Reaches stack') (h : nextElement element state = .ok state') :
    state.1.Reaches state'.1 := by
  obtain ⟨stack, data⟩ := state
  cases data with
  | nil => cases h
  | cons => exact helement h

variable {stack stack' : Stack} {data data' block : List UInt8} {n : Nat}

theorem reaches_of_number (op : Nat → Op) (h : (do
      let (val, data) ← readBig n data
      return (stack.step (op val), data)) = .ok (stack', data')) : stack.Reaches stack' := by
  obtain ⟨⟨val, data⟩, -, h⟩ := bind_eq_ok h
  cases h
  exact (Reaches.refl _).step (op val)

theorem reaches_of_bytes (op : List UInt8 → Op) (h : (do
      let (len, data) ← readBig n data
      let (bytes, data) ← readBytes len data
      return (stack.step (op bytes), data)) = .ok (stack', data')) : stack.Reaches stack' := by
  obtain ⟨⟨len, data⟩, -, h⟩ := bind_eq_ok h
  obtain ⟨⟨bytes, data⟩, -, h⟩ := bind_eq_ok h
  cases h
  exact (Reaches.refl _).step (op bytes)

theorem deserializeElement_reaches {depth : Nat} {fmt : UInt8}
    (h : deserializeElement depth stack fmt data = .ok (stack', data')) :
    stack.Reaches stack' := by
  induction depth generalizing stack fmt data stack' data' with
  | zero => cases h
  | succ depth ih =>
    have hnext {state state' : Stack × List UInt8}
        (h : nextElement (deserializeElement depth) state = .ok state') :
        state.1.Reaches state'.1 := nextElement_reaches ih h
    rw [deserializeElement] at h
    split at h
    · exact reaches_of_number (fun val => .pushUnsigned (.ofNat val)) h
    split at h
    · exact reaches_of_number (fun val => .pushSigned (.ofUInt64 (.ofNat val))) h
    split at h
    · exact reaches_of_number (fun val => .pushReal (.ofNat val)) h
    split at h
    · exact reaches_of_bytes .pushBytes h
    split at h
    · exact reaches_of_bytes .pushBytes h
    split at h
    · exact reaches_of_bytes .pushZstr h
    split at h
    · obtain ⟨⟨len, data⟩, -, h⟩ := bind_eq_ok h
      obtain ⟨arrIdx, -, h⟩ := bind_eq_ok h
      exact ((Reaches.refl _).step .pushArr).trans
        (repeatM_reaches (fun h => arrayItem_reaches hnext h) h)
    split at h
    · obtain ⟨⟨len, data⟩, -, h⟩ := bind_eq_ok h
      obtain ⟨mapIdx, -, h⟩ := bind_eq_ok h
      exact ((Reaches.refl _).step .pushMap).trans
        (repeatM_reaches (fun h => mapEntry_reaches hnext h) h)
    cases h

theorem deserializeLoop_reaches {blockLen fuel : Nat}
    (h : deserializeLoop block blockLen fuel stack data = .ok stack') : stack.Reaches stack' := by
  induction fuel generalizing stack data with
  | zero => cases h
  | succ fuel ih =>
    rw [deserializeLoop] at h
    split at h
    · obtain ⟨⟨stack₁, data₁⟩, hnext, hrest⟩ := bind_eq_ok h
      exact (nextElement_reaches deserializeElement_reaches hnext).trans (ih hrest)
    · cases h
      exact .refl _

/-- Reading a block is a sequence of operations on a new stack. -/
theorem deserializeBlock_reaches {fmt : Fmt} {size : Nat}
    (h : deserializeBlock fmt block size = .ok stack) : (Stack.empty fmt).Reaches stack := by
  cases fmt with
  | rawBytes =>
    obtain ⟨⟨data, rest⟩, -, h⟩ := bind_eq_ok h
    cases h
    exact (Reaches.refl _).step (.pushBytes data)
  | msgpack => exact deserializeLoop_reaches h
  | json => cases h
  | llvmBcMd => cases h
  | llvmTextMd => cases h

end

end ConstructionKit.Metadata
