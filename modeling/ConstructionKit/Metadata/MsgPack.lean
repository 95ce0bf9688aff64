import ConstructionKit.Metadata.Serializer
import ConstructionKit.Metadata.Tree
import ConstructionKit.ProofKit.Monadic
import Mathlib.Data.List.TakeWhile

/-! The serializers on trees: what is written for a tree is read as that tree. -/

namespace ConstructionKit.Metadata

open ProofKit List

/-! ### Writing -/

mutual

def Tree.msgPack : Tree → List UInt8
  | .scalar value => msgPackScalar value
  | .array items =>
    MsgPackFmt.arr16 :: serializeNumber 2 items.length .big ++ msgPackItems items
  | .hash entries =>
    MsgPackFmt.map16 :: serializeNumber 2 entries.length .big ++ msgPackEntries entries

def msgPackItems : List Tree → List UInt8
  | [] => []
  | t :: ts => t.msgPack ++ msgPackItems ts

def msgPackEntries : List (Tree × Tree) → List UInt8
  | [] => []
  | (key, val) :: entries => key.msgPack ++ val.msgPack ++ msgPackEntries entries

end

theorem msgPackItems_eq (ts : List Tree) : msgPackItems ts = (ts.map Tree.msgPack).flatten := by
  induction ts with
  | nil => rfl
  | cons t ts ih => rw [msgPackItems, ih, map_cons, flatten_cons]

theorem msgPackEntries_eq (entries : List (Tree × Tree)) : msgPackEntries entries =
    (entries.map fun entry => entry.1.msgPack ++ entry.2.msgPack).flatten := by
  induction entries with
  | nil => rfl
  | cons entry entries ih => rw [msgPackEntries, ih, map_cons, flatten_cons]

section

variable {heap : List Cell}

/-- References lead forward, so the number of cells bounds the depth. -/
theorem serializeElement_eq
    (hforward : ∀ (a : Nat) (cell : Cell), heap[a]? = some cell → ∀ r ∈ cell.refs, a < r)
    {a : Nat} {t : Tree} (h : Denotes heap a t) {depth : Nat} (hdepth : heap.length ≤ a + depth) :
    serializeElement heap depth a = .ok t.msgPack := by
  induction h generalizing depth with
  | scalar hcell =>
    obtain ⟨hlt, -⟩ := List.getElem?_eq_some_iff.1 hcell
    rcases depth with _ | depth
    · omega
    rw [serializeElement, hcell, Tree.msgPack]
  | @array a items ts hcell hlength _ ih =>
    obtain ⟨hlt, -⟩ := List.getElem?_eq_some_iff.1 hcell
    rcases depth with _ | depth
    · omega
    have hparts : items.mapM (serializeElement heap depth) = .ok (ts.map Tree.msgPack) := by
      refine mapM_ok (forall₂_map_right_iff.2 (forall₂_iff_zip.2 ⟨hlength, ?_⟩))
      intro r t hmem
      have := hforward a _ hcell r (mem_refs_of_mem_zip hmem)
      exact ih _ hmem (by omega)
    rw [serializeElement, hcell, Tree.msgPack, msgPackItems_eq, ← hlength]
    simp only [hparts]
    rfl
  | @hash a entries ts hcell hlength _ _ ihkeys ihvals =>
    obtain ⟨hlt, -⟩ := List.getElem?_eq_some_iff.1 hcell
    rcases depth with _ | depth
    · omega
    have hparts : ∀ entry part, (entry, part) ∈ entries.zip ts → (do
        return (← serializeElement heap depth entry.1) ++ (← serializeElement heap depth entry.2)) =
          Except.ok (part.1.msgPack ++ part.2.msgPack) := by
      rintro ⟨key, val⟩ ⟨t, t'⟩ hmem
      obtain ⟨hkey, hval⟩ := mem_refs_of_mem_zip_entries hmem
      have hkey : a < key := hforward a _ hcell _ hkey
      have hval : a < val := hforward a _ hcell _ hval
      have hkey' : serializeElement heap depth key = .ok t.msgPack :=
        ihkeys _ hmem (show heap.length ≤ key + depth by omega)
      have hval' : serializeElement heap depth val = .ok t'.msgPack :=
        ihvals _ hmem (show heap.length ≤ val + depth by omega)
      dsimp only
      rw [hkey', hval']
      rfl
    rw [serializeElement, hcell, Tree.msgPack, msgPackEntries_eq, ← hlength]
    dsimp only
    rw [mapM_ok (forall₂_map_right_iff.2 (forall₂_iff_zip.2 ⟨hlength, hparts _ _⟩))]
    rfl

end

variable {ts : List Tree} {stack : Stack}

theorem serializeMsgPack_eq (hordered : Ordered stack.heap stack.elems)
    (hdenotes : List.Forall₂ (Denotes stack.heap) stack.elems ts) :
    serializeMsgPack stack = .ok (msgPackItems ts) := by
  have hparts : stack.elems.mapM (serializeElement stack.heap stack.heap.length) =
      .ok (ts.map Tree.msgPack) := by
    refine mapM_ok (forall₂_map_right_iff.2 (hdenotes.imp fun a t h => ?_))
    refine serializeElement_eq (fun b cell hcell r hr => ?_) h (by omega)
    exact (hordered.forward b cell hcell r hr).1
  rw [serializeMsgPack, hparts, msgPackItems_eq]
  rfl

/-! ### Reading -/

/-- The limits of the format. -/
def Scalar.Fits : Scalar → Prop
  | zstr text => text.length ≤ 0xffff ∧ 0 ∉ text
  | bytes data => data.length < 2 ^ 32
  | _ => True

inductive Tree.Fits : Tree → Prop
  | scalar {value : Scalar} : value.Fits → Fits (.scalar value)
  | array {items : List Tree} : items.length ≤ 0xffff → (∀ t ∈ items, Fits t) →
      Fits (.array items)
  | hash {entries : List (Tree × Tree)} : entries.length ≤ 0xffff →
      (∀ entry ∈ entries, entry.1.isKey = true) → (∀ entry ∈ entries, Fits entry.1) →
      (∀ entry ∈ entries, Fits entry.2) → Fits (.hash entries)

theorem length_serializeNumber (width num : Nat) (endianness : Endian) :
    (serializeNumber width num endianness).length = width := by
  unfold serializeNumber
  split
  · rw [length_reverse, length_leBytes]
  · rw [length_leBytes]

theorem readBytes_append (bytes rest : List UInt8) :
    readBytes bytes.length (bytes ++ rest) = .ok (bytes, rest) := by
  rw [readBytes, if_pos (by simp), take_left, drop_left]

theorem readValue_serializeNumber {width val : Nat} (h : val < 256 ^ width) (endianness : Endian) :
    readValue (serializeNumber width val endianness) endianness = val := by
  cases endianness with
  | little =>
    show leNat (leBytes width val) = val
    rw [leNat_leBytes, Nat.mod_eq_of_lt h]
  | big =>
    show leNat (leBytes width val).reverse.reverse = val
    rw [reverse_reverse, leNat_leBytes, Nat.mod_eq_of_lt h]

theorem readBig_append (width : Nat) {num : Nat} (hnum : num < 256 ^ width) (rest : List UInt8) :
    readBig width (serializeNumber width num .big ++ rest) = .ok (num, rest) := by
  have hread := readBytes_append (serializeNumber width num .big) rest
  rw [length_serializeNumber] at hread
  rw [readBig, hread]
  show Except.ok (readValue (serializeNumber width num .big) .big, rest) = _
  rw [readValue_serializeNumber hnum]

theorem cString_eq_self {text : List UInt8} (h : 0 ∉ text) : cString text = text :=
  takeWhile_eq_self_iff.2 fun _ hb => decide_eq_true fun heq => h (heq ▸ hb)

theorem deserializeElement_scalar {value : Scalar} (hfits : value.Fits) :
    ∃ tag body, msgPackScalar value = tag :: body ∧ ∀ depth stack rest,
      deserializeElement (depth + 1) stack tag (body ++ rest) =
        .ok ((stack.push (.scalar value)).2, rest) := by
  cases value with
  | uint value =>
    refine ⟨_, _, rfl, fun depth stack rest => ?_⟩
    have hread := readBig_append 8 value.toNat_lt rest
    rw [deserializeElement, hread]
    show Except.ok ((stack.pushUnsigned (.ofNat value.toNat)).2, rest) = _
    rw [UInt64.ofNat_toNat]
    rfl
  | sint value =>
    refine ⟨_, _, rfl, fun depth stack rest => ?_⟩
    have hread := readBig_append 8 value.toUInt64.toNat_lt rest
    rw [deserializeElement, hread]
    show Except.ok ((stack.pushSigned (.ofUInt64 (.ofNat value.toUInt64.toNat))).2, rest) = _
    rw [UInt64.ofNat_toNat]
    rfl
  | real bits =>
    refine ⟨_, _, rfl, fun depth stack rest => ?_⟩
    have hread := readBig_append 8 bits.toNat_lt rest
    rw [deserializeElement, hread]
    show Except.ok ((stack.pushReal (.ofNat bits.toNat)).2, rest) = _
    rw [UInt64.ofNat_toNat]
    rfl
  | zstr text =>
    refine ⟨MsgPackFmt.str16, serializeNumber 2 text.length .big ++ text, rfl,
      fun depth stack rest => ?_⟩
    have hlength : text.length < 256 ^ 2 := Nat.lt_of_le_of_lt hfits.1 (by decide)
    have hread := readBig_append 2 hlength (text ++ rest)
    rw [deserializeElement, append_assoc, hread]
    show (do
      let read ← readBytes text.length (text ++ rest)
      return ((stack.pushZstr read.1).2, read.2)) = _
    rw [readBytes_append]
    show Except.ok ((stack.push (.scalar (.zstr (cString text)))).2, rest) = _
    rw [cString_eq_self hfits.2]
  | bytes data =>
    have hbytes (stack : Stack) (rest : List UInt8) : (do
        let read ← readBytes data.length (data ++ rest)
        return ((stack.pushBytes read.1).2, read.2)) =
          .ok ((stack.push (.scalar (.bytes data))).2, rest) := by
      rw [readBytes_append]
      rfl
    by_cases hlong : data.length ≥ 0xffff
    · refine ⟨MsgPackFmt.bin32, serializeNumber 4 data.length .big ++ data, if_pos hlong,
        fun depth stack rest => ?_⟩
      have hlength : data.length < 256 ^ 4 := hfits
      rw [deserializeElement, append_assoc, readBig_append 4 hlength (data ++ rest)]
      exact hbytes stack rest
    · refine ⟨MsgPackFmt.bin16, serializeNumber 2 data.length .big ++ data, if_neg hlong,
        fun depth stack rest => ?_⟩
      have hlength : data.length < 256 ^ 2 := by omega
      rw [deserializeElement, append_assoc, readBig_append 2 hlength (data ++ rest)]
      exact hbytes stack rest

/-- What is written for a tree is read as that tree, whatever follows. -/
def Decodes (t : Tree) : Prop :=
  ∃ tag body, t.msgPack = tag :: body ∧ ∀ depth stack fmt ts rest, t.msgPack.length ≤ depth →
    stack.Open fmt ts → ∃ stack', deserializeElement depth stack tag (body ++ rest) =
      .ok (stack', rest) ∧ stack'.Open fmt (ts ++ [t])

section

variable {fmt : Fmt} {depth : Nat} {t : Tree} {entries : List (Tree × Tree)} {items : List Tree}

theorem Decodes.next (h : Decodes t) (hdepth : t.msgPack.length ≤ depth) (hopen : stack.Open fmt ts)
    (rest : List UInt8) :
    ∃ stack', nextElement (deserializeElement depth) (stack, t.msgPack ++ rest) =
      .ok (stack', rest) ∧ stack'.Open fmt (ts ++ [t]) := by
  obtain ⟨tag, body, heq, hdecodes⟩ := h
  obtain ⟨stack', hread, hopen'⟩ := hdecodes depth stack fmt ts rest hdepth hopen
  rw [heq]
  exact ⟨stack', hread, hopen'⟩

theorem Decodes.arrayItem (h : Decodes t) (hdepth : t.msgPack.length ≤ depth)
    (hopen : stack.Open fmt (ts ++ [.array items])) (rest : List UInt8) :
    ∃ stack', arrayItem (nextElement (deserializeElement depth)) ts.length
      (stack, t.msgPack ++ rest) = .ok (stack', rest) ∧
        stack'.Open fmt (ts ++ [.array (items ++ [t])]) := by
  obtain ⟨stack₁, hread, hopen₁⟩ := h.next hdepth hopen rest
  rw [append_assoc] at hopen₁
  obtain ⟨stack₂, happend, hopen₂⟩ := hopen₁.append_pop
  have htop : stack₁.top = .ok (ts.length + 1) := by
    rw [hopen₁.top_eq (by simp)]
    simp
  refine ⟨stack₂.pop.2, ?_, hopen₂⟩
  rw [Metadata.arrayItem, hread]
  show (do
    let stack := (stack₁.arrAppend ts.length (← value stack₁.top)).2
    return (stack.pop.2, rest)) = _
  rw [htop]
  show Except.ok ((stack₁.arrAppend ts.length (ts.length + 1)).2.pop.2, rest) = _
  rw [happend]

theorem arrayItems {more : List Tree} (h : ∀ t ∈ more, Decodes t)
    (hdepth : ∀ t ∈ more, t.msgPack.length ≤ depth)
    (hopen : stack.Open fmt (ts ++ [.array items])) (rest : List UInt8) :
    ∃ stack', repeatM (arrayItem (nextElement (deserializeElement depth)) ts.length) more.length
      (stack, msgPackItems more ++ rest) = .ok (stack', rest) ∧
        stack'.Open fmt (ts ++ [.array (items ++ more)]) := by
  induction more generalizing stack items with
  | nil => exact ⟨stack, rfl, by rwa [append_nil]⟩
  | cons t more ih =>
    rw [forall_mem_cons] at h hdepth
    rw [msgPackItems, append_assoc]
    obtain ⟨stack₁, hitem, hopen₁⟩ := h.1.arrayItem hdepth.1 hopen (msgPackItems more ++ rest)
    obtain ⟨stack₂, hrest, hopen₂⟩ := ih h.2 hdepth.2 hopen₁
    rw [append_assoc] at hopen₂
    refine ⟨stack₂, ?_, hopen₂⟩
    rw [length_cons, repeatM, hitem]
    exact hrest

theorem Decodes.mapEntry {key val : Tree} (hkey : Decodes key) (hval : Decodes val)
    (hisKey : key.isKey = true)
    (hdepth : key.msgPack.length ≤ depth) (hdepth' : val.msgPack.length ≤ depth)
    (hopen : stack.Open fmt (ts ++ [.hash entries])) (rest : List UInt8) :
    ∃ stack', mapEntry (nextElement (deserializeElement depth)) ts.length
      (stack, key.msgPack ++ (val.msgPack ++ rest)) = .ok (stack', rest) ∧
        stack'.Open fmt (ts ++ [.hash (entries ++ [(key, val)])]) := by
  obtain ⟨stack₁, hread₁, hopen₁⟩ := hkey.next hdepth hopen (val.msgPack ++ rest)
  obtain ⟨stack₂, hread₂, hopen₂⟩ := hval.next hdepth' hopen₁ rest
  rw [append_assoc, append_assoc] at hopen₂
  obtain ⟨stack₃, hset, hopen₃⟩ := hopen₂.set_pop hisKey
  have htop : stack₂.top = .ok (ts.length + 2) := by
    rw [hopen₂.top_eq (by simp)]
    simp
  refine ⟨stack₃.pop.2.pop.2, ?_, hopen₃⟩
  rw [Metadata.mapEntry, hread₁]
  show (do
    let next ← nextElement (deserializeElement depth) (stack₁, val.msgPack ++ rest)
    let top ← value next.1.top
    let stack := (next.1.hashSetKv ts.length (top - 1) top).2
    return (stack.pop.2.pop.2, next.2)) = _
  rw [hread₂]
  show (do
    let top ← value stack₂.top
    let stack := (stack₂.hashSetKv ts.length (top - 1) top).2
    return (stack.pop.2.pop.2, rest)) = _
  rw [htop]
  show Except.ok ((stack₂.hashSetKv ts.length (ts.length + 1) (ts.length + 2)).2.pop.2.pop.2,
    rest) = _
  rw [hset]

theorem mapEntries {more : List (Tree × Tree)} (hkey : ∀ entry ∈ more, Decodes entry.1)
    (hval : ∀ entry ∈ more, Decodes entry.2) (hisKey : ∀ entry ∈ more, entry.1.isKey = true)
    (hdepth : ∀ entry ∈ more,
      entry.1.msgPack.length ≤ depth ∧ entry.2.msgPack.length ≤ depth)
    (hopen : stack.Open fmt (ts ++ [.hash entries])) (rest : List UInt8) :
    ∃ stack', repeatM (mapEntry (nextElement (deserializeElement depth)) ts.length) more.length
      (stack, msgPackEntries more ++ rest) = .ok (stack', rest) ∧
        stack'.Open fmt (ts ++ [.hash (entries ++ more)]) := by
  induction more generalizing stack entries with
  | nil => exact ⟨stack, rfl, by rwa [append_nil]⟩
  | cons entry more ih =>
    rw [forall_mem_cons] at hkey hval hisKey hdepth
    rw [msgPackEntries, append_assoc, append_assoc]
    obtain ⟨stack₁, hentry, hopen₁⟩ := hkey.1.mapEntry hval.1 hisKey.1 hdepth.1.1 hdepth.1.2 hopen
      (msgPackEntries more ++ rest)
    obtain ⟨stack₂, hrest, hopen₂⟩ := ih hkey.2 hval.2 hisKey.2 hdepth.2 hopen₁
    rw [append_assoc] at hopen₂
    refine ⟨stack₂, ?_, hopen₂⟩
    rw [length_cons, repeatM, hentry]
    exact hrest

theorem length_msgPack_le (hmem : t ∈ items) : t.msgPack.length ≤ (msgPackItems items).length := by
  rw [msgPackItems_eq]
  exact (sublist_flatten_of_mem (mem_map_of_mem hmem)).length_le

theorem length_msgPack_le_entries {entry : Tree × Tree}
    (hmem : entry ∈ entries) : entry.1.msgPack.length ≤ (msgPackEntries entries).length ∧
      entry.2.msgPack.length ≤ (msgPackEntries entries).length := by
  have hle : (entry.1.msgPack ++ entry.2.msgPack).length ≤ (msgPackEntries entries).length := by
    rw [msgPackEntries_eq]
    exact (sublist_flatten_of_mem (mem_map_of_mem
      (f := fun entry : Tree × Tree => entry.1.msgPack ++ entry.2.msgPack) hmem)).length_le
  rw [length_append] at hle
  omega

end

/-- By induction over the tree; the bytes of a part are fewer than those of the whole. -/
theorem Tree.Fits.decodes {t : Tree} (h : t.Fits) : Decodes t := by
  induction h with
  | scalar hfits =>
    obtain ⟨tag, body, heq, hread⟩ := deserializeElement_scalar hfits
    refine ⟨tag, body, by rw [Tree.msgPack, heq], ?_⟩
    intro depth stack fmt ts rest hdepth hopen
    rw [Tree.msgPack, heq, length_cons] at hdepth
    rcases depth with _ | depth
    · omega
    obtain ⟨stack', hpush, hopen'⟩ := hopen.push_scalar _
    exact ⟨stack', by rw [hread, hpush], hopen'⟩
  | @array items hlength _ ih =>
    refine ⟨MsgPackFmt.arr16, serializeNumber 2 items.length .big ++ msgPackItems items,
      by rw [Tree.msgPack]; rfl, ?_⟩
    intro depth stack fmt ts rest hdepth hopen
    rw [Tree.msgPack, cons_append, length_cons, length_append] at hdepth
    rcases depth with _ | depth
    · omega
    obtain ⟨stack₁, hpush, hopen₁⟩ := hopen.push_arr
    have hdepth' : ∀ t ∈ items, t.msgPack.length ≤ depth :=
      fun t ht => (length_msgPack_le ht).trans (by omega)
    obtain ⟨stack₂, hitems, hopen₂⟩ := arrayItems ih hdepth' hopen₁ rest
    refine ⟨stack₂, ?_, hopen₂⟩
    rw [deserializeElement, if_neg (by decide), append_assoc,
      readBig_append 2 (Nat.lt_of_le_of_lt hlength (by decide))]
    rw [hpush]
    exact hitems
  | @hash entries hlength hisKey _ _ ihkeys ihvals =>
    refine ⟨MsgPackFmt.map16, serializeNumber 2 entries.length .big ++ msgPackEntries entries,
      by rw [Tree.msgPack]; rfl, ?_⟩
    intro depth stack fmt ts rest hdepth hopen
    rw [Tree.msgPack, cons_append, length_cons, length_append] at hdepth
    rcases depth with _ | depth
    · omega
    obtain ⟨stack₁, hpush, hopen₁⟩ := hopen.push_map
    have hdepth' : ∀ entry ∈ entries,
        entry.1.msgPack.length ≤ depth ∧ entry.2.msgPack.length ≤ depth := by
      intro entry hentry
      have := length_msgPack_le_entries hentry
      omega
    obtain ⟨stack₂, hentries, hopen₂⟩ := mapEntries ihkeys ihvals hisKey hdepth' hopen₁ rest
    refine ⟨stack₂, ?_, hopen₂⟩
    rw [deserializeElement, append_assoc, readBig_append 2 (Nat.lt_of_le_of_lt hlength (by decide))]
    rw [hpush]
    exact hentries

theorem deserializeLoop_eq {block rest : List UInt8} {blockLen fuel : Nat}
    {fmt : Fmt} {more : List Tree} (hmore : ∀ t ∈ more, t.Fits) (hfuel : more.length < fuel)
    (hopen : stack.Open fmt ts) (hblock : block.length = blockLen + rest.length)
    (hlen : (msgPackItems more).length ≤ blockLen) :
    ∃ stack', deserializeLoop block blockLen fuel stack (msgPackItems more ++ rest) = .ok stack' ∧
      stack'.Open fmt (ts ++ more) := by
  induction more generalizing stack ts fuel with
  | nil =>
    rcases fuel with _ | fuel
    · omega
    refine ⟨stack, ?_, by rwa [append_nil]⟩
    rw [deserializeLoop, msgPackItems, nil_append, if_neg (by omega)]
  | cons t more ih =>
    rcases fuel with _ | fuel
    · omega
    rw [forall_mem_cons] at hmore
    rw [length_cons] at hfuel
    have hdecodes := hmore.1.decodes
    have hpos : 0 < t.msgPack.length := by
      obtain ⟨tag, body, heq, -⟩ := hdecodes
      simp [heq]
    rw [msgPackItems, length_append] at hlen
    rw [msgPackItems, append_assoc]
    have hlength : (t.msgPack ++ (msgPackItems more ++ rest)).length =
        t.msgPack.length + (msgPackItems more).length + rest.length := by
      rw [length_append, length_append]
      omega
    obtain ⟨stack₁, hnext, hopen₁⟩ := hdecodes.next (show t.msgPack.length ≤
      (t.msgPack ++ (msgPackItems more ++ rest)).length by omega) hopen (msgPackItems more ++ rest)
    obtain ⟨stack₂, hloop, hopen₂⟩ := ih hmore.2 (show more.length < fuel by omega) hopen₁ (by omega)
    rw [append_assoc] at hopen₂
    refine ⟨stack₂, ?_, hopen₂⟩
    rw [deserializeLoop, if_pos (by omega), hnext]
    exact hloop

theorem length_le_msgPackItems (hfits : ∀ t ∈ ts, t.Fits) :
    ts.length ≤ (msgPackItems ts).length := by
  induction ts with
  | nil => exact le_rfl
  | cons t ts ih =>
    rw [forall_mem_cons] at hfits
    obtain ⟨tag, body, heq, -⟩ := hfits.1.decodes
    have := ih hfits.2
    rw [msgPackItems, heq]
    simp only [length_append, length_cons]
    omega

/-- A block that holds what is written for some trees is read as these trees. -/
theorem deserializeMsgPack_eq (hfits : ∀ t ∈ ts, t.Fits) (fmt : Fmt) (rest : List UInt8) :
    ∃ stack, deserializeMsgPack (.empty fmt) (msgPackItems ts ++ rest) (msgPackItems ts).length =
      .ok stack ∧ stack.Open fmt ts := by
  have hlength := length_le_msgPackItems hfits
  refine deserializeLoop_eq hfits ?_ (Stack.open_empty fmt) (length_append ..) le_rfl
  rw [length_append]
  omega

end ConstructionKit.Metadata
