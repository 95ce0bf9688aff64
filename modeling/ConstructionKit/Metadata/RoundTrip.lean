import ConstructionKit.Metadata.Layout
import ConstructionKit.Metadata.Ops

/-! The round trip of a context: what is finalized is decoded as the same blocks, unless there is no
block at all. -/

namespace ConstructionKit.Metadata

open ProofKit List

/-! ### Building a context -/

namespace Context

/-- Blocks are created, and operations are made on them. -/
inductive Op where
  | createBlock (name : List UInt8)
  | onBlock (name : List UInt8) (op : Metadata.Op)
deriving DecidableEq, Repr

def step (ctx : Context) : Op → Context
  | .createBlock name => (ctx.insert (cString name) (.empty .rawBytes)).getD ctx
  | .onBlock name op => ctx.updateBlock (cString name) (·.step op)

def build (endianness : Endian) (ops : List Op) : Context := ops.foldl step ⟨[], endianness⟩

structure Wf (ctx : Context) : Prop where
  names : (ctx.stackMap.map Prod.fst).Nodup
  nulFree : ∀ item ∈ ctx.stackMap, 0 ∉ item.1
  values : ∀ item ∈ ctx.stackMap, item.2.Wf

variable {ctx : Context}

theorem Wf.step (h : ctx.Wf) (op : Op) : (ctx.step op).Wf := by
  cases op with
  | createBlock name =>
    rw [Context.step, insert]
    split
    · exact h
    · rename_i hnone
      have hfresh : cString name ∉ ctx.stackMap.map Prod.fst := by
        intro hmem
        obtain ⟨item, hitem, hname⟩ := mem_map.1 hmem
        rw [Bool.not_eq_true, Option.isSome_eq_false_iff, Option.isNone_iff_eq_none, find,
          lookup_eq_none_iff] at hnone
        exact absurd hname.symm (by simpa using hnone item hitem)
      refine ⟨?_, ?_, ?_⟩
      · show ((ctx.stackMap ++ [(cString name, Stack.empty .rawBytes)]).map Prod.fst).Nodup
        rw [map_append]
        exact nodup_append.2 ⟨h.names, nodup_singleton _, by
          rintro a ha b hb rfl
          obtain rfl := mem_singleton.1 hb
          exact hfresh ha⟩
      · exact forall_mem_append.2 ⟨h.nulFree, forall_mem_singleton.2 (not_mem_cString name)⟩
      · exact forall_mem_append.2 ⟨h.values, forall_mem_singleton.2 (Stack.wf_empty _)⟩
  | onBlock name op =>
    have hnames : (ctx.step (.onBlock name op)).stackMap.map Prod.fst =
        ctx.stackMap.map Prod.fst := by
      rw [Context.step, updateBlock, map_map]
      refine map_congr_left fun item _ => ?_
      rw [Function.comp_apply]
      split <;> rfl
    refine ⟨by rw [hnames]; exact h.names, ?_, ?_⟩
    all_goals
      intro item hitem
      obtain ⟨item, hold, rfl⟩ := mem_map.1 hitem
      split
    · exact h.nulFree item hold
    · exact h.nulFree item hold
    · exact (h.values item hold).step (Stack.effect_step _ op)
    · exact h.values item hold

theorem wf_build (endianness : Endian) (ops : List Op) : (build endianness ops).Wf := by
  have hrun : ∀ ctx : Context, ctx.Wf → (ops.foldl Context.step ctx).Wf := by
    induction ops with
    | nil => exact fun ctx h => h
    | cons op ops ih => exact fun ctx h => ih (ctx.step op) (h.step op)
  exact hrun _ ⟨nodup_nil, by simp, by simp⟩

end Context

/-! ### The limits of the formats -/

/-- The lengths that fit the format: 16 bits, and 32 bits for byte strings. -/
def Cell.Short : Cell → Prop
  | scalar (.zstr text) => text.length ≤ 65535
  | scalar (.bytes data) => data.length < 2 ^ 32
  | scalar _ => True
  | array items => items.length ≤ 65535
  | hash entries => entries.length ≤ 65535

/-- Every value on the stack, and inside of one on the stack, is short. -/
def Stack.Short (stack : Stack) : Prop :=
  ∀ e ∈ stack.elems, ∀ a cell, Relation.ReflTransGen (Contains stack.heap) e a →
    stack.heap[a]? = some cell → cell.Short

theorem isKey_of_cell {heap : List Cell} {a : Nat} {t : Tree} (h : Denotes heap a t)
    (hkey : heap[a]?.any (·.isKey) = true) : t.isKey = true := by
  cases h with
  | scalar hcell =>
    rw [hcell] at hkey
    exact hkey
  | array hcell | hash hcell =>
    rw [hcell] at hkey
    cases hkey

theorem exists_mem_zip {α β : Type} {as : List α} {bs : List β} (hlength : as.length = bs.length)
    {b : β} (hb : b ∈ bs) : ∃ a, (a, b) ∈ as.zip bs := by
  obtain ⟨i, hi, rfl⟩ := getElem_of_mem hb
  refine ⟨as[i], mem_iff_getElem.2 ⟨i, ?_, getElem_zip⟩⟩
  rw [length_zip]
  omega

variable {stack : Stack}

/-- By induction over the tree. -/
theorem Stack.Wf.fits (hwf : stack.Wf) {a : Nat} {t : Tree} (h : Denotes stack.heap a t)
    (hshort : ∀ b cell, Relation.ReflTransGen (Contains stack.heap) a b →
      stack.heap[b]? = some cell → cell.Short) : t.Fits := by
  induction h with
  | @scalar a value hcell =>
    have hvalue := hshort a _ .refl hcell
    have htext := hwf.texts _ (mem_of_getElem? hcell)
    cases value with
    | zstr text => exact .scalar ⟨hvalue, htext text rfl⟩
    | bytes => exact .scalar hvalue
    | uint | sint | real => exact .scalar trivial
  | @array a items ts hcell hlength _ ih =>
    have hitems := hshort a _ .refl hcell
    refine .array (hlength ▸ hitems) fun t ht => ?_
    obtain ⟨r, hr⟩ := exists_mem_zip hlength ht
    exact ih (r, t) hr fun b cell hreach => hshort b cell
      (.head ⟨_, hcell, mem_refs_of_mem_zip hr⟩ hreach)
  | @hash a entries ts hcell hlength hkeys _ ihkeys ihvals =>
    have hentries := hshort a _ .refl hcell
    refine .hash (hlength ▸ hentries) (fun t ht => ?_) (fun t ht => ?_) fun t ht => ?_
    all_goals
      obtain ⟨entry, hentry⟩ := exists_mem_zip hlength ht
      have hrefs := mem_refs_of_mem_zip_entries hentry
    · exact isKey_of_cell (hkeys _ hentry) (hwf.keys a entries hcell entry (of_mem_zip hentry).1)
    · exact ihkeys _ hentry fun b cell hreach => hshort b cell (.head ⟨_, hcell, hrefs.1⟩ hreach)
    · exact ihvals _ hentry fun b cell hreach => hshort b cell (.head ⟨_, hcell, hrefs.2⟩ hreach)

/-! ### Round trip -/

/-- What a stack is read as from its block. -/
def Stack.ComesBack (stack : Stack) (endianness : Endian) (stack' : Stack) : Prop :=
  match stack.outFmt with
  | .rawBytes => ∃ data, serializeRaw stack endianness = .ok data ∧
      stack'.Open .rawBytes [.scalar (.bytes data)]
  | .msgpack => ∃ ts, List.Forall₂ (Denotes stack.heap) stack.elems ts ∧ stack'.Open .msgpack ts
  | _ => False

/-- The binary of a context is decoded as a context with the same names, and every block comes
back. -/
def Context.RoundTrips (ctx : Context) : Prop :=
  ∃ binary ctx', ctx.finalize = .ok binary ∧ decodeBinary binary = .ok ctx' ∧
    (∀ name, name ∈ ctx'.stackMap.map Prod.fst ↔ name ∈ ctx.stackMap.map Prod.fst) ∧
    ∀ item ∈ ctx.stackMap, ∃ stack', ctx'.find item.1 = some stack' ∧
      item.2.ComesBack ctx.endianness stack'

/-- The formats and the lengths that a stack may have. -/
def Stack.Supported (stack : Stack) : Prop :=
  stack.outFmt = .rawBytes ∨ stack.outFmt = .msgpack ∧ stack.Short

/-- The string table of a context. -/
def Context.nameTable (ctx : Context) : List UInt8 := ctx.stackMap.flatMap fun item => item.1 ++ [0]

theorem Stack.Wf.exists_trees (hwf : stack.Wf) (hshort : stack.Short) :
    ∃ ts, List.Forall₂ (Denotes stack.heap) stack.elems ts ∧ (∀ t ∈ ts, t.Fits) ∧
      serializeMsgPack stack = .ok (msgPackItems ts) := by
  obtain ⟨ts, hts⟩ := hwf.ordered.forall₂_denotes
  refine ⟨ts, hts, fun t ht => ?_, serializeMsgPack_eq hwf.ordered hts⟩
  obtain ⟨e, he, hdenotes⟩ := exists_of_mem_forall₂ hts.flip ht
  exact hwf.fits hdenotes (hshort e he)

theorem open_bytes (data : List UInt8) :
    Stack.Open ⟨[.scalar (.bytes data)], [0], false, .rawBytes⟩ .rawBytes [.scalar (.bytes data)] := by
  obtain ⟨stack, hpush, hopen⟩ := (Stack.open_empty .rawBytes).push_scalar (.bytes data)
  obtain rfl : Stack.mk [.scalar (.bytes data)] [0] false .rawBytes = stack :=
    congrArg Prod.snd hpush
  exact hopen

/-- A stack is written as a block that can be read, and it comes back. -/
theorem Stack.Wf.exists_block (hwf : stack.Wf) (hsupported : stack.Supported)
    (name : List UInt8) (endianness : Endian) :
    ∃ b, Writes endianness (name, stack) b ∧ b.Readable ∧
      ∀ stack', b.ReadAs stack' → stack.ComesBack endianness stack' := by
  rcases hsupported with hfmt | ⟨hfmt, hshort⟩
  · obtain ⟨data, hdata⟩ := hwf.serializeRaw_ok endianness
    refine ⟨⟨name, data, .rawBytes⟩, ⟨rfl, hfmt, ?_⟩, Block.readable_raw rfl, fun stack' hread => ?_⟩
    · rw [Context.finalizeStack, hfmt]
      exact hdata
    · rw [Stack.ComesBack, hfmt, hread.raw rfl]
      exact ⟨data, hdata, open_bytes data⟩
  · obtain ⟨ts, hts, hfits, hbytes⟩ := hwf.exists_trees hshort
    refine ⟨⟨name, msgPackItems ts, .msgpack⟩, ⟨rfl, hfmt, ?_⟩,
      Block.readable_msgPack hfits rfl rfl, fun stack' hread => ?_⟩
    · rw [Context.finalizeStack, hfmt]
      exact hbytes
    · rw [Stack.ComesBack, hfmt]
      exact ⟨ts, hts, hread.msgPack hfits rfl rfl⟩

/-- What is serialized from a stack of short values is deserialized as the same values, up to the last
byte and not beyond it. -/
theorem msgPack_comes_back (fmt fmt' : Fmt) (ops : List Op)
    (hshort : ((Stack.empty fmt).run ops).Short) :
    let stack := (Stack.empty fmt).run ops
    ∃ bytes stack' ts, serializeMsgPack stack = .ok bytes ∧
      deserializeMsgPack (.empty fmt') bytes bytes.length = .ok stack' ∧
      List.Forall₂ (Denotes stack.heap) stack.elems ts ∧ stack'.Open fmt' ts := by
  obtain ⟨ts, hts, hfits, hbytes⟩ := ((Stack.wf_empty fmt).run ops).exists_trees hshort
  obtain ⟨stack', hread, hopen⟩ := deserializeMsgPack_eq hfits fmt' []
  rw [append_nil] at hread
  exact ⟨_, stack', ts, hbytes, hread, hts, hopen⟩

theorem short_of_cells (h : ∀ cell ∈ stack.heap, cell.Short) : stack.Short :=
  fun _ _ _ cell _ hcell => h cell (mem_of_getElem? hcell)

theorem short_oneNumber (elems : List Nat) :
    Stack.Short ⟨[.array [1], .scalar (.uint 7)], elems, false, .msgpack⟩ :=
  short_of_cells (forall_mem_cons.2
    ⟨(by decide : 1 ≤ 65535), forall_mem_singleton.2 trivial⟩)

theorem msgPack_comes_back_oneNumber :
    let stack := (Stack.empty .msgpack).run [.pushArr, .pushUnsigned 7, .arrAppend 0 1, .pop]
    ∃ bytes stack' ts, serializeMsgPack stack = .ok bytes ∧
      deserializeMsgPack (.empty .rawBytes) bytes bytes.length = .ok stack' ∧
      List.Forall₂ (Denotes stack.heap) stack.elems ts ∧ stack'.Open .rawBytes ts :=
  msgPack_comes_back _ _ _ (short_oneNumber [0])

namespace Context

variable {ctx : Context} (endianness : Endian)

theorem find_of_mem (hnames : (ctx.stackMap.map Prod.fst).Nodup) {item : List UInt8 × Stack}
    (hitem : item ∈ ctx.stackMap) : ctx.find item.1 = some item.2 := by
  obtain ⟨stackMap, endianness⟩ := ctx
  obtain ⟨front, back, rfl⟩ := append_of_mem hitem
  rw [map_append] at hnames
  exact find_append (fun hmem => (nodup_append.1 hnames).2.2 _ hmem _ mem_cons_self rfl)
    item.2 back endianness

/-- Without blocks the list of infos starts at the end of the binary, which is not accepted. -/
theorem decodeBinary_nil :
    decodeBinary (layout endianness []) = .error (.code .invalidBinary) := by
  cases endianness <;> rfl

theorem not_roundTrips_nil : ¬ RoundTrips ⟨[], endianness⟩ := by
  rintro ⟨binary, ctx', hbinary, hdecode, -⟩
  have hempty : finalize ⟨[], endianness⟩ = .ok (layout endianness []) := finalize_eq .nil
  obtain rfl := Except.ok.inj (hempty.symm.trans hbinary)
  rw [decodeBinary_nil] at hdecode
  cases hdecode

theorem Wf.roundTrips (h : ctx.Wf) (hsupported : ∀ item ∈ ctx.stackMap, item.2.Supported)
    (htable : headerSize + (padToAlignment ctx.nameTable).length < 2 ^ 32)
    (htotal : ∀ binary, ctx.finalize = .ok binary → binary.length < 2 ^ 64)
    (hne : ctx.stackMap ≠ []) : ctx.RoundTrips := by
  obtain ⟨blocks, hblocks⟩ := exists_forall₂ fun item hitem =>
    (h.values item hitem).exists_block (hsupported item hitem) item.1 ctx.endianness
  have hwrites : List.Forall₂ (Writes ctx.endianness) ctx.stackMap blocks :=
    hblocks.imp fun _ _ hblock => hblock.1
  have hfinalize := finalize_eq hwrites
  have hlength := hwrites.length_eq
  have hnames : blocks.map Block.name = ctx.stackMap.map Prod.fst := by
    symm
    rw [← forall₂_eq_eq_eq, forall₂_map_left_iff, forall₂_map_right_iff]
    exact hwrites.imp fun _ _ hwrite => hwrite.1
  have hstrings : stringTable blocks = ctx.nameTable := by
    rw [stringTable_eq, hnames, flatMap_map]
    rfl
  have htotal' : totalSize blocks < 2 ^ 64 := by
    rw [← length_layout ctx.endianness]
    exact htotal _ hfinalize
  have hnul : ∀ b ∈ blocks, 0 ∉ b.name := by
    intro b hb
    have hname := mem_map_of_mem (f := Block.name) hb
    rw [hnames] at hname
    obtain ⟨item, hitem, hname⟩ := mem_map.1 hname
    exact hname ▸ h.nulFree item hitem
  have hreads : ∀ b ∈ blocks, b.Readable := by
    intro b hb
    obtain ⟨item, -, hblock⟩ := exists_of_mem_forall₂ hblocks.flip hb
    exact hblock.2.1
  obtain ⟨items, hdecode, hitems⟩ := decodeBinary_layout ctx.endianness
    (length_pos_iff.1 (hlength ▸ length_pos_iff.2 hne)) (hstrings ▸ htable) htotal' hnul
    (hnames ▸ h.names) hreads
  have hback : List.Forall₂ (fun item item' => item'.1 = item.1 ∧
      item.2.ComesBack ctx.endianness item'.2) ctx.stackMap.reverse items := by
    refine (forall₂_comp (forall₂_reverse_iff.2 hblocks) hitems).imp ?_
    rintro item item' ⟨b, ⟨hwrite, -, hcomes⟩, hname, hread⟩
    exact ⟨hname.trans hwrite.1.symm, hcomes _ hread⟩
  have hnames' : items.map Prod.fst = (ctx.stackMap.map Prod.fst).reverse := by
    rw [← map_reverse]
    symm
    rw [← forall₂_eq_eq_eq, forall₂_map_left_iff, forall₂_map_right_iff]
    exact hback.imp fun _ _ hitem => hitem.1.symm
  refine ⟨_, _, hfinalize, hdecode, fun name => ?_, fun item hitem => ?_⟩
  · rw [hnames', mem_reverse]
  · obtain ⟨item', hitem', hname, hcomes⟩ := exists_of_mem_forall₂ hback (mem_reverse.2 hitem)
    have hfind : find ⟨items, ctx.endianness⟩ item'.1 = some item'.2 :=
      find_of_mem (by rw [hnames']; exact nodup_reverse.2 h.names) hitem'
    rw [hname] at hfind
    exact ⟨item'.2, hfind, hcomes⟩

end Context

/-- A context that was built from blocks with supported values, whose names fit the offset of the list
of infos, comes back exactly if it has a block. -/
theorem roundTrips_iff (endianness : Endian) (ops : List Context.Op)
    (hsupported : ∀ item ∈ (Context.build endianness ops).stackMap, item.2.Supported)
    (htable : headerSize + (padToAlignment (Context.build endianness ops).nameTable).length < 2 ^ 32)
    (htotal : ∀ binary, (Context.build endianness ops).finalize = .ok binary →
      binary.length < 2 ^ 64) :
    (Context.build endianness ops).RoundTrips ↔ (Context.build endianness ops).stackMap ≠ [] := by
  constructor
  · rintro hround hempty
    generalize Context.build endianness ops = ctx at hround hempty
    obtain ⟨stackMap, endianness⟩ := ctx
    obtain rfl : stackMap = [] := hempty
    exact Context.not_roundTrips_nil endianness hround
  · exact (Context.wf_build endianness ops).roundTrips hsupported htable htotal

/-- A block with an array of one number. -/
def oneBlock : List Context.Op :=
  [.createBlock [0x61], .onBlock [0x61] (.setOutFmt .msgpack), .onBlock [0x61] .pushArr,
    .onBlock [0x61] (.pushUnsigned 7), .onBlock [0x61] (.arrAppend 0 1)]

theorem roundTrips_oneBlock : (Context.build .big oneBlock).RoundTrips := by
  refine (roundTrips_iff .big oneBlock ?_ (by decide) ?_).2 (by decide)
  · intro item hitem
    obtain rfl := mem_singleton.1 (show item ∈ [([0x61],
      Stack.mk [.array [1], .scalar (.uint 7)] [0, 1] false .msgpack)] from hitem)
    exact .inr ⟨rfl, short_oneNumber _⟩
  · intro binary hbinary
    have hlength : (Context.build .big oneBlock).finalize.toOption.map List.length = some 72 := by
      decide
    rw [hbinary] at hlength
    rw [Option.some.inj hlength]
    decide

theorem not_roundTrips_noBlock : ¬ (Context.build .little []).RoundTrips :=
  Context.not_roundTrips_nil .little

end ConstructionKit.Metadata
