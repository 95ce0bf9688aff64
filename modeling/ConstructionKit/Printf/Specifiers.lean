import ConstructionKit.Printf.Scanner

/-! How many specifiers there are.  `scalarizeAndCheckFormatString` counts them as it reads a format,
`FindNextSpecifier` finds them again in the new format, and `rewritePrintfCall` keeps as many scalar
arguments as it believes to have conversions.

The two scanners agree except where a conversion ends in `%`.  Such a `%` is left open for
`FindNextSpecifier`: it pairs with the `%` of a conversion that follows, which is then missed, or it
is a specifier of its own, a stray one.  The loop over the arguments compares the place of an
argument plus that of the element with the number of specifiers, so that it keeps too many scalars
of a vector that comes behind another. -/

namespace ConstructionKit.Printf

open List

variable {str l : List Char} {start pos rounds : Nat} (n place taken : Nat)

/-! ### Where `FindNextSpecifier` stops -/

/-- The distance to the next specifier, or to the end if there is none. -/
def toNext : List Char → Nat
  | [] => 0
  | [c] => if c = '%' then 0 else 1
  | c :: d :: str =>
    if c = '%' then if d = '%' then toNext str + 2 else 0
    else toNext (d :: str) + 1

theorem toNext_cons_of_ne {c : Char} (hc : c ≠ '%') (str : List Char) :
    toNext (c :: str) = toNext str + 1 := by
  cases str <;> simp [toNext, hc]

theorem toNext_pair (str : List Char) : toNext ('%' :: '%' :: str) = toNext str + 2 := by
  simp [toNext]

theorem toNext_open (h : str.head? ≠ some '%') : toNext ('%' :: str) = 0 := by
  cases str with
  | nil => simp [toNext]
  | cons d =>
    have hd : d ≠ '%' := by simpa using h
    simp [toNext, hd]

theorem toNext_append (hl : '%' ∉ l) (str : List Char) :
    toNext (l ++ str) = l.length + toNext str := by
  induction l with
  | nil => simp
  | cons c l ih =>
    obtain ⟨hc, hl⟩ := not_or.1 (fun h => hl (mem_cons.2 h))
    rw [cons_append, toNext_cons_of_ne (Ne.symm hc), ih hl, length_cons]
    omega

/-- Where a call of `FindNextSpecifier` starts to look. -/
def resume (pos : Nat) : Nat := if pos = 0 then pos else pos + 1

theorem findFirstOf_some (h : findFirstOf str '%' start = some pos) :
    ∃ l rest, str.drop start = l ++ '%' :: rest ∧ '%' ∉ l ∧ pos = start + l.length := by
  obtain ⟨k, hk, rfl⟩ := Option.map_eq_some_iff.1 h
  obtain ⟨hlt, hpercent, hbefore⟩ := findIdx?_eq_some_iff_getElem.1 hk
  refine ⟨(str.drop start).take k, (str.drop start).drop (k + 1), ?_, ?_, ?_⟩
  · have hget : (str.drop start)[k] = '%' := by simpa using hpercent
    rw [← hget, getElem_cons_drop, take_append_drop]
  · intro hmem
    obtain ⟨j, hj, hget⟩ := mem_iff_getElem.1 hmem
    rw [length_take] at hj
    rw [getElem_take] at hget
    exact hbefore j (by omega) (by simp [hget])
  · rw [length_take]
    omega

theorem findFirstOf_none (h : findFirstOf str '%' start = none) : '%' ∉ str.drop start := by
  unfold findFirstOf at h
  rw [Option.map_eq_none_iff, findIdx?_eq_none_iff] at h
  intro hmem
  exact absurd (h '%' hmem) (by simp)

theorem drop_of_split {rest : List Char} (h : str.drop start = l ++ rest) :
    str.drop (start + l.length) = rest := by
  rw [← drop_drop, h, drop_left]

/-- The loop, by the suffix that it looks at.  A round that goes on has passed two characters. -/
theorem findNextSpecifierLoop_eq (h : str.length < resume pos + rounds) :
    findNextSpecifierLoop str rounds pos =
      min (resume pos + toNext (str.drop (resume pos))) str.length := by
  induction rounds generalizing pos with
  | zero =>
    rw [findNextSpecifierLoop]
    omega
  | succ rounds ih =>
    have hresume : (if pos = 0 then pos else pos + 1) = resume pos := rfl
    rw [findNextSpecifierLoop, hresume]
    cases hfind : findFirstOf str '%' (resume pos) with
    | none =>
      have hnext := toNext_append (findFirstOf_none hfind) []
      rw [append_nil, length_drop] at hnext
      simp only [hnext]
      omega
    | some =>
      obtain ⟨l, rest, hsplit, hl, rfl⟩ := findFirstOf_some hfind
      have hrest := drop_of_split hsplit
      have hlength := congrArg List.length hsplit
      simp only [length_drop, length_append, length_cons] at hlength
      have hget : str[resume pos + l.length + 1]? = rest.head? := by
        rw [← head?_drop, ← drop_drop, hrest, drop_one, tail_cons]
      simp only [hget, hsplit, toNext_append hl]
      split
      · rename_i hpair
        obtain ⟨hlt, hhead⟩ := hpair
        obtain ⟨rest', rfl⟩ : ∃ rest', rest = '%' :: rest' := by
          cases rest with
          | nil => cases hhead
          | cons d rest =>
            obtain rfl : d = '%' := by simpa using hhead
            exact ⟨rest, rfl⟩
        have hnext : resume (resume pos + l.length + 1) = resume pos + l.length + 2 := rfl
        have hdrop : str.drop (resume pos + l.length + 2) = rest' := by
          rw [← drop_drop, hrest]
          rfl
        rw [ih (by rw [hnext]; omega), hnext, hdrop, toNext_pair]
        congr 1
        omega
      · rename_i hpair
        have hopen : rest.head? ≠ some '%' := by
          intro hhead
          refine hpair ⟨?_, hhead⟩
          cases rest with
          | nil => cases hhead
          | cons =>
            simp only [length_cons] at hlength
            omega
        rw [toNext_open hopen]
        omega

theorem findNextSpecifier_eq (str : List Char) (pos : Nat) :
    findNextSpecifier str pos =
      min (resume pos + toNext (str.drop (resume pos))) str.length := by
  apply findNextSpecifierLoop_eq
  omega

/-! ### Counting the stops -/

/-- The number of runs of `%` whose length is odd; `pending` says that an odd number of them comes
before the string. -/
def openings (pending : Bool) : List Char → Nat
  | [] => pending.toNat
  | c :: str => if c = '%' then openings (!pending) str else pending.toNat + openings false str

theorem openings_toNext (str : List Char) :
    openings false str =
      if toNext str < str.length then openings false (str.drop (toNext str + 2)) + 1 else 0 := by
  induction str using toNext.induct with
  | case1 => rfl
  | case2 | case3 => simp [toNext, openings]
  | case4 str ih =>
    rw [toNext_pair]
    simp only [length_cons, Nat.add_lt_add_iff_right]
    exact ih
  | case5 d str hd =>
    rw [toNext_open (by simpa using hd)]
    simp [openings, hd, Nat.add_comm]
  | case6 c d str hc ih =>
    rw [toNext_cons_of_ne hc]
    have hcount : openings false (c :: d :: str) = openings false (d :: str) := by
      simp [openings, hc]
    rw [hcount, ih]
    simp only [length_cons, Nat.add_lt_add_iff_right, drop_succ_cons]

theorem length_stopsFrom (pos : Nat) (h : str.length < resume pos + rounds) :
    (stopsFrom str rounds pos).length = openings false (str.drop (resume pos)) := by
  induction rounds generalizing pos with
  | zero =>
    rw [drop_eq_nil_of_le (by omega)]
    rfl
  | succ rounds ih =>
    rw [openings_toNext, length_drop, drop_drop]
    simp only [stopsFrom, findNextSpecifier_eq]
    by_cases hfound : resume pos + toNext (str.drop (resume pos)) < str.length
    · rw [if_pos (by omega), if_pos (by omega), length_cons, min_eq_left hfound.le]
      have hnext : resume (resume pos + toNext (str.drop (resume pos)) + 1) =
          resume pos + (toNext (str.drop (resume pos)) + 2) := by
        simp only [resume, Nat.add_eq_zero_iff, Nat.one_ne_zero, and_false, if_false]
        omega
      rw [ih _ (by rw [hnext]; omega), hnext]
    · rw [if_neg (by omega), if_neg (by omega)]
      rfl

theorem length_stops (str : List Char) : (stops str).length = openings false str :=
  length_stopsFrom 0 (by simp [resume])

/-! ### Formats -/

/-- Whether a `%` is open behind an atom when `pending` says whether one is open before it. -/
def Atom.leavesOpen (pending : Bool) : Atom → Bool
  | literal _ => false
  | percent => pending
  | specifier s => s.conversion = '%' && (pending || !s.body.isEmpty)

/-- A character behind an open `%`: `FindNextSpecifier` stops where there is no conversion. -/
def Atom.stray (pending : Bool) : Atom → Nat
  | literal _ => pending.toNat
  | percent | specifier _ => 0

/-- A conversion at which `FindNextSpecifier` does not stop: its `%` closes an open one, or it is
only `%%`, as `%v2hl%` leaves it. -/
def Atom.missed (pending : Bool) : Atom → Nat
  | literal _ | percent => 0
  | specifier s => (pending || (s.body.isEmpty && s.conversion = '%')).toNat

/-- The stray stops; a `%` that is open at the end counts. -/
def strays (pending : Bool) : List Atom → Nat
  | [] => pending.toNat
  | atom :: atoms => atom.stray pending + strays (atom.leavesOpen pending) atoms

/-- The missed conversions. -/
def misses (pending : Bool) : List Atom → Nat
  | [] => 0
  | atom :: atoms => atom.missed pending + misses (atom.leavesOpen pending) atoms

theorem openings_append (hl : '%' ∉ l) (hne : l ≠ []) (pending : Bool) (rest : List Char) :
    openings pending (l ++ rest) = pending.toNat + openings false rest := by
  induction l generalizing pending with
  | nil => exact absurd rfl hne
  | cons c l ih =>
    obtain ⟨hc, hl⟩ := not_or.1 (fun h => hl (mem_cons.2 h))
    rw [cons_append, openings, if_neg (Ne.symm hc)]
    cases l with
    | nil => rfl
    | cons =>
      rw [ih hl (cons_ne_nil _ _)]
      simp

theorem openings_specifier {s : Specifier} (hs : s.WellFormed) (pending : Bool)
    (rest : List Char) :
    openings pending (s.text ++ rest) + (Atom.specifier s).missed pending =
      1 + openings ((Atom.specifier s).leavesOpen pending) rest := by
  have hbody := percent_notMem_body hs
  have htext : openings pending (s.text ++ rest) =
      openings (!pending) (s.body ++ (s.conversion :: rest)) := by
    simp [Specifier.text, openings]
  rw [htext]
  by_cases hempty : s.body = []
  · -- the conversion specifier follows the `%`
    by_cases hconversion : s.conversion = '%' <;> cases pending <;>
      simp [hempty, hconversion, openings, Atom.missed, Atom.leavesOpen, Nat.add_comm]
  · have hisEmpty : s.body.isEmpty = false := by simpa using hempty
    rw [openings_append hbody hempty]
    by_cases hconversion : s.conversion = '%'
    · cases pending <;>
        simp [hisEmpty, hconversion, openings, Atom.missed, Atom.leavesOpen, Nat.add_comm]
    · cases pending <;>
        simp [hconversion, openings, Atom.missed, Atom.leavesOpen, Nat.add_comm]

theorem openings_atom {atom : Atom} (hatom : atom.WellFormed) (pending : Bool)
    (rest : List Char) :
    openings pending (atom.text ++ rest) + atom.missed pending =
      atom.isSpecifier.toNat + atom.stray pending +
        openings (atom.leavesOpen pending) rest := by
  cases atom with
  | literal c =>
    have hc : c ≠ '%' := hatom
    simp [Atom.text, Atom.missed, Atom.stray, Atom.leavesOpen, Atom.isSpecifier, openings, hc]
  | percent =>
    simp [Atom.text, Atom.missed, Atom.stray, Atom.leavesOpen, Atom.isSpecifier, openings]
  | specifier => exact openings_specifier hatom pending rest

/-- `FindNextSpecifier` stops at the conversions, less the missed ones, and at the stray `%`. -/
theorem openings_atoms {atoms : List Atom} (hatoms : ∀ atom ∈ atoms, atom.WellFormed)
    (pending : Bool) :
    openings pending (atomsText atoms ++ [nul]) + misses pending atoms =
      atoms.countP Atom.isSpecifier + strays pending atoms := by
  induction atoms generalizing pending with
  | nil => simp [atomsText, openings, misses, strays, nul]
  | cons atom atoms ih =>
    rw [forall_mem_cons] at hatoms
    have hstep := openings_atom hatoms.1 pending (atomsText atoms ++ [nul])
    have hrun := ih hatoms.2 (atom.leavesOpen pending)
    have htext : atomsText (atom :: atoms) ++ [nul] =
        atom.text ++ (atomsText atoms ++ [nul]) := by
      simp [atomsText]
    have hcount : (atom :: atoms).countP Atom.isSpecifier =
        atoms.countP Atom.isSpecifier + atom.isSpecifier.toNat := by
      rw [countP_cons]
      cases atom.isSpecifier <;> rfl
    rw [htext, misses, strays]
    omega

/-- As many stray stops as missed conversions. -/
def Balanced (items : List Item) : Prop :=
  strays false (items.flatMap Item.atoms) = misses false (items.flatMap Item.atoms)

instance (items : List Item) : Decidable (Balanced items) := inferInstanceAs (Decidable (_ = _))

theorem length_stops_newStr_iff {items : List Item} (h : ∀ item ∈ items, item.WellFormed) :
    (stops (newStr items)).length = numSpecifiers items ↔ Balanced items := by
  have hcount := openings_atoms (wellFormed_atoms h) false
  rw [length_stops, newStr_eq, numSpecifiers_eq, Balanced]
  omega

/-! ### The arguments that are kept -/

def allScalars (operands : List Operand) : List ArgType := operands.flatMap Operand.scalars

theorem scalarLoop_eq_take (n i j : Nat) (scalars : List ArgType) :
    scalarLoop n i j scalars = scalars.take (n + 1 - (i + j)) := by
  induction scalars generalizing j with
  | nil => simp [scalarLoop]
  | cons arg scalars ih =>
    rw [scalarLoop, ih]
    split
    · rw [show n + 1 - (i + j) = 0 by omega, show n + 1 - (i + (j + 1)) = 0 by omega]
      simp
    · rw [show n + 1 - (i + j) = n + 1 - (i + (j + 1)) + 1 by omega, take_succ_cons]

theorem operandLoop_cons (n i : Nat) (operand : Operand) (operands : List Operand) :
    operandLoop n i (operand :: operands) =
      operand.scalars.take (n + 1 - i) ++ operandLoop n (i + 1) operands := by
  rw [operandLoop]
  split
  · rw [show n + 1 - i = 0 by omega]
    simp
  · simp only [scalarLoop_eq_take, Nat.add_zero]

theorem scalars_length_pos (operand : Operand) : 0 < operand.scalars.length := by
  cases operand <;> simp [Operand.scalars]

/-- `place` arguments with `taken` scalars have been passed, and each of the others has room for all
of its scalars, or only scalars come before it, or its place is behind the last specifier. -/
def OperandsFit (n : Nat) : Nat → Nat → List Operand → Prop
  | _, _, [] => True
  | place, taken, operand :: operands =>
    (taken + operand.scalars.length ≤ n ∨ taken = place ∨ n ≤ place) ∧
      OperandsFit n (place + 1) (taken + operand.scalars.length) operands

/-- The loop keeps at least as many scalars as it should. -/
theorem le_length_operandLoop (hplace : place ≤ taken)
    (operands : List Operand) :
    min (n - taken) (allScalars operands).length ≤
      (operandLoop n (place + 1) operands).length := by
  induction operands generalizing place taken with
  | nil => simp [allScalars]
  | cons operand operands ih =>
    have hpos := scalars_length_pos operand
    have hrest := ih (place + 1) (taken + operand.scalars.length) (by omega)
    rw [operandLoop_cons]
    simp only [allScalars, flatMap_cons, length_append, length_take] at hrest ⊢
    omega

/-- It keeps no more exactly when the arguments fit, and then it keeps the first ones. -/
theorem length_operandLoop_iff (hplace : place ≤ taken)
    (operands : List Operand) :
    (operandLoop n (place + 1) operands).length = min (n - taken) (allScalars operands).length ↔
      OperandsFit n place taken operands := by
  induction operands generalizing place taken with
  | nil => simp [operandLoop, allScalars, OperandsFit]
  | cons operand operands ih =>
    have hpos := scalars_length_pos operand
    have hrest := ih (place + 1) (taken + operand.scalars.length) (by omega)
    have hle := le_length_operandLoop n (place + 1) (taken + operand.scalars.length) (by omega)
      operands
    rw [OperandsFit, ← hrest, operandLoop_cons]
    simp only [allScalars, flatMap_cons, length_append, length_take] at hle ⊢
    omega

theorem operandLoop_eq_take (n : Nat) {place taken : Nat} (hplace : place ≤ taken)
    {operands : List Operand} (h : OperandsFit n place taken operands) :
    operandLoop n (place + 1) operands = (allScalars operands).take (n - taken) := by
  induction operands generalizing place taken with
  | nil => simp [operandLoop, allScalars]
  | cons operand operands ih =>
    obtain ⟨hhead, htail⟩ := h
    have hpos := scalars_length_pos operand
    rw [operandLoop_cons, ih (by omega) htail]
    simp only [allScalars, flatMap_cons, take_append]
    congr 1
    · rcases hhead with hfits | rfl | hbehind
      · rw [take_of_length_le (by omega), take_of_length_le (by omega)]
      · congr 1
        omega
      · rw [show n + 1 - (place + 1) = 0 by omega, show n - taken = 0 by omega]
    · congr 1
      omega

/-! ### Consistency -/

/-- The three counts agree for a call with the format `str`: the specifiers that the scanner counts
are those that `FindNextSpecifier` finds, and the recorded types are those of the first scalars, as
many as there are specifiers for. -/
def CountsConsistent (sizeofLong : Nat) (doubleSupport : Bool) (str : List Char)
    (operands : List Operand) : Prop :=
  ∀ format n, scalarizeAndCheckFormatString sizeofLong str = .ok (format, n) →
    (stops format).length = n ∧
      (descriptorTypes doubleSupport n operands).length =
        min n (allScalars operands).length ∧
      descriptorTypes doubleSupport n operands =
        ((allScalars operands).map (ArgType.printfType doubleSupport)).take n

/-- The counts of an accepted format are consistent exactly when the stray stops make up for the
missed conversions, and the arguments fit. -/
theorem counts_consistent_iff {sizeofLong : Nat} {items : List Item}
    (h : scanFormat sizeofLong str = .ok items) (doubleSupport : Bool)
    (operands : List Operand) :
    CountsConsistent sizeofLong doubleSupport str operands ↔
      Balanced items ∧ OperandsFit (numSpecifiers items) 0 0 operands := by
  have hresult : scalarizeAndCheckFormatString sizeofLong str =
      .ok (newStr items, numSpecifiers items) := by
    rw [scalarizeAndCheckFormatString, h]
    rfl
  have hfit := length_operandLoop_iff (numSpecifiers items) 0 0 le_rfl operands
  rw [← length_stops_newStr_iff (wellFormed_of_scanFormat h)]
  constructor
  · intro hconsistent
    obtain ⟨hstops, hlength, -⟩ := hconsistent _ _ hresult
    rw [descriptorTypes, length_map] at hlength
    exact ⟨hstops, hfit.1 hlength⟩
  · rintro ⟨hstops, hoperands⟩ format n hformat
    obtain ⟨rfl, rfl⟩ := Prod.mk.inj (Except.ok.inj (hresult.symm.trans hformat))
    refine ⟨hstops, ?_, ?_⟩
    · rw [descriptorTypes, length_map]
      exact hfit.2 hoperands
    · have htake := operandLoop_eq_take (numSpecifiers items) le_rfl hoperands
      rw [Nat.sub_zero] at htake
      rw [descriptorTypes, htake, map_take]

/-- One conversion and one scalar. -/
theorem counts_consistent_int :
    scanFormat 8 ['%', 'd'] = .ok [.conversion ⟨[], [], none, [], 'd'⟩ 1] ∧
      CountsConsistent 8 true ['%', 'd'] [.scalar .i32] := by
  refine ⟨rfl, (counts_consistent_iff rfl true _).2 ⟨by decide, ?_⟩⟩
  simp [OperandsFit]

/-- Two vectors of four for `%v4hld %d`: all eight scalars are recorded for five specifiers. -/
theorem counts_inconsistent_vectors :
    ¬ CountsConsistent 8 true ['%', 'v', '4', 'h', 'l', 'd', ' ', '%', 'd']
      [.vector .i32 [.i32, .i32, .i32], .vector .i32 [.i32, .i32, .i32]] := by
  intro h
  obtain ⟨-, hlength, -⟩ := h _ _ rfl
  exact absurd hlength (by decide)

end ConstructionKit.Printf
