import ConstructionKit.Printf.Format
import ConstructionKit.ProofKit.Monadic

/-! What `scalarizeAndCheckFormatString` reads of a format that it accepts: its rounds end, the
characters outside of conversions are no `%`, and a conversion has the shape that C gives it up to
the conversion specifier, which may be any character but `n`. -/

namespace ConstructionKit.Printf

open ProofKit List

def lengthModifiers : List (List Char) := [[], ['h'], ['h', 'h'], ['l'], ['l', 'l']]

/-- The shape of a conversion. -/
structure Specifier.WellFormed (s : Specifier) : Prop where
  flags : ∀ c ∈ s.flags, isFlag c = true
  width : ∀ c ∈ s.width, c.isDigit = true
  precision : ∀ digits ∈ s.precision, ∀ c ∈ digits, c.isDigit = true
  length : s.length ∈ lengthModifiers

def Item.WellFormed : Item → Prop
  | literal c => c ≠ '%'
  | percent => True
  | conversion specifier _ => specifier.WellFormed

variable {sizeofLong n rounds : Nat} {fmt rest : List Char} {s : Specifier} {items : List Item}

theorem suffix_of_incrementPtr (h : incrementPtr fmt = .ok rest) : rest <:+ fmt := by
  unfold incrementPtr at h
  split at h
  · cases h
    exact suffix_cons _ _
  · cases h

theorem takeChars_ok {kind : Char → Bool} {taken : List Char}
    (h : takeChars kind fmt = .ok (taken, rest)) :
    fmt = taken ++ rest ∧ ∀ c ∈ taken, kind c = true := by
  induction fmt generalizing taken with
  | nil =>
    cases h
    simp
  | cons c fmt ih =>
    unfold takeChars at h
    split at h
    · rename_i hkind
      split at h
      · cases h
      · obtain ⟨⟨taken', rest'⟩, htake, h⟩ := bind_eq_ok h
        cases h
        obtain ⟨happend, htaken⟩ := ih htake
        exact ⟨by rw [happend, cons_append], forall_mem_cons.2 ⟨hkind, htaken⟩⟩
    · cases h
      simp

theorem parseWidth_ok {width : List Char} (h : parseWidth fmt = .ok (width, rest)) :
    fmt = width ++ rest ∧ ∀ c ∈ width, c.isDigit = true := by
  unfold parseWidth at h
  split at h
  · cases h
  · exact takeChars_ok h

theorem parsePrecision_ok {precision : Option (List Char)}
    (h : parsePrecision fmt = .ok (precision, rest)) :
    rest <:+ fmt ∧ ∀ digits ∈ precision, ∀ c ∈ digits, c.isDigit = true := by
  unfold parsePrecision at h
  split at h
  · obtain ⟨fmt', hincrement, h⟩ := bind_eq_ok h
    obtain ⟨⟨digits, rest'⟩, hwidth, h⟩ := bind_eq_ok h
    cases h
    obtain ⟨rfl, hdigits⟩ := parseWidth_ok hwidth
    refine ⟨(suffix_append _ _).trans (suffix_of_incrementPtr hincrement), ?_⟩
    rintro _ ⟨⟩
    exact hdigits
  · cases h
    exact ⟨suffix_refl _, by simp⟩

theorem parseVectorLength_ok (h : parseVectorLength fmt = .ok (n, rest)) : rest <:+ fmt := by
  unfold parseVectorLength at h
  split at h
  · obtain ⟨fmt', hincrement, h⟩ := bind_eq_ok h
    split at h
    · cases h
      exact suffix_of_incrementPtr hincrement
    · cases h
    · cases h
  all_goals
    first
    | cases h; done
    | cases h
      exact suffix_refl _

theorem parseVector_ok {vector : Option Nat} (h : parseVector fmt = .ok (vector, rest)) :
    rest <:+ fmt := by
  unfold parseVector at h
  split at h
  · obtain ⟨fmt₁, hfirst, h⟩ := bind_eq_ok h
    obtain ⟨⟨n, fmt₂⟩, hlength, h⟩ := bind_eq_ok h
    obtain ⟨fmt₃, hlast, h⟩ := bind_eq_ok h
    cases h
    exact (suffix_of_incrementPtr hlast).trans
      ((parseVectorLength_ok hlength).trans (suffix_of_incrementPtr hfirst))
  · cases h
    exact suffix_refl _

theorem parseLength_ok {isVector usedL : Bool} {length : List Char}
    (h : parseLength sizeofLong isVector fmt = .ok (length, usedL, rest)) :
    rest <:+ fmt ∧ length ∈ lengthModifiers := by
  unfold parseLength at h
  split at h
  · obtain ⟨fmt₁, hfirst, h⟩ := bind_eq_ok h
    have hsuffix := suffix_of_incrementPtr hfirst
    split at h
    · obtain ⟨fmt₂, hsecond, h⟩ := bind_eq_ok h
      obtain ⟨rfl, -, rfl⟩ := by simpa using Except.ok.inj h
      exact ⟨(suffix_of_incrementPtr hsecond).trans hsuffix, by decide⟩
    · split at h
      · obtain ⟨fmt₂, hsecond, h⟩ := bind_eq_ok h
        obtain ⟨rfl, -, rfl⟩ := by simpa using Except.ok.inj h
        exact ⟨(suffix_of_incrementPtr hsecond).trans hsuffix, by decide⟩
      · cases h
    · obtain ⟨rfl, -, rfl⟩ := by simpa using Except.ok.inj h
      exact ⟨hsuffix, by decide⟩
  · obtain ⟨fmt₁, hfirst, h⟩ := bind_eq_ok h
    split at h
    · cases h
    · obtain ⟨rfl, -, rfl⟩ := by simpa using Except.ok.inj h
      refine ⟨suffix_of_incrementPtr hfirst, ?_⟩
      split <;> decide
  · split at h
    · cases h
    · split at h
      · cases h
      · obtain ⟨rfl, -, rfl⟩ := by simpa using Except.ok.inj h
        exact ⟨suffix_refl _, by decide⟩
  · cases h

theorem parseConversion_ok {usedL : Bool} {c : Char}
    (h : parseConversion usedL fmt = .ok (c, rest)) : fmt = c :: rest := by
  unfold parseConversion at h
  split at h
  · split at h
    · cases h
    · split at h
      · cases h
      · cases h
        rfl
  · cases h

theorem parseSpecifier_ok (h : parseSpecifier sizeofLong fmt = .ok (s, n, rest)) :
    s.WellFormed ∧ s.conversion :: rest <:+ fmt := by
  obtain ⟨⟨flags, fmt₁⟩, hflags, h⟩ := bind_eq_ok h
  obtain ⟨⟨width, fmt₂⟩, hwidth, h⟩ := bind_eq_ok h
  obtain ⟨⟨precision, fmt₃⟩, hprecision, h⟩ := bind_eq_ok h
  obtain ⟨⟨vector, fmt₄⟩, hvector, h⟩ := bind_eq_ok h
  obtain ⟨⟨length, usedL, fmt₅⟩, hlength, h⟩ := bind_eq_ok h
  obtain ⟨⟨conversion, fmt₆⟩, hconversion, h⟩ := bind_eq_ok h
  obtain ⟨rfl, rfl, rfl⟩ := by simpa using Except.ok.inj h
  obtain ⟨rfl, hflag⟩ := takeChars_ok hflags
  obtain ⟨rfl, hdigit⟩ := parseWidth_ok hwidth
  obtain ⟨hsuffix₃, hprecisionDigit⟩ := parsePrecision_ok hprecision
  have hsuffix₄ := parseVector_ok hvector
  obtain ⟨hsuffix₅, hmodifier⟩ := parseLength_ok hlength
  obtain rfl := parseConversion_ok hconversion
  refine ⟨⟨hflag, hdigit, hprecisionDigit, hmodifier⟩, ?_⟩
  have hwidthSuffix := suffix_append width fmt₂
  exact ((hsuffix₅.trans hsuffix₄).trans hsuffix₃).trans
    (hwidthSuffix.trans (suffix_append _ _))

/-- A round reads a character or more, and what it reads is well formed. -/
theorem scanItem_ok {item : Item} (h : scanItem sizeofLong fmt = .ok (item, rest)) :
    item.WellFormed ∧ rest.length < fmt.length := by
  cases fmt with
  | nil => cases h
  | cons c fmt =>
    simp only [scanItem] at h
    split at h
    · rename_i hpercent
      cases h
      exact ⟨hpercent, by simp⟩
    · obtain ⟨fmt', hincrement, h⟩ := bind_eq_ok h
      -- the pointer has moved on by one
      have hlength : fmt'.length ≤ fmt.length := by
        unfold incrementPtr at hincrement
        split at hincrement
        · rename_i heq
          obtain ⟨-, rfl⟩ := List.cons.inj heq
          cases hincrement
          exact le_rfl
        · cases hincrement
      split at h
      · cases h
        refine ⟨trivial, ?_⟩
        simp only [length_tail, length_cons]
        omega
      · obtain ⟨⟨s, n, fmt''⟩, hspecifier, h⟩ := bind_eq_ok h
        cases h
        obtain ⟨hwf, hrest⟩ := parseSpecifier_ok hspecifier
        refine ⟨hwf, ?_⟩
        have := hrest.length_le
        simp only [length_cons] at this ⊢
        omega

theorem wellFormed_of_scanLoop
    (h : scanLoop sizeofLong rounds fmt = .ok items) : ∀ item ∈ items, item.WellFormed := by
  induction rounds generalizing fmt items with
  | zero =>
    cases fmt with
    | nil =>
      cases h
      simp
    | cons => cases h
  | succ rounds ih =>
    cases fmt with
    | nil =>
      cases h
      simp
    | cons =>
      obtain ⟨⟨item, rest⟩, hitem, h⟩ := bind_eq_ok h
      obtain ⟨items', hitems, h⟩ := bind_eq_ok h
      cases h
      exact forall_mem_cons.2 ⟨(scanItem_ok hitem).1, ih hitems⟩

theorem wellFormed_of_scanFormat {str : List Char}
    (h : scanFormat sizeofLong str = .ok items) : ∀ item ∈ items, item.WellFormed :=
  wellFormed_of_scanLoop h

/-- As many rounds as there are characters are enough: another one changes nothing. -/
theorem scanLoop_succ (h : fmt.length ≤ rounds) :
    scanLoop sizeofLong (rounds + 1) fmt = scanLoop sizeofLong rounds fmt := by
  induction rounds generalizing fmt with
  | zero =>
    obtain rfl := length_eq_zero_iff.1 (Nat.le_zero.1 h)
    rfl
  | succ rounds ih =>
    cases fmt with
    | nil => rfl
    | cons c fmt =>
      rw [scanLoop, scanLoop]
      cases hitem : scanItem sizeofLong (c :: fmt) with
      | error => rfl
      | ok read =>
        obtain ⟨item, rest⟩ := read
        have hlt := (scanItem_ok hitem).2
        have hrest : rest.length ≤ rounds := by omega
        simp only [bind, Except.bind, ih hrest]

/-! ### Formats without vectors -/

/-- The new format is made of characters, of `%%` and of single conversions. -/
inductive Atom where
  | literal (c : Char)
  | percent
  | specifier (s : Specifier)
deriving DecidableEq, Repr

def Atom.text : Atom → List Char
  | literal c => [c]
  | percent => ['%', '%']
  | specifier s => s.text

def Atom.WellFormed : Atom → Prop
  | literal c => c ≠ '%'
  | percent => True
  | specifier s => s.WellFormed

def Atom.isSpecifier : Atom → Bool
  | specifier _ => true
  | literal _ | percent => false

def vectorAtoms (s : Specifier) : Nat → List Atom
  | 0 => []
  | 1 => [.specifier s]
  | n + 2 => .specifier s :: .literal ',' :: vectorAtoms s (n + 1)

def Item.atoms : Item → List Atom
  | literal c => [.literal c]
  | percent => [.percent]
  | conversion s n => vectorAtoms s n

def atomsText (atoms : List Atom) : List Char := atoms.flatMap Atom.text

theorem atomsText_vectorAtoms (s : Specifier) (n : Nat) :
    atomsText (vectorAtoms s n) = vectorText s.text n := by
  induction n using vectorAtoms.induct with
  | case1 => rfl
  | case2 => simp [vectorAtoms, vectorText, atomsText, Atom.text]
  | case3 n ih =>
    simp only [atomsText] at ih
    simp [vectorAtoms, vectorText, atomsText, Atom.text, ih]

theorem countP_vectorAtoms (s : Specifier) (n : Nat) :
    (vectorAtoms s n).countP Atom.isSpecifier = n := by
  induction n using vectorAtoms.induct with
  | case1 => rfl
  | case2 => rfl
  | case3 n ih => simp [vectorAtoms, countP_cons, Atom.isSpecifier, ih]

theorem wellFormed_vectorAtoms (hs : s.WellFormed) (n : Nat) :
    ∀ atom ∈ vectorAtoms s n, atom.WellFormed := by
  induction n using vectorAtoms.induct with
  | case1 => simp [vectorAtoms]
  | case2 => simp [vectorAtoms, Atom.WellFormed, hs]
  | case3 n ih =>
    have hcomma : (Atom.literal ',').WellFormed := show ',' ≠ '%' by decide
    exact forall_mem_cons.2 ⟨hs, forall_mem_cons.2 ⟨hcomma, ih⟩⟩

theorem newStr_eq (items : List Item) :
    newStr items = atomsText (items.flatMap Item.atoms) ++ [nul] := by
  rw [newStr]
  congr 1
  induction items with
  | nil => rfl
  | cons item items ih =>
    have hitem : atomsText item.atoms = item.text := by
      cases item with
      | literal => rfl
      | percent => rfl
      | conversion s n => exact atomsText_vectorAtoms s n
    simp only [atomsText] at ih hitem
    simp only [atomsText, flatMap_cons, flatMap_append, hitem, ih]

theorem numSpecifiers_eq (items : List Item) :
    numSpecifiers items = (items.flatMap Item.atoms).countP Atom.isSpecifier := by
  induction items with
  | nil => rfl
  | cons item items ih =>
    have hitem : item.atoms.countP Atom.isSpecifier = item.numSpecifiers := by
      cases item with
      | literal => rfl
      | percent => rfl
      | conversion s n => exact countP_vectorAtoms s n
    simp only [numSpecifiers] at ih
    simp only [numSpecifiers, map_cons, sum_cons, flatMap_cons,
      countP_append, hitem, ih]

theorem wellFormed_atoms (h : ∀ item ∈ items, item.WellFormed) :
    ∀ atom ∈ items.flatMap Item.atoms, atom.WellFormed := by
  intro atom hatom
  obtain ⟨item, hitem, hatom⟩ := mem_flatMap.1 hatom
  have hwf := h item hitem
  cases item with
  | literal =>
    obtain rfl := mem_singleton.1 hatom
    exact hwf
  | percent =>
    obtain rfl := mem_singleton.1 hatom
    trivial
  | conversion s n => exact wellFormed_vectorAtoms hwf n atom hatom

theorem percent_notMem_body (hs : s.WellFormed) : '%' ∉ s.body := by
  have hlength : '%' ∉ s.length := by
    have hmem := hs.length
    simp only [lengthModifiers, mem_cons, not_mem_nil, or_false] at hmem
    rcases hmem with h | h | h | h | h <;> rw [h] <;> decide
  have hprecision : '%' ∉ s.precision.elim [] fun digits => '.' :: digits := by
    cases h : s.precision with
    | none => simp
    | some digits =>
      intro hmem
      rcases mem_cons.1 hmem with heq | hmem
      · exact absurd heq (by decide)
      · exact absurd (hs.precision digits h '%' hmem) (by decide)
  simp only [Specifier.body, mem_append, not_or]
  refine ⟨⟨⟨fun hmem => ?_, fun hmem => ?_⟩, hprecision⟩, hlength⟩
  · exact absurd (hs.flags '%' hmem) (by decide)
  · exact absurd (hs.width '%' hmem) (by decide)

end ConstructionKit.Printf
