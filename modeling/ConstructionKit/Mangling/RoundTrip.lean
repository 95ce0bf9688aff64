import Mathlib.Data.BitVec
import ConstructionKit.Mangling.Demangle

/-! When a mangled name demangles to its signature.  `emitSubstitution` writes `S_` for the first
type that can be substituted and `S1_` for the second, but `demangleType` reads `S1_` as the third.
So a name with a repeated vector type demangles only if that type is the first vector type. -/

namespace ConstructionKit.Mangling

open List Option

/-! ### The signatures -/

inductive IntWidth where
  | w8 | w16 | w32 | w64
deriving DecidableEq, Repr

inductive Scalar where
  | void | bool | half | float | double
  | int (width : IntWidth) (signed : Bool)
deriving DecidableEq, Repr

/-- An argument type: a scalar, or a fixed vector of scalars. -/
inductive Arg where
  | scalar (type : Scalar)
  | vector (element : Scalar) (numElements : UInt32)
deriving DecidableEq, Repr

def IntWidth.bits : IntWidth → Nat
  | w8 => 8
  | w16 => 16
  | w32 => 32
  | w64 => 64

def Scalar.ty : Scalar → Ty
  | void => .void
  | bool => .integer 1
  | half => .half
  | float => .float
  | double => .double
  | int width _ => .integer width.bits

def Scalar.qual : Scalar → TypeQualifier
  | int _ true => .signedInt
  | _ => .none

/-- The type of an argument and its qualifiers, one for each level of the type. -/
def Arg.qualTy : Arg → QualTy
  | scalar type => (type.ty, [type.qual])
  | vector element numElements => (.fixedVector element.ty numElements, [.none, element.qual])

/-! ### The lexer -/

/-- The text does not go on with a digit. -/
def NoDigit (text : List Char) : Prop := ∀ c, text.head? = some c → c.isDigit = false

variable {rest : List Char} {fuel n : Nat} {α : Type} {x : α} (ctx : List QualTy) (type : Scalar)

theorem isDigit_of_mem_decimal {c : Char} (hc : c ∈ decimal n) : c.isDigit = true :=
  Nat.isDigit_of_mem_toDigits (by decide) (by decide) hc

theorem takeWhile_decimal (n : Nat) (hrest : NoDigit rest) :
    (decimal n ++ rest).takeWhile Char.isDigit = decimal n ∧
      (decimal n ++ rest).dropWhile Char.isDigit = rest := by
  have hall : ∀ c ∈ decimal n, c.isDigit = true := fun c hc => isDigit_of_mem_decimal hc
  rw [takeWhile_append_of_pos hall, dropWhile_append_of_pos hall]
  cases rest with
  | nil => simp
  | cons c => simp [hrest c rfl]

theorem consumeInteger_decimal (hn : n < 2 ^ 32) (rest : List Char)
    (hrest : NoDigit rest) : consumeInteger (decimal n ++ rest) = some (n, rest) := by
  obtain ⟨htake, hdrop⟩ := takeWhile_decimal n hrest
  have hvalue : Nat.ofDigitChars 10 (decimal n) 0 = n :=
    Nat.ofDigitChars_toDigits (by decide) (by decide)
  rw [consumeInteger, htake, hdrop]
  simpa [decimal] using hn

theorem consumeInteger_none (hrest : NoDigit rest) :
    consumeInteger rest = none := by
  cases rest with
  | nil => rfl
  | cons c => simp [consumeInteger, hrest c rfl]

/-! ### Substitutions -/

/-- The types that can be substituted. -/
def substitutable (args : List QualTy) : List QualTy := args.filter fun arg => !isTypeBuiltin arg.1

theorem substitutable_cons (arg : QualTy) (args : List QualTy) :
    substitutable (arg :: args) =
      if isTypeBuiltin arg.1 then substitutable args else arg :: substitutable args := by
  cases hbuiltin : isTypeBuiltin arg.1 <;> simp [substitutable, hbuiltin]

theorem substitutable_append (args args' : List QualTy) :
    substitutable (args ++ args') = substitutable args ++ substitutable args' :=
  filter_append ..

theorem findSubstitution_eq (arg : QualTy) (id : Int) (prevs : List QualTy) :
    findSubstitution arg id prevs =
      ((substitutable prevs).idxOf? arg).map fun k : Nat => id + 1 + (k : Int) := by
  induction prevs generalizing id with
  | nil => rfl
  | cons prev prevs ih =>
    rw [findSubstitution, substitutable_cons]
    by_cases hbuiltin : isTypeBuiltin prev.1
    · rw [if_pos hbuiltin, if_pos hbuiltin, ih]
    · rw [if_neg hbuiltin, if_neg hbuiltin, idxOf?_cons]
      by_cases heq : prev = arg
      · simp [heq]
      · rw [if_neg heq, ih, if_neg (by simpa using heq), Option.map_map]
        congr 1
        funext k
        simp only [Function.comp_apply]
        omega

theorem resolveSubstitution_eq (subID : Nat) (ctx : List QualTy) :
    resolveSubstitution subID ctx = (substitutable ctx)[subID]? := by
  induction ctx generalizing subID with
  | nil => rfl
  | cons ty ctx ih =>
    rw [substitutable_cons]
    cases subID with
    | zero => by_cases hbuiltin : isTypeBuiltin ty.1 <;> simp [resolveSubstitution, hbuiltin, ih]
    | succ =>
      by_cases hbuiltin : isTypeBuiltin ty.1 <;> simp [resolveSubstitution, hbuiltin, ih]

/-! ### The text of an argument -/

def Scalar.chars : Scalar → List Char
  | void => ['v']
  | bool => ['b']
  | half => ['D', 'h']
  | float => ['f']
  | double => ['d']
  | int .w8 signed => if signed then ['c'] else ['h']
  | int .w16 signed => if signed then ['s'] else ['t']
  | int .w32 signed => if signed then ['i'] else ['j']
  | int .w64 signed => if signed then ['l'] else ['m']

def substitutionText (k : Nat) : List Char := 'S' :: (if 0 < k then decimal k else []) ++ ['_']

/-- The text of an argument behind the arguments `prevs`. -/
def argText (prevs : List QualTy) : Arg → List Char
  | .scalar type => type.chars
  | .vector element numElements =>
    match (substitutable prevs).idxOf? (Arg.vector element numElements).qualTy with
    | some k => substitutionText k
    | none => 'D' :: 'v' :: decimal numElements.toNat ++ '_' :: element.chars

theorem isTypeBuiltin_scalar : isTypeBuiltin type.ty = true := by
  cases type <;> rfl

theorem mangleType_scalar (prevs : List QualTy) (type : Scalar) :
    mangleType prevs type.ty [type.qual] = some type.chars := by
  cases type with
  | int width signed => cases width <;> cases signed <;> rfl
  | _ => rfl

theorem mangleType_arg (prevs : List QualTy) (arg : Arg) :
    mangleType prevs arg.qualTy.1 arg.qualTy.2 = some (argText prevs arg) := by
  cases arg with
  | scalar type => exact mangleType_scalar prevs type
  | vector element numElements =>
    have hfind := findSubstitution_eq (Arg.vector element numElements).qualTy (-1) prevs
    rw [argText]
    cases hidx : (substitutable prevs).idxOf? (Arg.vector element numElements).qualTy with
    | some k =>
      have hemit : emitSubstitution (Arg.vector element numElements).qualTy prevs =
          some (substitutionText k) := by
        rw [emitSubstitution, hfind, hidx]
        simp [substitutionText, Arg.qualTy, isTypeBuiltin]
      rw [mangleType, hemit]
    | none =>
      have hemit : emitSubstitution (Arg.vector element numElements).qualTy prevs = none := by
        rw [emitSubstitution, hfind, hidx]
        simp
      rw [mangleType, hemit]
      simp [Arg.qualTy, TypeQualifiers.popFront, mangleSimpleType, mangleType_scalar]

/-- The text of the arguments behind the arguments `prevs`. -/
def argTexts : List QualTy → List Arg → List Char
  | _, [] => []
  | prevs, arg :: args => argText prevs arg ++ argTexts (prevs ++ [arg.qualTy]) args

theorem mangleArgs_eq (prevs : List QualTy) (args : List Arg) :
    mangleArgs prevs (args.map Arg.qualTy) = some (argTexts prevs args) := by
  induction args generalizing prevs with
  | nil => rfl
  | cons arg args ih => simp [mangleArgs, mangleType_arg, ih, argTexts]

/-! ### Reading an argument back -/

theorem argText_cons (prevs : List QualTy) (arg : Arg) :
    ∃ c text, argText prevs arg = c :: text ∧ c.isDigit = false := by
  cases arg with
  | scalar type =>
    cases type with
    | int width signed => cases width <;> cases signed <;> exact ⟨_, _, rfl, rfl⟩
    | _ => exact ⟨_, _, rfl, rfl⟩
  | vector =>
    rw [argText]
    split <;> exact ⟨_, _, rfl, rfl⟩

theorem noDigit_argTexts (prevs : List QualTy) (args : List Arg) :
    NoDigit (argTexts prevs args) := by
  intro c hc
  cases args with
  | nil => cases hc
  | cons arg =>
    obtain ⟨d, text, htext, hd⟩ := argText_cons prevs arg
    rw [argTexts, htext] at hc
    cases hc
    exact hd

theorem demangleType_scalar (fuel : Nat) (type : Scalar) (rest : List Char)
    (quals : TypeQualifiers) :
    demangleType ctx (fuel + 1) (type.chars ++ rest) quals =
      some ((type.ty, quals.pushBack type.qual), rest) := by
  cases type with
  | int width signed => cases width <;> cases signed <;> rfl
  | _ => rfl

theorem demangleType_vector (fuel : Nat) (element : Scalar)
    (numElements : UInt32) (rest : List Char) :
    demangleType ctx (fuel + 2)
        ('D' :: 'v' :: decimal numElements.toNat ++ '_' :: element.chars ++ rest) [] =
      some ((Arg.vector element numElements).qualTy, rest) := by
  have hint := consumeInteger_decimal numElements.toNat_lt
    ('_' :: (element.chars ++ rest)) (fun c hc => by cases hc; rfl)
  have hdv (text : List Char) : consume "Dv" ('D' :: 'v' :: text) = some text := rfl
  have hscore (text : List Char) : consume "_" ('_' :: text) = some text := rfl
  rw [demangleType]
  simp only [cons_append, append_assoc, hdv, hint, hscore, demangleType_scalar,
    bind_eq_bind, bind_some, UInt32.ofNat_toNat]
  rfl

/-- `S_` is read as the first type that can be substituted, and `S1_` as the third. -/
theorem demangleType_substitution (fuel k : Nat) (hk : k < 2 ^ 32)
    (rest : List Char) :
    demangleType ctx (fuel + 1) (substitutionText k ++ rest) [] =
      ((substitutable ctx)[if 0 < k then k + 1 else 0]?).map fun entry =>
        ((entry.1, TypeQualifiers.pushBackAll [] entry.2), rest) := by
  have hs (text : List Char) : consume "S" ('S' :: text) = some text := rfl
  have hscore (text : List Char) : consume "_" ('_' :: text) = some text := rfl
  have hother (text : List Char) : consume "Dv" ('S' :: text) = none ∧
      consume "u3ptr" ('S' :: text) = none ∧ consume "u" ('S' :: text) = none ∧
      consume "P" ('S' :: text) = none ∧ demangleSimpleType ('S' :: text) = none :=
    ⟨rfl, rfl, rfl, rfl, rfl⟩
  have hnodigit : NoDigit ('_' :: rest) := fun c hc => by cases hc; rfl
  rw [substitutionText, demangleType]
  by_cases hpos : 0 < k
  · have hint := consumeInteger_decimal hk ('_' :: rest) hnodigit
    simp only [hpos, if_true, cons_append, append_assoc, nil_append, hs,
      hint, resolveSubstitution_eq]
    cases (substitutable ctx)[k + 1]? <;> rfl
  · have hint := consumeInteger_none hnodigit
    simp only [hpos, if_false, cons_append, nil_append, hs, hint, resolveSubstitution_eq]
    cases (substitutable ctx)[0]? <;> rfl

/-! ### Repeated types -/

/-- An element that occurs before is the first one. -/
def RepeatsFirst {α : Type} (l : List α) : Prop :=
  ∀ before x after, l = before ++ x :: after → x ∈ before → before.head? = some x

theorem repeatsFirst_nil : RepeatsFirst ([] : List α) := by
  intro before x after h
  simp at h

theorem repeatsFirst_concat {l : List α} (h : RepeatsFirst l)
    (hx : x ∈ l → l.head? = some x) : RepeatsFirst (l ++ [x]) := by
  intro before y after heq hmem
  obtain rfl | ⟨after, z, rfl⟩ := eq_nil_or_concat after
  · obtain ⟨rfl, hxy⟩ := append_inj' heq rfl
    obtain ⟨rfl, -⟩ := List.cons.inj hxy
    exact hx hmem
  · rw [concat_eq_append, ← cons_append, ← append_assoc] at heq
    exact h before y after (append_inj' heq rfl).1 hmem

/-- An element that occurs twice is the first one. -/
theorem RepeatsFirst.head?_of_repeated {l : List α} (h : RepeatsFirst l) {i j : Nat}
    (hij : i < j) (hi : l[i]? = some x) (hj : l[j]? = some x) : l.head? = some x := by
  obtain ⟨hlt, rfl⟩ := List.getElem?_eq_some_iff.mp hj
  have hsplit : l = l.take j ++ l[j] :: l.drop (j + 1) := by
    rw [getElem_cons_drop, take_append_drop]
  have hmem : l[j] ∈ l.take j := mem_of_getElem? (by rw [getElem?_take_of_lt hij, hi])
  have hhead := h _ _ _ hsplit hmem
  rwa [head?_take, if_neg (by omega)] at hhead

/-! ### Reading all arguments back -/

variable {prevs : List QualTy} {arg : Arg} {text : List Char}

theorem pushBackAll_qualTy (arg : Arg) :
    TypeQualifiers.pushBackAll [] arg.qualTy.2 = arg.qualTy.2 := by
  cases arg <;> rfl

theorem substitutable_scalar : substitutable [(Arg.scalar type).qualTy] = [] := by
  have hbuiltin : isTypeBuiltin (Arg.scalar type).qualTy.1 = true := isTypeBuiltin_scalar type
  rw [substitutable_cons, if_pos hbuiltin]
  rfl

theorem demangleType_fresh (rest : List Char)
    (hfresh : arg.qualTy ∉ substitutable prevs) :
    demangleType prevs (argText prevs arg ++ rest).length (argText prevs arg ++ rest) [] =
      some (arg.qualTy, rest) := by
  cases arg with
  | scalar type =>
    obtain ⟨c, text, htext, -⟩ := argText_cons prevs (.scalar type)
    obtain ⟨n, hn⟩ : ∃ n, (argText prevs (.scalar type) ++ rest).length = n + 1 := by simp [htext]
    rw [hn]
    exact demangleType_scalar prevs n type rest []
  | vector element numElements =>
    have hidx := idxOf?_eq_none_iff.mpr hfresh
    rw [argText, hidx]
    exact demangleType_vector prevs _ element numElements rest

theorem demangleType_repeated (rest : List Char) {k : Nat} (hk : k < 2 ^ 32)
    (hidx : (substitutable prevs).idxOf? arg.qualTy = some k) :
    demangleType prevs (argText prevs arg ++ rest).length (argText prevs arg ++ rest) [] =
      ((substitutable prevs)[if 0 < k then k + 1 else 0]?).map fun entry =>
        ((entry.1, TypeQualifiers.pushBackAll [] entry.2), rest) := by
  cases arg with
  | scalar =>
    obtain ⟨hlt, hget, -⟩ := idxOf?_eq_some_iff.mp hidx
    have hbuiltin := (mem_filter.mp (hget ▸ getElem_mem hlt)).2
    rw [Arg.qualTy, isTypeBuiltin_scalar] at hbuiltin
    cases hbuiltin
  | vector =>
    rw [argText, hidx]
    exact demangleType_substitution prevs _ k hk rest

/-- An argument that is new, or the first one that can be substituted, is read back. -/
theorem demangleType_readable (rest : List Char)
    (hfirst : arg.qualTy ∈ substitutable prevs →
      (substitutable prevs).head? = some arg.qualTy) :
    demangleType prevs (argText prevs arg ++ rest).length (argText prevs arg ++ rest) [] =
      some (arg.qualTy, rest) := by
  by_cases hmem : arg.qualTy ∈ substitutable prevs
  · have hhead := hfirst hmem
    rw [head?_eq_getElem?] at hhead
    have hidx : (substitutable prevs).idxOf? arg.qualTy = some 0 :=
      idxOf?_eq_some_iff.mpr
        ⟨_, (List.getElem?_eq_some_iff.mp hhead).2, fun _ h => absurd h (Nat.not_lt_zero _)⟩
    rw [demangleType_repeated rest (by decide) hidx, if_neg (Nat.lt_irrefl 0), hhead,
      map_some, pushBackAll_qualTy]
  · exact demangleType_fresh rest hmem

/-- The place of a substituted argument that is not the first one. -/
theorem idxOf?_of_not_first [BEq α] [LawfulBEq α] {l : List α} (hmem : x ∈ l)
    (hfirst : l.head? ≠ some x) : ∃ k, l.idxOf? x = some (k + 1) := by
  cases hidx : l.idxOf? x with
  | none => exact absurd hmem (idxOf?_eq_none_iff.mp hidx)
  | some k =>
    cases k with
    | zero =>
      obtain ⟨hlt, hget, -⟩ := idxOf?_eq_some_iff.mp hidx
      exact absurd (by rw [head?_eq_getElem?, getElem?_eq_getElem hlt, hget]) hfirst
    | succ k => exact ⟨k, rfl⟩

theorem repeatsFirst_substitutable {l : List QualTy} (h : RepeatsFirst l)
    (hfirst : arg.qualTy ∈ l → l.head? = some arg.qualTy) :
    RepeatsFirst (l ++ substitutable [arg.qualTy]) := by
  cases arg with
  | scalar => rwa [substitutable_scalar, append_nil]
  | vector => exact repeatsFirst_concat h hfirst

theorem demangleArgs_acc {args result : List QualTy} {all : Bool}
    (h : demangleArgs fuel text args = (all, result)) : ∃ more, result = args ++ more := by
  induction fuel generalizing text args with
  | zero =>
    cases h
    exact ⟨[], (append_nil _).symm⟩
  | succ fuel ih =>
    rw [demangleArgs] at h
    split at h
    · cases h
      exact ⟨[], (append_nil _).symm⟩
    · split at h
      · cases h
        exact ⟨[], (append_nil _).symm⟩
      · obtain ⟨more, rfl⟩ := ih h
        exact ⟨_, append_assoc ..⟩

theorem demangleArgs_next {ctx : List QualTy} {entry : QualTy}
    (hne : text ≠ []) (h : demangleType ctx text.length text [] = some (entry, rest)) :
    demangleArgs (fuel + 1) text ctx = demangleArgs fuel rest (ctx ++ [entry]) := by
  rw [demangleArgs, if_neg hne, h]

/-- A substituted argument that is not the first one is read as another type, or not at all. -/
theorem demangleArgs_misread {prevs : List Arg} (hlen : prevs.length < 2 ^ 32)
    (hprevs : RepeatsFirst (substitutable (prevs.map Arg.qualTy)))
    (hmem : arg.qualTy ∈ substitutable (prevs.map Arg.qualTy))
    (hfirst : (substitutable (prevs.map Arg.qualTy)).head? ≠ some arg.qualTy)
    (more : List QualTy) :
    demangleArgs (fuel + 1) (argText (prevs.map Arg.qualTy) arg ++ rest) (prevs.map Arg.qualTy) ≠
      (true, prevs.map Arg.qualTy ++ arg.qualTy :: more) := by
  intro h
  obtain ⟨k, hidx⟩ := idxOf?_of_not_first hmem hfirst
  obtain ⟨hlt, hget, -⟩ := idxOf?_eq_some_iff.mp hidx
  have hk : k + 1 < 2 ^ 32 := by
    have := length_filter_le (fun q => !isTypeBuiltin q.1) (prevs.map Arg.qualTy)
    rw [length_map] at this
    exact hlt.trans_le (this.trans hlen.le)
  have hread := demangleType_repeated rest hk hidx
  rw [demangleArgs] at h
  split at h
  · exact absurd (congrArg Prod.snd h) (by simp)
  rw [hread, if_pos (Nat.succ_pos k)] at h
  cases hentry : (substitutable (prevs.map Arg.qualTy))[k + 1 + 1]? with
  | none =>
    rw [hentry] at h
    cases h
  | some entry =>
    -- the entry would be the argument itself, behind another occurrence of it
    rw [hentry] at h
    obtain ⟨more', hmore⟩ := demangleArgs_acc h
    rw [append_assoc, append_cancel_left_eq] at hmore
    obtain ⟨prev, -, rfl⟩ := mem_map.mp
      (mem_of_mem_filter (mem_of_getElem? hentry))
    obtain ⟨heq, -⟩ := List.cons.inj hmore
    rw [pushBackAll_qualTy] at heq
    have hfirst' := hprevs.head?_of_repeated (Nat.lt_succ_self (k + 1))
      (List.getElem?_eq_some_iff.mpr ⟨hlt, hget⟩) (heq ▸ hentry)
    exact hfirst hfirst'

/-- The arguments are read back exactly if no type but the first one is substituted. -/
theorem demangleArgs_argTexts (prevs args : List Arg) (hfuel : args.length < fuel)
    (hlen : prevs.length + args.length < 2 ^ 32)
    (hprevs : RepeatsFirst (substitutable (prevs.map Arg.qualTy))) :
    demangleArgs fuel (argTexts (prevs.map Arg.qualTy) args) (prevs.map Arg.qualTy) =
        (true, (prevs ++ args).map Arg.qualTy) ↔
      RepeatsFirst (substitutable ((prevs ++ args).map Arg.qualTy)) := by
  induction args generalizing prevs fuel with
  | nil =>
    rcases fuel with _ | fuel
    · omega
    simp [argTexts, demangleArgs, hprevs]
  | cons arg args ih =>
    rcases fuel with _ | fuel
    · omega
    have hne : argText (prevs.map Arg.qualTy) arg ++
        argTexts (prevs.map Arg.qualTy ++ [arg.qualTy]) args ≠ [] := by
      obtain ⟨c, text, htext, -⟩ := argText_cons (prevs.map Arg.qualTy) arg
      simp [htext]
    have hmap : (prevs ++ [arg]).map Arg.qualTy = prevs.map Arg.qualTy ++ [arg.qualTy] := by simp
    rw [argTexts, append_cons prevs arg args]
    by_cases hfirst : arg.qualTy ∈ substitutable (prevs.map Arg.qualTy) →
        (substitutable (prevs.map Arg.qualTy)).head? = some arg.qualTy
    · rw [demangleArgs_next hne (demangleType_readable _ hfirst), ← hmap]
      apply ih
      · simpa using hfuel
      · simp only [length_append, length_cons, length_nil] at hlen ⊢
        omega
      · rw [hmap, substitutable_append]
        exact repeatsFirst_substitutable hprevs hfirst
    · rw [Classical.not_imp] at hfirst
      obtain ⟨hmem, hfirst⟩ := hfirst
      constructor
      · intro h
        rw [append_assoc, map_append] at h
        exact absurd h (demangleArgs_misread (by omega) hprevs hmem hfirst _)
      · intro h
        rw [append_assoc, map_append, substitutable_append, singleton_append,
          map_cons, substitutable_cons, if_neg] at h
        · exact absurd (h _ _ _ rfl hmem) hfirst
        · simpa using (mem_filter.mp hmem).2

/-! ### Names -/

theorem length_le_argTexts (prevs : List QualTy) (args : List Arg) :
    args.length ≤ (argTexts prevs args).length := by
  induction args generalizing prevs with
  | nil => simp
  | cons arg args ih =>
    obtain ⟨c, text, htext, -⟩ := argText_cons prevs arg
    have := ih (prevs ++ [arg.qualTy])
    simp only [argTexts, htext, length_append, length_cons]
    omega

theorem mangleName_eq (name : List Char) (args : List Arg) :
    mangleName name (args.map Arg.qualTy) =
      '_' :: 'Z' :: (decimal name.length ++ (name ++ argTexts [] args)) := by
  rw [mangleName, mangleArgs_eq]
  simp

theorem demangleNamePart_eq {name texts : List Char} (hname : NoDigit name) (htexts : NoDigit texts)
    (hlen : name.length < 2 ^ 32) :
    demangleNamePart ('_' :: 'Z' :: (decimal name.length ++ (name ++ texts))) =
      if name = [] then none else some (name, texts) := by
  have hz (text : List Char) : consume "_Z" ('_' :: 'Z' :: text) = some text := rfl
  have hnodigit : NoDigit (name ++ texts) := by
    cases name with
    | nil => exact htexts
    | cons => exact fun d hd => hname d hd
  have hle : ¬name.length > (name ++ texts).length := by simp
  rw [demangleNamePart, hz, bind_eq_bind, bind_some,
    consumeInteger_decimal hlen _ hnodigit, bind_eq_bind, bind_some]
  simp only [hle, length_eq_zero_iff, take_left, drop_left]
  rfl

/-- A mangled name demangles to its signature exactly if the name is not empty, or there are no
arguments, and no vector type is repeated but the first one. -/
theorem demangleName_mangleName_iff {name : List Char} {args : List Arg} (hname : NoDigit name)
    (hlen : (mangleName name (args.map Arg.qualTy)).length < 2 ^ 32) :
    demangleName (mangleName name (args.map Arg.qualTy)) = (name, args.map Arg.qualTy) ↔
      (name = [] → args = []) ∧ RepeatsFirst (substitutable (args.map Arg.qualTy)) := by
  have htexts := noDigit_argTexts [] args
  have hargs := length_le_argTexts [] args
  rw [mangleName_eq] at hlen ⊢
  simp only [length_cons, length_append] at hlen
  rw [demangleName, demangleNamePart_eq hname htexts (by omega)]
  by_cases hempty : name = []
  · rw [hempty]
    constructor
    · intro h
      obtain rfl : args = [] := map_eq_nil_iff.mp (congrArg Prod.snd h).symm
      exact ⟨fun _ => rfl, repeatsFirst_nil⟩
    · rintro ⟨hargs, -⟩
      rw [hargs rfl]
      rfl
  · have hread := demangleArgs_argTexts [] args (Nat.lt_succ_of_le hargs) (by simp; omega)
      repeatsFirst_nil
    rw [if_neg hempty]
    simp only [hempty]
    rw [nil_append] at hread
    rw [← hread]
    split
    · rename_i args' hargs'
      simp [hargs']
    · rename_i args' hargs'
      have hname : [] ≠ name := fun h => hempty h.symm
      simp [hargs', hname]

def int4 : Arg := .vector (.int .w32 true) 4

def float4 : Arg := .vector .float 4

def double4 : Arg := .vector .double 4

theorem demangleName_mangleName_clamp :
    demangleName (mangleName "clamp".toList ([int4, .scalar .half, int4].map Arg.qualTy)) =
      ("clamp".toList, [int4, .scalar .half, int4].map Arg.qualTy) := by
  refine (demangleName_mangleName_iff ?_ (by decide)).mpr ⟨by decide, ?_⟩
  · intro c hc
    cases hc
    rfl
  · exact repeatsFirst_concat (l := [int4.qualTy])
      (repeatsFirst_concat repeatsFirst_nil (by simp)) (fun _ => rfl)

/-- The second vector type is repeated: `S1_` is not found, or is read as the third vector type.
And an empty name is taken for a failure. -/
theorem demangleName_mangleName_fails :
    demangleName (mangleName "fma".toList ([int4, float4, float4].map Arg.qualTy)) ≠
      ("fma".toList, [int4, float4, float4].map Arg.qualTy) ∧
    demangleName (mangleName "fma".toList ([int4, float4, double4, float4].map Arg.qualTy)) =
      ("fma".toList, [int4, float4, double4, double4].map Arg.qualTy) ∧
    [int4, float4, double4, double4].map Arg.qualTy ≠
      [int4, float4, double4, float4].map Arg.qualTy ∧
    demangleName (mangleName [] [(Arg.scalar .float).qualTy]) ≠
      ([], [(Arg.scalar .float).qualTy]) := by
  refine ⟨by decide, by decide, by decide, by decide⟩

end ConstructionKit.Mangling
